import Mathlib
import Waldur.Lib.Clock
import Waldur.Lib.Runs
import Waldur.Marketplace.Models

/-!
# Marketplace.LimitPeriods — the sub-periods of a monthly limit item

`_update_invoice_item` closes the last sub-period of a limit item at the end of the day for a decrease
and at the end of the day before for an increase, opens the next one, and bills the sub-periods by their
days.  An increase on a day that already saw a decrease closes a sub-period before it began, and an item
that starts in the last second of a day may lose that day: `Billable` is the exact condition, on the
start and the changes, under which every day is billed at the highest limit in force on it.
-/

namespace Waldur.Marketplace

open Calendar Clock Invoices Runs

/-- Instants and day numbers are compared by the order of `ℤ` that computes. -/
@[reducible] def instantPreorder : Preorder Instant := Int.instLinearOrder.toPreorder

attribute [local instance] instantPreorder

/-! ## The code -/

/-- A calendar month in UTC. -/
structure BillingMonth where
  year : ℕ
  month : ℕ
  valid : 1 ≤ month ∧ month ≤ 12

namespace BillingMonth

variable (m : BillingMonth)

/-- The day number of the first of the month; day 0 is 1 January 1970. -/
def firstDay : ℤ :=
  (Date.toOrdinal ⟨m.year, m.month, 1, m.valid, ⟨le_refl 1, one_le_monthDays _ _⟩⟩ : ℤ) - 719163

/-- The day number of the first of the next month. -/
def endDay : ℤ := m.firstDay + monthDays m.year m.month

/-- `core_utils.month_end`. -/
def stop : Instant := m.endDay * dayLength - 1

def Contains (t : Instant) : Prop := m.firstDay ≤ day t ∧ day t < m.endDay

instance (t : Instant) : Decidable (m.Contains t) := inferInstanceAs (Decidable (_ ∧ _))

end BillingMonth

/-- `convert_slurm_usage`. -/
def convertSlurmUsage (usage : ℚ) (componentType : String) : ℤ :=
  if componentType = "ram" ∨ componentType = "mem" then ⌈usage / 1024 / 60⌉ else ⌈usage / 60⌉

/-- `int(x)`. -/
def truncate (x : ℚ) : ℤ := if 0 ≤ x then ⌊x⌋ else ⌈x⌉

/-- `convert_quantity` of a limit. -/
def convertQuantity (usage : ℚ) (offeringType componentType : String) : ℚ :=
  if offeringType = "SlurmInvoices.SlurmPackage" then convertSlurmUsage usage componentType
  else if offeringType = "OpenStack.Tenant" then
    if componentType = "storage" ∨ componentType = "ram" then truncate (usage / 1024) else truncate usage
  else usage

def serializeResourceLimitPeriod (start stop : Instant) (quantity : ℚ) : LimitPeriod where
  start := start
  stop := stop
  quantity := quantity
  billingPeriods := fullDays start stop
  total := quantity * fullDays start stop

/-- `_get_total_quantity`. -/
def getTotalQuantity (unit : Units) (value : ℚ) (start stop : Instant) : ℚ :=
  if unit = .perDay then value * fullDays start stop else value

/-- What the limit billing of a component reads besides the item and the change. -/
structure LimitBilling where
  resource : MarketplaceResource
  plan : Plan
  planComponent : PlanComponent
  componentType : String
  month : BillingMonth
  plan_eq : resource.plan = some plan
  component_eq : plan.component? componentType = some planComponent

/-- A limit in billing units. -/
def LimitBilling.convert (b : LimitBilling) (limit : ℚ) : ℚ :=
  convertQuantity limit b.resource.offeringType b.componentType

/-- The item that `_create_invoice_item` creates for the rest of a month. -/
def LimitBilling.newItem (b : LimitBilling) (uuid : ℕ) (start : Instant) (limit : ℚ) : InvoiceItem where
  uuid := uuid
  unitPrice := b.planComponent.price
  quantity := getTotalQuantity b.plan.unit (b.convert limit) start b.month.stop
  unit := b.plan.unit
  resource := some b.resource.ref
  planComponent := some b.planComponent.id
  project := some b.resource.ref.project
  start := start
  stop := b.month.stop
  details :=
    { offeringComponentType := some b.planComponent.componentType
      planUuid := some b.plan.uuid
      planComponentId := some b.planComponent.id
      discountUsage := some (b.convert limit)
      resourceLimitPeriods := [serializeResourceLimitPeriod start b.month.stop (b.convert limit)] }

/-- The end of the closed sub-period and the start of the next one. -/
def changeBoundary (today : Instant) (oldQuantity newQuantity : ℚ) : Instant × Instant :=
  if oldQuantity > newQuantity then (atDayEnd today, atDayEnd today + second)
  else (atDayStart today - second, atDayStart today)

/-- The average of the sub-periods, weighted by their days. -/
def weightedLimit (totalDays : ℤ) (periods : List LimitPeriod) : ℚ :=
  (periods.map (fun p => p.quantity * (fullDays p.start p.stop : ℚ) / (totalDays : ℚ))).sum

/-- The item with its last sub-period closed at `today`. -/
def reviseItem (unit : Units) (periodEnd today : Instant) (oldPeriod : LimitPeriod) (newQuantity : ℚ)
    (item : InvoiceItem) : InvoiceItem :=
  let boundary := changeBoundary today oldPeriod.quantity newQuantity
  let periods := item.details.resourceLimitPeriods.dropLast ++
    [serializeResourceLimitPeriod oldPeriod.start boundary.1 oldPeriod.quantity,
      serializeResourceLimitPeriod boundary.2 periodEnd newQuantity]
  let totalDays := fullDays item.start item.stop
  { item with
    quantity :=
      if unit = .perDay then
        (periods.map (fun p => getTotalQuantity unit p.quantity p.start p.stop)).sum
      else if totalDays > 0 then weightedLimit totalDays periods
      else 0
    details :=
      { item.details with
        resourceLimitPeriods := periods
        discountUsage :=
          if item.details.discountUsage.isSome && decide (totalDays > 0) then some (weightedLimit totalDays periods)
          else item.details.discountUsage } }

/-- Selected by the lookup of `_update_invoice_item`. -/
def isLimitItem (resource : ℕ) (componentType : String) (plan : ℕ) (it : InvoiceItem) : Bool :=
  it.resource.any (fun r => r.id == resource) && it.details.offeringComponentType == some componentType &&
    it.details.planUuid == some plan && decide (0 ≤ it.unitPrice)

/-- What the lookups raise, and `pop` on an empty list. -/
inductive UpdateError
  | doesNotExist
  | multipleObjectsReturned
  | popFromEmptyList
deriving DecidableEq, Repr

/-- An item of an invoice rewritten in place. -/
def replaceItem (inv : Invoice) (p : InvoiceItem → Bool) (item : InvoiceItem)
    (h : item.WellAttributed inv.customer) : Invoice :=
  { inv with
    items := inv.items.map (fun it => if p it then item else it)
    attributed := by
      intro it hit
      obtain ⟨it₀, hit₀, rfl⟩ := List.mem_map.mp hit
      split
      · exact h
      · exact inv.attributed it₀ hit₀ }

theorem reviseItem_wellAttributed {unit : Units} {periodEnd today : Instant} {oldPeriod : LimitPeriod}
    {newQuantity : ℚ} {item : InvoiceItem} {customer : ℕ} (h : item.WellAttributed customer) :
    (reviseItem unit periodEnd today oldPeriod newQuantity item).WellAttributed customer := h

theorem mem_of_filter_eq {inv : Invoice} {p : InvoiceItem → Bool} {item : InvoiceItem}
    (h : inv.items.filter p = [item]) : item ∈ inv.items :=
  List.mem_of_mem_filter (by rw [h]; exact List.mem_cons_self)

/-- `_update_invoice_item`. -/
def updateInvoiceItem (resource : MarketplaceResource) (componentType : String) (month : BillingMonth)
    (today : Instant) (newQuantity : ℚ) (inv : Invoice) : Except UpdateError Invoice :=
  match resource.plan with
  | none => .ok inv
  | some plan =>
    match h : inv.items.filter (isLimitItem resource.ref.id componentType plan.uuid) with
    | [] => .error .doesNotExist
    | _ :: _ :: _ => .error .multipleObjectsReturned
    | [item] =>
      match item.details.resourceLimitPeriods.getLast? with
      | none => .error .popFromEmptyList
      | some oldPeriod =>
        let newQuantity := convertQuantity newQuantity resource.offeringType componentType
        if oldPeriod.quantity = newQuantity then .ok inv
        else
          match plan.component? componentType with
          | none => .error .doesNotExist
          | some _ =>
            .ok (replaceItem inv (isLimitItem resource.ref.id componentType plan.uuid)
              (reviseItem plan.unit month.stop today oldPeriod newQuantity item)
              (reviseItem_wellAttributed (inv.attributed item (mem_of_filter_eq h))))

/-! ## The limits in force -/

/-- The limits of a component over time, in billing units: the changes so far, oldest first, and the time
and direction of the last one that changed anything. -/
structure LimitHistory where
  initial : ℚ
  changes : List (Instant × ℚ) := []
  lastEffective : Option (Instant × Bool) := none

namespace LimitHistory

variable (h : LimitHistory)

/-- The limit in force now. -/
def current : ℚ := (h.changes.getLast?.map Prod.snd).getD h.initial

/-- The limit that a day begins with. -/
def carried (d : ℤ) : ℚ :=
  ((h.changes.filter (fun c => decide (day c.1 < d))).getLast?.map Prod.snd).getD h.initial

/-- **The highest limit in force on a day.** -/
def maxInForce (d : ℤ) : ℚ :=
  ((h.changes.filter (fun c => decide (day c.1 = d))).map Prod.snd).foldl max (h.carried d)

def add (t : Instant) (q : ℚ) : LimitHistory where
  initial := h.initial
  changes := h.changes ++ [(t, q)]
  lastEffective := if q = h.current then h.lastEffective else some (t, decide (q < h.current))

variable {h}
variable {t : Instant} {q : ℚ} {d : ℤ}

@[simp] theorem current_add : (h.add t q).current = q := by
  show (((h.changes ++ [(t, q)]).getLast?).map Prod.snd).getD h.initial = q
  rw [List.getLast?_concat]
  rfl

theorem lastEffective_add : (h.add t q).lastEffective =
    if q = h.current then h.lastEffective else some (t, decide (q < h.current)) := rfl

theorem carried_add_of_le (hd : d ≤ day t) : (h.add t q).carried d = h.carried d := by
  show (((h.changes ++ [(t, q)]).filter _).getLast?.map Prod.snd).getD h.initial = _
  rw [List.filter_append, List.filter_cons_of_neg (by simpa using hd), List.filter_nil, List.append_nil]
  rfl

theorem maxInForce_add_of_lt (hd : d < day t) : (h.add t q).maxInForce d = h.maxInForce d := by
  show (((h.changes ++ [(t, q)]).filter _).map Prod.snd).foldl max ((h.add t q).carried d) = _
  rw [carried_add_of_le hd.le, List.filter_append, List.filter_cons_of_neg (by simpa using hd.ne'),
    List.filter_nil, List.append_nil]
  rfl

theorem maxInForce_add_same : (h.add t q).maxInForce (day t) = max (h.maxInForce (day t)) q := by
  show (((h.changes ++ [(t, q)]).filter _).map Prod.snd).foldl max ((h.add t q).carried (day t)) = _
  rw [carried_add_of_le le_rfl, List.filter_append, List.filter_cons_of_pos (by simp), List.filter_nil,
    List.map_append, List.foldl_append]
  rfl

/-- A day after all changes begins with the current limit and keeps it. -/
theorem maxInForce_of_after (hd : ∀ c ∈ h.changes, day c.1 < d) : h.maxInForce d = h.current := by
  have hbefore : h.changes.filter (fun c => decide (day c.1 < d)) = h.changes :=
    List.filter_eq_self.mpr fun c hc => decide_eq_true (hd c hc)
  have hon : h.changes.filter (fun c => decide (day c.1 = d)) = [] :=
    List.filter_eq_nil_iff.mpr fun c hc => by simpa using (hd c hc).ne
  show (List.map Prod.snd _).foldl max (h.carried d) = _
  rw [hon]
  show ((h.changes.filter _).getLast?.map Prod.snd).getD h.initial = _
  rw [hbefore]
  rfl

/-- No change is later than an instant, and the limit in force from then on is at most what is charged for. -/
structure UpTo (h : LimitHistory) (now : Instant) : Prop where
  changes_le : ∀ c ∈ h.changes, c.1 ≤ now
  current_le : ∀ d, day now ≤ d → h.current ≤ h.maxInForce d

theorem UpTo.maxInForce_after {now : Instant} (hu : h.UpTo now) (hd : day now < d) : h.maxInForce d = h.current :=
  maxInForce_of_after fun c hc => lt_of_le_of_lt (day_mono (hu.changes_le c hc)) hd

theorem upTo_nil (initial : ℚ) (now : Instant) : (LimitHistory.mk initial [] none).UpTo now :=
  ⟨fun _ hc => absurd hc List.not_mem_nil, fun d _ => (maxInForce_of_after (d := d) (by simp)).ge⟩

theorem UpTo.add {now : Instant} (hu : h.UpTo now) (ht : now ≤ t) : (h.add t q).UpTo t := by
  have hle : ∀ c ∈ (h.add t q).changes, c.1 ≤ t := by
    intro c hc
    rcases List.mem_append.mp hc with hc | hc
    · exact (hu.changes_le c hc).trans ht
    · exact le_of_eq (congrArg Prod.fst (List.mem_singleton.mp hc))
  refine ⟨hle, fun d hd => ?_⟩
  rcases hd.eq_or_lt with rfl | hd
  · rw [current_add, maxInForce_add_same]
    exact le_max_right _ _
  · exact (maxInForce_of_after fun c hc => lt_of_le_of_lt (day_mono (hle c hc)) hd).ge

end LimitHistory

/-- The start is not lost at the first change: it is before the second in which the change closes a day, or
it is the last instant of its day, which is not billed, and the change is not an increase at that instant. -/
def StartFits (start t : ℤ) (isIncrease : Bool) : Prop :=
  timeOfDay start < dayLength - second + microsecond t ∨
    timeOfDay start = dayLength - 1 ∧ ¬ (isIncrease = true ∧ t = start)

instance (start t : ℤ) (isIncrease : Bool) : Decidable (StartFits start t isIncrease) :=
  inferInstanceAs (Decidable (_ ∨ _ ∧ ¬ (_ ∧ _)))

/-- The change fits the last effective one: the first does not lose the start, and no later one raises a limit
that was lowered on the same day. -/
def FitsLast (start : Instant) (current : ℚ) (t : Instant) (q : ℚ) : Option (Instant × Bool) → Prop
  | none => StartFits start t (decide (current < q))
  | some (t', isDecrease) => ¬ (isDecrease = true ∧ current < q ∧ day t' = day t)

instance (start : Instant) (current : ℚ) (t : Instant) (q : ℚ) :
    ∀ last, Decidable (FitsLast start current t q last)
  | none => inferInstanceAs (Decidable (StartFits start t (decide (current < q))))
  | some (t', isDecrease) => inferInstanceAs (Decidable (¬ (isDecrease = true ∧ current < q ∧ day t' = day t)))

/-- **Where a change is billed right**: it changes nothing, or it fits the last one that did. -/
def Billable (start : Instant) (h : LimitHistory) (t : Instant) (q : ℚ) : Prop :=
  q = h.current ∨ FitsLast start h.current t q h.lastEffective

instance (start : Instant) (h : LimitHistory) (t : Instant) (q : ℚ) : Decidable (Billable start h t q) :=
  inferInstanceAs (Decidable (_ ∨ _))

/-- The first day that an item is billed for. -/
def firstCharged (month : BillingMonth) (start : Instant) : ℤ := month.endDay - fullDays start month.stop

/-- The days that an item is billed for: the last ones of the month, as many as it spans. -/
def chargedDays (month : BillingMonth) (start : Instant) : Finset ℤ :=
  Finset.Ico (firstCharged month start) month.endDay

/-- **An item billed day by day**: its sub-periods have no negative number of days and cover the item, and
it is billed for the highest limit in force on each day, or their average; an item of no days has none. -/
structure BilledByDay (unit : Units) (month : BillingMonth) (h : LimitHistory) (item : InvoiceItem) : Prop where
  nonneg : ∀ p ∈ item.details.resourceLimitPeriods, 0 ≤ p.billingPeriods
  days : (item.details.resourceLimitPeriods.map (·.billingPeriods)).sum = fullDays item.start item.stop
  perDay : unit = .perDay → item.quantity = ∑ d ∈ chargedDays month item.start, h.maxInForce d
  prorated : unit ≠ .perDay → fullDays item.start item.stop ≠ 0 →
    item.quantity = (∑ d ∈ chargedDays month item.start, h.maxInForce d) / fullDays item.start item.stop

/-! ## Where a sub-period ends and the next one begins -/

/-- The day that the new limit is billed from. -/
def boundaryDay (today : Instant) (oldQuantity newQuantity : ℚ) : ℤ :=
  if newQuantity < oldQuantity then day today + 1 else day today

/-- Within the first second of a day. -/
def OpensOn (t : Instant) (d : ℤ) : Prop := ∃ m, (0 ≤ m ∧ m < second) ∧ t = d * dayLength + m

section Boundary

variable (today : Instant) (old new : ℚ)

theorem changeBoundary_fst : (changeBoundary today old new).1 =
    (boundaryDay today old new - 1) * dayLength + (dayLength - second) + microsecond today := by
  unfold changeBoundary boundaryDay atDayEnd atDayStart
  split
  · show _ = (day today + 1 - 1) * dayLength + (dayLength - second) + microsecond today
    rw [add_sub_cancel_right]
  · show day today * dayLength + microsecond today - second = _
    unfold dayLength
    omega

theorem opensOn_changeBoundary : OpensOn (changeBoundary today old new).2 (boundaryDay today old new) := by
  refine ⟨microsecond today, microsecond_bounds today, ?_⟩
  unfold changeBoundary boundaryDay atDayEnd atDayStart
  split
  · show day today * dayLength + (dayLength - second) + microsecond today + second = _
    unfold dayLength
    omega
  · rfl

variable {today old new}

theorem fullDays_opensOn_close {ls : Instant} {f : ℤ} (h : OpensOn ls f) :
    fullDays ls (changeBoundary today old new).1 = boundaryDay today old new - f := by
  obtain ⟨m, hm, rfl⟩ := h
  rw [changeBoundary_fst, fullDays_secondToLast hm (microsecond_bounds today)]
  omega

theorem fullDays_opensOn_stop {ls : Instant} {f : ℤ} (h : OpensOn ls f) (month : BillingMonth) :
    fullDays ls month.stop = month.endDay - f := by
  obtain ⟨m, hm, rfl⟩ := h
  exact fullDays_toLastInstant hm

/-- The item's first sub-period, when it is closed, spans the days before the boundary, and the boundary is
not before them. -/
theorem startFits_iff {month : BillingMonth} {start : Instant} (ht : start ≤ today) (hne : new ≠ old) :
    StartFits start today (decide (old < new)) ↔
      fullDays start (changeBoundary today old new).1 = boundaryDay today old new - firstCharged month start ∧
        firstCharged month start ≤ boundaryDay today old new := by
  have hm := microsecond_bounds today
  have ht : @LE.le ℤ _ start today := ht
  obtain ⟨hstart, h₀, h₁⟩ := day_timeOfDay start
  obtain ⟨htoday, ht₀, ht₁⟩ := day_timeOfDay today
  have hmonth : fullDays start month.stop =
      month.endDay - day start - if timeOfDay start = dayLength - 1 then 1 else 0 := fullDays_toMonthEnd _ _
  rw [changeBoundary_fst, fullDays_toLastSecond _ _ hm, firstCharged, hmonth]
  unfold StartFits boundaryDay
  rcases lt_or_gt_of_ne hne with hlt | hgt
  · rw [if_pos hlt, decide_eq_false hlt.not_gt]
    simp only [Bool.false_eq_true, false_and, not_false_eq_true, and_true]
    unfold dayLength second at *
    split_ifs <;> omega
  · rw [if_neg hgt.not_gt, decide_eq_true hgt]
    simp only [true_and]
    unfold dayLength second at *
    split_ifs <;> omega

end Boundary

/-! ## What an update does to the item -/

namespace LimitBilling

variable (b : LimitBilling)

/-- The items that `_update_invoice_item` looks up. -/
def isItem : InvoiceItem → Bool := isLimitItem b.resource.ref.id b.componentType b.plan.uuid

/-- The item after a change of the limit. -/
def revised (today : Instant) (oldPeriod : LimitPeriod) (newQuantity : ℚ) (item : InvoiceItem) : InvoiceItem :=
  if oldPeriod.quantity = newQuantity then item
  else reviseItem b.plan.unit b.month.stop today oldPeriod newQuantity item

variable {b}

theorem revised_of_eq {today : Instant} {oldPeriod : LimitPeriod} {q : ℚ} {item : InvoiceItem}
    (h : oldPeriod.quantity = q) : b.revised today oldPeriod q item = item := if_pos h

theorem revised_of_ne {today : Instant} {oldPeriod : LimitPeriod} {q : ℚ} {item : InvoiceItem}
    (h : oldPeriod.quantity ≠ q) : b.revised today oldPeriod q item =
      reviseItem b.plan.unit b.month.stop today oldPeriod q item := if_neg h

theorem filter_replaceItem {inv : Invoice} {p : InvoiceItem → Bool} {item item' : InvoiceItem}
    {hw : item'.WellAttributed inv.customer} (h : inv.items.filter p = [item]) (hp : p item' = true) :
    (replaceItem inv p item' hw).items.filter p = [item'] := by
  show (inv.items.map (fun it => if p it then item' else it)).filter p = [item']
  have hcomp : p ∘ (fun it => if p it then item' else it) = p := by
    funext it
    show p (if p it then item' else it) = p it
    split
    · next hit => rw [hit, hp]
    · rfl
  have hitem : p item = true := List.of_mem_filter (a := item) (l := inv.items) (by rw [h]; exact List.mem_cons_self)
  rw [List.filter_map, hcomp, h, List.map_singleton, if_pos hitem]

/-- `_update_invoice_item` finds the item and revises it. -/
theorem updateInvoiceItem_spec {inv : Invoice} {item : InvoiceItem} {oldPeriod : LimitPeriod} (today : Instant)
    (limit : ℚ) (h : inv.items.filter b.isItem = [item])
    (hlast : item.details.resourceLimitPeriods.getLast? = some oldPeriod) :
    ∃ inv', updateInvoiceItem b.resource b.componentType b.month today limit inv = .ok inv' ∧
      inv'.items.filter b.isItem = [b.revised today oldPeriod (b.convert limit) item] := by
  have hitem : b.isItem item = true :=
    List.of_mem_filter (a := item) (l := inv.items) (by rw [h]; exact List.mem_cons_self)
  unfold updateInvoiceItem
  rw [b.plan_eq]
  dsimp only
  split
  · next h' => cases h.symm.trans h'
  · next h' => cases h.symm.trans h'
  · next item' h' =>
    obtain rfl : item = item' := List.head_eq_of_cons_eq (h.symm.trans h')
    rw [hlast]
    show ∃ inv', (if oldPeriod.quantity = b.convert limit then _ else _) = _ ∧ _
    unfold revised
    split
    · exact ⟨inv, rfl, h⟩
    · rw [b.component_eq]
      exact ⟨_, rfl, filter_replaceItem h hitem⟩

end LimitBilling

/-! ## Sums over sub-periods and over days -/

/-- The sub-periods' limits, each times its days. -/
def chargedFor (periods : List LimitPeriod) : ℚ :=
  (periods.map (fun p => p.quantity * (fullDays p.start p.stop : ℚ))).sum

theorem weightedLimit_eq (totalDays : ℤ) (periods : List LimitPeriod) :
    weightedLimit totalDays periods = chargedFor periods / totalDays := by
  unfold weightedLimit chargedFor
  simp only [div_eq_mul_inv]
  exact List.sum_map_mul_right ..

theorem chargedFor_append (periods periods' : List LimitPeriod) :
    chargedFor (periods ++ periods') = chargedFor periods + chargedFor periods' := by
  unfold chargedFor
  rw [List.map_append, List.sum_append]

theorem sum_days_consecutive (F : ℤ → ℚ) {d e f : ℤ} (hde : d ≤ e) (hef : e ≤ f) :
    ∑ x ∈ Finset.Ico d f, F x = ∑ x ∈ Finset.Ico d e, F x + ∑ x ∈ Finset.Ico e f, F x := by
  rw [← Finset.Ico_union_Ico_eq_Ico hde hef]
  exact Finset.sum_union (Finset.Ico_disjoint_Ico_consecutive d e f)

theorem sum_days_const {F : ℤ → ℚ} {c : ℚ} {d e : ℤ} (hde : d ≤ e) (hF : ∀ x, d ≤ x → x < e → F x = c) :
    ∑ x ∈ Finset.Ico d e, F x = c * ((e - d : ℤ) : ℚ) := by
  have hcard : ((Finset.Ico d e).card : ℚ) = ((e - d : ℤ) : ℚ) := by
    exact_mod_cast Int.card_Ico_of_le d e hde
  rw [Finset.sum_congr rfl fun x hx => hF x (Finset.mem_Ico.mp hx).1 (Finset.mem_Ico.mp hx).2, Finset.sum_const,
    nsmul_eq_mul, hcard, mul_comm]

/-! ## The invariant of the sub-periods -/

/-- The last sub-period begins at `ls`, and is billed from day `f` on. -/
def Opened (month : BillingMonth) (start : Instant) (h : LimitHistory) (now ls : Instant) (f : ℤ) : Prop :=
  match h.lastEffective with
  | none => ls = start ∧ f = firstCharged month start
  | some (t, isDecrease) => OpensOn ls f ∧ (f = if isDecrease then day t + 1 else day t) ∧ t ≤ now

/-- **The invariant**: the closed sub-periods bill the days before `f`, the last one the days from `f` on. -/
structure Tracked (unit : Units) (month : BillingMonth) (h : LimitHistory) (item : InvoiceItem)
    (closed : List LimitPeriod) (ls : Instant) (f : ℤ) : Prop where
  stop_eq : item.stop = month.stop
  periods : item.details.resourceLimitPeriods = closed ++ [serializeResourceLimitPeriod ls month.stop h.current]
  closed_nonneg : ∀ p ∈ closed, 0 ≤ p.billingPeriods
  closed_days : (closed.map (·.billingPeriods)).sum = f - firstCharged month item.start
  closed_charged : chargedFor closed = ∑ d ∈ Finset.Ico (firstCharged month item.start) f, h.maxInForce d
  open_days : fullDays ls month.stop = month.endDay - f
  first_le : firstCharged month item.start ≤ f
  le_end : f ≤ month.endDay
  ahead : ∀ d, f ≤ d → h.maxInForce d = h.current
  billed : BilledByDay unit month h item

section Step

variable {unit : Units} {month : BillingMonth} {h : LimitHistory} {item : InvoiceItem} {closed : List LimitPeriod}
  {ls : Instant} {f : ℤ} {now t : Instant} {q : ℚ}

/-- A limit set again changes nothing in force. -/
theorem maxInForce_add_current (hu : h.UpTo now) (ht : now ≤ t) (d : ℤ) :
    (h.add t h.current).maxInForce d = h.maxInForce d := by
  rcases lt_trichotomy d (day t) with hd | rfl | hd
  · exact LimitHistory.maxInForce_add_of_lt hd
  · rw [LimitHistory.maxInForce_add_same]
    exact max_eq_left (hu.current_le _ (day_mono ht))
  · rw [(hu.add ht).maxInForce_after hd, LimitHistory.current_add, hu.maxInForce_after (lt_of_le_of_lt (day_mono ht) hd)]

/-- Before the boundary of a change, days whose limit is settled keep it. -/
theorem maxInForce_add_before (hu : h.UpTo now) (ht : now ≤ t) {d : ℤ} (hd : d < boundaryDay t h.current q) :
    (h.add t q).maxInForce d = h.maxInForce d := by
  unfold boundaryDay at hd
  split at hd
  · next hlt =>
    rcases (Int.lt_add_one_iff.mp hd).lt_or_eq with hd | rfl
    · exact LimitHistory.maxInForce_add_of_lt hd
    · rw [LimitHistory.maxInForce_add_same]
      exact max_eq_left (hlt.le.trans (hu.current_le _ (day_mono ht)))
  · exact LimitHistory.maxInForce_add_of_lt hd

/-- From the boundary of a change on, the new limit is the highest one. -/
theorem maxInForce_add_from (hu : h.UpTo now) (ht : now ≤ t) (hahead : ∀ d, f ≤ d → h.maxInForce d = h.current)
    (hf : f ≤ boundaryDay t h.current q) {d : ℤ} (hd : boundaryDay t h.current q ≤ d) :
    (h.add t q).maxInForce d = q := by
  have hafter : ∀ {d}, day t < d → (h.add t q).maxInForce d = q := fun hd => by
    rw [(hu.add ht).maxInForce_after hd, LimitHistory.current_add]
  have hsame := hahead d (hf.trans hd)
  unfold boundaryDay at hd
  split at hd
  · exact hafter (Int.lt_iff_add_one_le.mpr hd)
  · next hge =>
    rcases hd.eq_or_lt with rfl | hd
    · rw [LimitHistory.maxInForce_add_same, hsame]
      exact max_eq_right (not_lt.mp hge)
    · exact hafter hd

/-- The sub-periods after a change: the last one closed and the next one opened. -/
def closedPeriod (h : LimitHistory) (t : Instant) (q : ℚ) (ls : Instant) : LimitPeriod :=
  serializeResourceLimitPeriod ls (changeBoundary t h.current q).1 h.current

def openedPeriod (month : BillingMonth) (h : LimitHistory) (t : Instant) (q : ℚ) : LimitPeriod :=
  serializeResourceLimitPeriod (changeBoundary t h.current q).2 month.stop q

/-- The item after a change of the current limit. -/
def revisedItem (unit : Units) (month : BillingMonth) (h : LimitHistory) (t : Instant) (q : ℚ) (ls : Instant)
    (item : InvoiceItem) : InvoiceItem :=
  reviseItem unit month.stop t (serializeResourceLimitPeriod ls month.stop h.current) q item

theorem openedPeriod_days :
    (openedPeriod month h t q).billingPeriods = month.endDay - boundaryDay t h.current q :=
  fullDays_opensOn_stop (opensOn_changeBoundary t h.current q) month

namespace Tracked

variable (hT : Tracked unit month h item closed ls f)
include hT

theorem fullDays_item : fullDays item.start item.stop = month.endDay - firstCharged month item.start := by
  rw [hT.stop_eq, firstCharged]
  omega

theorem revised_periods : (revisedItem unit month h t q ls item).details.resourceLimitPeriods =
    closed ++ [closedPeriod h t q ls, openedPeriod month h t q] := by
  show item.details.resourceLimitPeriods.dropLast ++ _ = _
  rw [hT.periods, List.dropLast_concat]
  rfl

theorem revised_days : ((revisedItem unit month h t q ls item).details.resourceLimitPeriods.map
      (·.billingPeriods)).sum = (f - firstCharged month item.start) + (closedPeriod h t q ls).billingPeriods +
      (month.endDay - boundaryDay t h.current q) := by
  rw [hT.revised_periods, List.map_append, List.sum_append, hT.closed_days, ← openedPeriod_days (h := h) (t := t)]
  simp [add_assoc]

/-- A revised item that is billed right has its last sub-period closed where the next one opens. -/
theorem closes_of_billed (hb : BilledByDay unit month (h.add t q) (revisedItem unit month h t q ls item)) :
    fullDays ls (changeBoundary t h.current q).1 = boundaryDay t h.current q - f ∧
      f ≤ boundaryDay t h.current q := by
  have hdays := hb.days
  rw [hT.revised_days] at hdays
  have hspan : fullDays (revisedItem unit month h t q ls item).start (revisedItem unit month h t q ls item).stop =
      month.endDay - firstCharged month item.start := hT.fullDays_item
  have hnonneg : 0 ≤ (closedPeriod h t q ls).billingPeriods :=
    hb.nonneg _ (by rw [hT.revised_periods]; simp)
  have hcp : (closedPeriod h t q ls).billingPeriods = fullDays ls (changeBoundary t h.current q).1 := rfl
  omega

theorem charged_revised (hu : h.UpTo now) (ht : now ≤ t) (hend : boundaryDay t h.current q ≤ month.endDay)
    (hclose : fullDays ls (changeBoundary t h.current q).1 = boundaryDay t h.current q - f)
    (hf : f ≤ boundaryDay t h.current q) :
    chargedFor (closed ++ [closedPeriod h t q ls]) =
        ∑ d ∈ Finset.Ico (firstCharged month item.start) (boundaryDay t h.current q), (h.add t q).maxInForce d ∧
      chargedFor [openedPeriod month h t q] =
        ∑ d ∈ Finset.Ico (boundaryDay t h.current q) month.endDay, (h.add t q).maxInForce d := by
  constructor
  · have hold : ∑ d ∈ Finset.Ico (firstCharged month item.start) f, h.maxInForce d =
        ∑ d ∈ Finset.Ico (firstCharged month item.start) f, (h.add t q).maxInForce d :=
      Finset.sum_congr rfl fun d hd =>
        (maxInForce_add_before hu ht (lt_of_lt_of_le (Finset.mem_Ico.mp hd).2 hf)).symm
    have hnew : ∑ d ∈ Finset.Ico f (boundaryDay t h.current q), (h.add t q).maxInForce d =
        h.current * ((boundaryDay t h.current q - f : ℤ) : ℚ) :=
      sum_days_const hf fun d hfd hd => by rw [maxInForce_add_before hu ht hd, hT.ahead d hfd]
    rw [sum_days_consecutive _ hT.first_le hf, hnew, ← hold, ← hT.closed_charged, chargedFor_append, ← hclose]
    simp [chargedFor, closedPeriod, serializeResourceLimitPeriod]
  · rw [sum_days_const hend fun d hd _ => maxInForce_add_from hu ht hT.ahead hf hd, ← openedPeriod_days]
    simp [chargedFor, openedPeriod, serializeResourceLimitPeriod]

theorem revised_quantity : (revisedItem unit month h t q ls item).quantity =
    if unit = .perDay then chargedFor (closed ++ [closedPeriod h t q ls, openedPeriod month h t q])
    else if fullDays item.start item.stop > 0 then
      chargedFor (closed ++ [closedPeriod h t q ls, openedPeriod month h t q]) / fullDays item.start item.stop
    else 0 := by
  rw [← hT.revised_periods, ← weightedLimit_eq]
  show (if unit = .perDay then _ else _) = _
  split
  · next hunit =>
    subst hunit
    rfl
  · rfl

/-- **A change whose sub-periods meet** is billed day by day, and keeps the invariant. -/
theorem revise (hu : h.UpTo now) (ht : now ≤ t) (hend : boundaryDay t h.current q ≤ month.endDay)
    (hclose : fullDays ls (changeBoundary t h.current q).1 = boundaryDay t h.current q - f)
    (hf : f ≤ boundaryDay t h.current q) :
    Tracked unit month (h.add t q) (revisedItem unit month h t q ls item) (closed ++ [closedPeriod h t q ls])
      (changeBoundary t h.current q).2 (boundaryDay t h.current q) := by
  obtain ⟨hcharged, hopened⟩ := hT.charged_revised hu ht hend hclose hf
  have hcp : (closedPeriod h t q ls).billingPeriods = boundaryDay t h.current q - f := hclose
  have hnonneg : ∀ p ∈ closed ++ [closedPeriod h t q ls], 0 ≤ p.billingPeriods := by
    intro p hp
    rcases List.mem_append.mp hp with hp | hp
    · exact hT.closed_nonneg p hp
    · obtain rfl := List.mem_singleton.mp hp
      omega
  have htotal : chargedFor (closed ++ [closedPeriod h t q ls, openedPeriod month h t q]) =
      ∑ d ∈ chargedDays month item.start, (h.add t q).maxInForce d := by
    rw [List.append_cons, chargedFor_append, hcharged, hopened, chargedDays,
      sum_days_consecutive _ (hT.first_le.trans hf) hend]
  have hspan := hT.fullDays_item
  refine ⟨hT.stop_eq, ?_, hnonneg, ?_, hcharged, ?_, hT.first_le.trans hf, hend, ?_, ⟨?_, ?_, ?_, ?_⟩⟩
  · rw [hT.revised_periods, List.append_cons, LimitHistory.current_add]
    rfl
  · rw [List.map_append, List.sum_append, hT.closed_days, List.map_singleton, List.sum_singleton, hcp]
    show _ = boundaryDay t h.current q - firstCharged month item.start
    omega
  · exact fullDays_opensOn_stop (opensOn_changeBoundary t h.current q) month
  · intro d hd
    rw [LimitHistory.current_add]
    exact maxInForce_add_from hu ht hT.ahead hf hd
  · intro p hp
    rw [hT.revised_periods, List.append_cons] at hp
    rcases List.mem_append.mp hp with hp | hp
    · exact hnonneg p hp
    · obtain rfl := List.mem_singleton.mp hp
      rw [openedPeriod_days]
      omega
  · rw [hT.revised_days]
    show _ = fullDays item.start item.stop
    omega
  · intro hunit
    rw [hT.revised_quantity, if_pos hunit, htotal]
    rfl
  · intro hunit hdays
    have hpos : fullDays item.start item.stop > 0 := by
      have hfirst := hT.first_le
      have hle := hT.le_end
      have hne : fullDays item.start item.stop ≠ 0 := hdays
      omega
    rw [hT.revised_quantity, if_neg hunit, if_pos hpos, htotal]
    rfl

/-- A limit that is set again leaves the item as it is. -/
theorem keep (hu : h.UpTo now) (ht : now ≤ t) : Tracked unit month (h.add t h.current) item closed ls f := by
  have hmax : (h.add t h.current).maxInForce = h.maxInForce := funext (maxInForce_add_current hu ht)
  refine ⟨hT.stop_eq, ?_, hT.closed_nonneg, hT.closed_days, ?_, hT.open_days, hT.first_le, hT.le_end, ?_,
    ⟨hT.billed.nonneg, hT.billed.days, ?_, ?_⟩⟩
  · rw [LimitHistory.current_add]
    exact hT.periods
  · rw [hmax]
    exact hT.closed_charged
  · rw [hmax, LimitHistory.current_add]
    exact hT.ahead
  · rw [hmax]
    exact hT.billed.perDay
  · rw [hmax]
    exact hT.billed.prorated

end Tracked

/-- **The exact condition of one change**, in terms of the sub-periods: the last one is closed where the next
one opens, and not before its own first day. -/
theorem billable_iff {start ls : Instant} (ho : Opened month start h now ls f) (hstart : start ≤ now) (ht : now ≤ t)
    (hne : q ≠ h.current) : Billable start h t q ↔
      fullDays ls (changeBoundary t h.current q).1 = boundaryDay t h.current q - f ∧
        f ≤ boundaryDay t h.current q := by
  unfold Billable
  rw [or_iff_right hne]
  unfold Opened at ho
  cases hlast : h.lastEffective with
  | none =>
    rw [hlast] at ho
    obtain ⟨rfl, rfl⟩ := ho
    exact startFits_iff (hstart.trans ht) hne
  | some last =>
    obtain ⟨t', isDecrease⟩ := last
    rw [hlast] at ho
    obtain ⟨hopens, rfl, ht'⟩ := ho
    show ¬ (isDecrease = true ∧ h.current < q ∧ day t' = day t) ↔ _
    have hday : day t' ≤ day t := day_mono (ht'.trans ht)
    rw [and_iff_right (fullDays_opensOn_close hopens)]
    unfold boundaryDay
    cases isDecrease with
    | false =>
      simp only [Bool.false_eq_true, false_and, not_false_eq_true, if_false, true_iff]
      split <;> omega
    | true =>
      simp only [true_and, if_true]
      rcases lt_or_gt_of_ne hne with hlt | hgt
      · rw [if_pos hlt]
        exact iff_of_true (fun hc => absurd hc.1 hlt.not_gt) (by omega)
      · rw [if_neg hgt.not_gt]
        exact ⟨fun hc => by
          have hd : day t' ≠ day t := fun hd => hc ⟨hgt, hd⟩
          omega, fun hd hc => by omega⟩

theorem opened_add {start ls : Instant} (ho : Opened month start h now ls f) (ht : now ≤ t) :
    Opened month start (h.add t q) t (if q = h.current then ls else (changeBoundary t h.current q).2)
      (if q = h.current then f else boundaryDay t h.current q) := by
  unfold Opened at *
  by_cases hq : q = h.current
  · rw [if_pos hq, if_pos hq]
    rw [LimitHistory.lastEffective_add, if_pos hq]
    cases hlast : h.lastEffective with
    | none =>
      rw [hlast] at ho
      exact ho
    | some last =>
      rw [hlast] at ho
      exact ⟨ho.1, ho.2.1, ho.2.2.trans ht⟩
  · rw [if_neg hq, if_neg hq]
    rw [LimitHistory.lastEffective_add, if_neg hq]
    refine ⟨opensOn_changeBoundary t h.current q, ?_, le_refl t⟩
    unfold boundaryDay
    by_cases hlt : q < h.current <;> simp [hlt]

end Step

/-! ## Runs of limit changes -/

/-- The invoice, the limits so far and the time of the last change. -/
structure LimitState where
  invoice : Invoice
  history : LimitHistory
  now : Instant

namespace LimitBilling

variable (b : LimitBilling) (start : Instant)

/-- A limit change; where `_update_invoice_item` raises, nothing is stored. -/
def change (s : LimitState) (c : Instant × ℚ) : LimitState where
  invoice :=
    match updateInvoiceItem b.resource b.componentType b.month c.1 c.2 s.invoice with
    | .ok inv => inv
    | .error _ => s.invoice
  history := s.history.add c.1 (b.convert c.2)
  now := c.1

/-- The state in which the item was created. -/
def created (inv : Invoice) (limit : ℚ) : LimitState where
  invoice := inv
  history := { initial := b.convert limit }
  now := start

/-- The change stores one limit item, and it is billed day by day. -/
def BilledAfter (s : LimitState) (c : Instant × ℚ) : Prop :=
  ∃ inv' item', updateInvoiceItem b.resource b.componentType b.month c.1 c.2 s.invoice = .ok inv' ∧
    inv'.items.filter b.isItem = [item'] ∧
      BilledByDay b.plan.unit b.month (s.history.add c.1 (b.convert c.2)) item'

/-- A change within the month, and not before the last one. -/
def InMonth (s : LimitState) (c : Instant × ℚ) : Prop := s.now ≤ c.1 ∧ b.month.Contains c.1

/-- The invoice holds one limit item, whose sub-periods meet. -/
def Kept (s : LimitState) : Prop :=
  start ≤ s.now ∧ s.history.UpTo s.now ∧
    ∃ item closed ls f, s.invoice.items.filter b.isItem = [item] ∧ item.start = start ∧
      Tracked b.plan.unit b.month s.history item closed ls f ∧ Opened b.month start s.history s.now ls f

variable {b start}

/-- **One change**: the invariant is kept exactly where the change is billable, and it bills the item day by
day. -/
theorem kept_change {s : LimitState} {c : Instant × ℚ} (hs : b.Kept start s) (hc : b.InMonth s c) :
    (b.BilledAfter s c ↔ Billable start s.history c.1 (b.convert c.2)) ∧
      (b.BilledAfter s c → b.Kept start (b.change s c)) := by
  obtain ⟨t, limit⟩ := c
  obtain ⟨hstart, hu, item, closed, ls, f, hitems, hitem, hT, ho⟩ := hs
  have ht : s.now ≤ t := hc.1
  have htend : day t < b.month.endDay := hc.2.2
  have hlast : item.details.resourceLimitPeriods.getLast? =
      some (serializeResourceLimitPeriod ls b.month.stop s.history.current) := by
    rw [hT.periods, List.getLast?_concat]
  obtain ⟨inv', hok, hitems'⟩ := updateInvoiceItem_spec t limit hitems hlast
  have hinv : (b.change s (t, limit)).invoice = inv' := by
    show (match updateInvoiceItem b.resource b.componentType b.month t limit s.invoice with | .ok _ => _ | .error _ => _) = _
    rw [hok]
  have hafter : b.BilledAfter s (t, limit) ↔ BilledByDay b.plan.unit b.month (s.history.add t (b.convert limit))
      (b.revised t (serializeResourceLimitPeriod ls b.month.stop s.history.current) (b.convert limit) item) := by
    constructor
    · rintro ⟨inv₁, item₁, hok₁, hitems₁, hb⟩
      obtain rfl := Except.ok.inj (hok.symm.trans hok₁)
      rw [← List.head_eq_of_cons_eq (hitems'.symm.trans hitems₁)] at hb
      exact hb
    · exact fun hb => ⟨inv', _, hok, hitems', hb⟩
  have ho' := opened_add (q := b.convert limit) ho ht
  rw [hafter]
  by_cases hq : b.convert limit = s.history.current
  · rw [revised_of_eq hq.symm] at hitems' ⊢
    have hkeep := hT.keep hu ht
    rw [← hq] at hkeep
    refine ⟨iff_of_true hkeep.billed (Or.inl hq), fun _ => ⟨hstart.trans ht, hu.add ht, ?_⟩⟩
    rw [if_pos hq, if_pos hq] at ho'
    exact ⟨item, closed, ls, f, hinv ▸ hitems', hitem, hkeep, ho'⟩
  · rw [revised_of_ne fun h => hq h.symm] at hitems' ⊢
    rw [billable_iff ho hstart ht hq]
    have hend : boundaryDay t s.history.current (b.convert limit) ≤ b.month.endDay := by
      unfold boundaryDay
      split <;> omega
    refine ⟨⟨hT.closes_of_billed, fun hm => (hT.revise hu ht hend hm.1 hm.2).billed⟩, fun hb => ?_⟩
    obtain ⟨hclose, hf⟩ := hT.closes_of_billed hb
    refine ⟨hstart.trans ht, hu.add ht, ?_⟩
    rw [if_neg hq, if_neg hq] at ho'
    exact ⟨revisedItem b.plan.unit b.month s.history t (b.convert limit) ls item, _, _, _, hinv ▸ hitems', hitem,
      hT.revise hu ht hend hclose hf, ho'⟩

/-- The item as it is created. -/
theorem kept_created {inv : Invoice} {uuid : ℕ} {limit : ℚ} (hstart : b.month.Contains start)
    (hitems : inv.items.filter b.isItem = [b.newItem uuid start limit]) : b.Kept start (b.created start inv limit) := by
  have hmax : ∀ d, (LimitHistory.mk (b.convert limit) [] none).maxInForce d = b.convert limit := fun d => rfl
  have hspan : 0 ≤ fullDays start b.month.stop := by
    have h := fullDays_toMonthEnd start b.month.endDay
    have hlt := hstart.2
    show 0 ≤ fullDays start (b.month.endDay * dayLength - 1)
    rw [h]
    split <;> omega
  have hle : firstCharged b.month start ≤ b.month.endDay := by
    rw [firstCharged]
    omega
  have hsum : ∑ d ∈ chargedDays b.month start, (LimitHistory.mk (b.convert limit) [] none).maxInForce d =
      b.convert limit * (fullDays start b.month.stop : ℚ) := by
    rw [chargedDays, sum_days_const hle fun d _ _ => hmax d, firstCharged, sub_sub_cancel]
  refine ⟨le_refl start, LimitHistory.upTo_nil _ _, b.newItem uuid start limit, [], start, firstCharged b.month start,
    hitems, rfl, ⟨rfl, rfl, nofun, ?_, ?_, ?_, le_refl _, hle, fun d _ => hmax d, ⟨?_, ?_, ?_, ?_⟩⟩, rfl, rfl⟩
  · exact (sub_self _).symm
  · show (0 : ℚ) = ∑ d ∈ Finset.Ico (firstCharged b.month start) (firstCharged b.month start), _
    rw [Finset.Ico_self]
    rfl
  · rw [firstCharged, sub_sub_cancel]
  · intro p hp
    obtain rfl := List.mem_singleton.mp hp
    exact hspan
  · exact List.sum_singleton
  · intro hunit
    show getTotalQuantity b.plan.unit (b.convert limit) start b.month.stop = _
    rw [getTotalQuantity, if_pos hunit]
    exact hsum.symm
  · intro hunit hdays
    show getTotalQuantity b.plan.unit (b.convert limit) start b.month.stop = _
    rw [getTotalQuantity, if_neg hunit]
    exact (eq_div_iff (Int.cast_ne_zero.mpr hdays)).mpr hsum.symm

theorem along_inMonth : ∀ {changes : List (Instant × ℚ)} {s : LimitState},
    (s.now :: changes.map Prod.fst).Pairwise (· ≤ ·) → (∀ c ∈ changes, b.month.Contains c.1) →
      Along b.change b.InMonth s changes
  | [], _, _, _ => trivial
  | c :: changes, s, hsorted, hmonth => by
    obtain ⟨hnow, hsorted⟩ := List.pairwise_cons.mp hsorted
    refine ⟨⟨hnow c.1 List.mem_cons_self, hmonth c List.mem_cons_self⟩, ?_⟩
    exact along_inMonth (s := b.change s c) hsorted fun c' hc' => hmonth c' (List.mem_cons_of_mem c hc')

theorem along_billedAfter_iff {s : LimitState} {changes : List (Instant × ℚ)} (hs : b.Kept start s)
    (hc : Along b.change b.InMonth s changes) : Along b.change b.BilledAfter s changes ↔
      Along b.change (fun s c => Billable start s.history c.1 (b.convert c.2)) s changes :=
  along_congr_under (fun _ _ hs hc => (kept_change hs hc).1) (fun _ _ hs hc => (kept_change hs hc).2) changes s hs hc

/-- **Limit items are billed day by day**, after every change of a month, exactly where every change is
billable. -/
theorem billedAfter_iff_billable {inv : Invoice} {uuid : ℕ} {limit : ℚ} {changes : List (Instant × ℚ)}
    (hstart : b.month.Contains start) (hitems : inv.items.filter b.isItem = [b.newItem uuid start limit])
    (hsorted : (start :: changes.map Prod.fst).Pairwise (· ≤ ·)) (hmonth : ∀ c ∈ changes, b.month.Contains c.1) :
    Along b.change b.BilledAfter (b.created start inv limit) changes ↔
      Along b.change (fun s c => Billable start s.history c.1 (b.convert c.2)) (b.created start inv limit) changes :=
  along_billedAfter_iff (kept_created hstart hitems) (along_inMonth (s := b.created start inv limit) hsorted hmonth)

end LimitBilling

/-! ## Changes of April 2024 -/

/-- A plan with cores at 2 a day. -/
def coresComponent : PlanComponent where
  id := 7
  componentType := "cores"
  price := 2
  price_nonneg := by norm_num

def coresPlan : Plan := { uuid := 5, unit := .perDay, components := [coresComponent] }

def aprilCores : LimitBilling where
  resource := ⟨⟨1, 1, ⟨10, 1⟩⟩, "Marketplace.Basic", .ok, some coresPlan⟩
  plan := coresPlan
  planComponent := coresComponent
  componentType := "cores"
  month := ⟨2024, 4, april_valid⟩
  plan_eq := rfl
  component_eq := by rfl

/-- A time of day in April 2024, from day 1. -/
def april (d hour : ℤ) : Instant := (19813 + d) * dayLength + hour * 3600000000

/-- The invoice of April, with the item of a limit of 10 from the first of the month. -/
def aprilInvoice : Invoice where
  id := 1
  customer := 1
  year := 2024
  month := 4
  taxPercent := 0
  items := [aprilCores.newItem 1 (april 1 0) 10]
  month_valid := april_valid
  tax_nonneg := Invoice.untaxed
  attributed := by
    intro it hit r hr
    obtain rfl := List.mem_singleton.mp hit
    obtain rfl := Option.some.inj hr
    exact ⟨rfl, rfl⟩

theorem aprilInvoice_item : aprilInvoice.items.filter aprilCores.isItem = [aprilCores.newItem 1 (april 1 0) 10] := by
  decide +kernel

/-- Lowered and raised on one day, the limit is billed for that day at 10 and again at 8, less a day at 5: the
sub-period of 5 has -1 days. -/
theorem lowered_and_raised_misbilled : ¬ Along aprilCores.change aprilCores.BilledAfter
    (aprilCores.created (april 1 0) aprilInvoice 10) [(april 10 12, 5), (april 10 15, 8)] := by
  rw [LimitBilling.along_billedAfter_iff (LimitBilling.kept_created (by decide +kernel) aprilInvoice_item)
    (LimitBilling.along_inMonth (by decide +kernel) (by decide +kernel))]
  decide +kernel

/-- Raised and lowered on one day, and raised again on another. -/
theorem raised_and_lowered_billed : Along aprilCores.change aprilCores.BilledAfter
    (aprilCores.created (april 1 0) aprilInvoice 10) [(april 10 12, 12), (april 10 15, 5), (april 20 9, 8)] :=
  (LimitBilling.billedAfter_iff_billable (by decide +kernel) aprilInvoice_item (by decide +kernel)
    (by decide +kernel)).mpr (by decide +kernel)

end Waldur.Marketplace
