import Mathlib
import Waldur.Invoices.Termination
import Waldur.Marketplace.LimitPeriods

/-!
# Marketplace.LimitQuantity — two recomputations of a limit item's quantity

A limit change divides by the days of the item's own span, `quantity_from_limit_periods` by the days of its
sub-periods.  `_reopen_closed_item` leaves a gap between the two, or an overlap, so a later change of the
limit and the next recomputation may disagree: `ChangeAgrees` is the exact condition.
-/

namespace Waldur.Marketplace

open Clock Invoices Runs

attribute [local instance] instantPreorder

/-! ## The code -/

/-- Selected by the lookup of `_reopen_closed_item`. -/
def isClosedItem (resource : ℕ) (componentType : String) (plan : ℕ) (start : Instant) (it : InvoiceItem) : Bool :=
  isLimitItem resource componentType plan it && !it.details.resourceLimitPeriods.isEmpty && decide (it.stop < start)

/-- A closed item continued from `start`. -/
def reopenItem (start stop : Instant) (quantity : ℚ) (it : InvoiceItem) : InvoiceItem :=
  let it :=
    { it with
      stop := stop
      details :=
        { it.details with
          resourceLimitPeriods :=
            it.details.resourceLimitPeriods ++ [serializeResourceLimitPeriod start stop quantity] } }
  { it with quantity := it.quantityFromLimitPeriods }

theorem reopenItem_wellAttributed {start stop : Instant} {quantity : ℚ} {it : InvoiceItem} {customer : ℕ}
    (h : it.WellAttributed customer) : (reopenItem start stop quantity it).WellAttributed customer := h

theorem mem_of_argmax {inv : Invoice} {p : InvoiceItem → Bool} {it : InvoiceItem}
    (h : (inv.items.filter p).argmax InvoiceItem.stop = some it) : it ∈ inv.items ∧ p it = true :=
  List.mem_filter.mp (List.argmax_mem (Option.mem_def.mpr h))

/-- `_reopen_closed_item`, with the latest item that it finds; `none` is `False`. -/
def reopenClosedItem (resource : ℕ) (componentType : String) (plan : ℕ) (start stop : Instant) (quantity : ℚ)
    (inv : Invoice) : Option Invoice :=
  match h : (inv.items.filter (isClosedItem resource componentType plan start)).argmax InvoiceItem.stop with
  | none => none
  | some item =>
    some (replaceItem inv (fun it => it.uuid == item.uuid) (reopenItem start stop quantity item)
      (reopenItem_wellAttributed (inv.attributed item (mem_of_argmax h).1)))

/-! ## Days -/

/-- The days of the sub-periods. -/
def periodDays (periods : List LimitPeriod) : ℤ := (periods.map (fun p => fullDays p.start p.stop)).sum

/-- Limit-days over two counts of days round up to the same cent. -/
def SameCent (limitDays : ℚ) (days days' : ℤ) : Prop :=
  quantizePrice (if days > 0 then limitDays / days else 0) =
    quantizePrice (if days' > 0 then limitDays / days' else 0)

namespace LimitBilling

variable (b : LimitBilling)

/-- The item that a limit change finds, and its last sub-period. -/
def target (inv : Invoice) : Option (InvoiceItem × LimitPeriod) :=
  match inv.items.filter b.isItem with
  | [item] => item.details.resourceLimitPeriods.getLast?.map (fun oldPeriod => (item, oldPeriod))
  | _ => none

/-- The sub-periods after a limit change. -/
def changedPeriods (today : Instant) (item : InvoiceItem) (oldPeriod : LimitPeriod) (newQuantity : ℚ) :
    List LimitPeriod :=
  let boundary := changeBoundary today oldPeriod.quantity newQuantity
  item.details.resourceLimitPeriods.dropLast ++
    [serializeResourceLimitPeriod oldPeriod.start boundary.1 oldPeriod.quantity,
      serializeResourceLimitPeriod boundary.2 b.month.stop newQuantity]

/-- The condition of a limit change on the item that it finds. -/
def TargetAgrees (today : Instant) (newQuantity : ℚ) : Option (InvoiceItem × LimitPeriod) → Prop
  | none => True
  | some (item, oldPeriod) =>
    let periods := b.changedPeriods today item oldPeriod newQuantity
    oldPeriod.quantity = newQuantity ∨ b.plan.unit = .perDay ∨
      periodDays periods = fullDays item.start item.stop ∨
        SameCent (chargedFor periods) (fullDays item.start item.stop) (periodDays periods)

/-- **Where a limit change agrees** with the recomputation: it changes nothing, or the item is billed by the
day, or its sub-periods then have as many days as its span, or the difference is lost in rounding. -/
def ChangeAgrees (inv : Invoice) (today : Instant) (newQuantity : ℚ) : Prop :=
  b.TargetAgrees today newQuantity (b.target inv)

instance (limitDays : ℚ) (days days' : ℤ) : Decidable (SameCent limitDays days days') :=
  inferInstanceAs (Decidable (_ = _))

instance (today : Instant) (newQuantity : ℚ) : ∀ x, Decidable (b.TargetAgrees today newQuantity x)
  | none => isTrue trivial
  | some (_, _) => inferInstanceAs (Decidable (_ ∨ _ ∨ _ ∨ _))

instance (inv : Invoice) (today : Instant) (newQuantity : ℚ) : Decidable (b.ChangeAgrees inv today newQuantity) :=
  inferInstanceAs (Decidable (b.TargetAgrees today newQuantity (b.target inv)))

/-! ## Runs -/

/-- What happens to the limit items of a component within a month. -/
inductive PeriodOp
  | change (today : Instant) (limit : ℚ)
  | terminate (now : Instant)
  | reopen (start : Instant) (limit : ℚ)

variable (planComponents : ℕ → Option PlanComponentLink)

/-- One operation; where the lookup of a limit change raises, nothing is stored, and where no item can be
reopened, the caller creates a new one. -/
def operate (inv : Invoice) : PeriodOp → Invoice
  | .change today limit =>
    match updateInvoiceItem b.resource b.componentType b.month today limit inv with
    | .ok inv' => inv'
    | .error _ => inv
  | .terminate now => inv.terminateItems planComponents b.resource.ref.id b.month.stop now
  | .reopen start limit =>
    (reopenClosedItem b.resource.ref.id b.componentType b.plan.uuid start b.month.stop (b.convert limit) inv).getD inv

/-- A limit item of a recurring component, with the totals of its sub-periods right. -/
structure LimitItem (unit : Units) (it : InvoiceItem) : Prop where
  unit_eq : it.unit = unit
  periods_ne : it.details.resourceLimitPeriods ≠ []
  notTotal : it.details.limitPeriod ≠ some .total
  totals : ∀ p ∈ it.details.resourceLimitPeriods, p.total = p.quantity * fullDays p.start p.stop

/-- The stored quantity is the recomputed one, up to `quantize_price`. -/
def Agrees (it : InvoiceItem) : Prop := quantizePrice it.quantity = quantizePrice it.quantityFromLimitPeriods

/-- **All limit items of the component agree.** -/
def AllAgree (inv : Invoice) : Prop := ∀ it ∈ inv.items.filter b.isItem, Agrees it

instance (it : InvoiceItem) : Decidable (Agrees it) := inferInstanceAs (Decidable (_ = _))

instance (inv : Invoice) : Decidable (b.AllAgree inv) :=
  inferInstanceAs (Decidable (∀ it ∈ inv.items.filter b.isItem, Agrees it))

def AllLimitItems (inv : Invoice) : Prop := ∀ it ∈ inv.items.filter b.isItem, LimitItem b.plan.unit it

/-- The condition on an operation; terminations and re-openings need none. -/
def OpAgrees (inv : Invoice) : PeriodOp → Prop
  | .change today limit => b.ChangeAgrees inv today (b.convert limit)
  | .terminate _ | .reopen _ _ => True

instance (inv : Invoice) : ∀ op, Decidable (b.OpAgrees inv op)
  | .change today limit => inferInstanceAs (Decidable (b.ChangeAgrees inv today (b.convert limit)))
  | .terminate _ => isTrue trivial
  | .reopen _ _ => isTrue trivial

section Change

variable {b} {planComponents} {inv : Invoice} {item : InvoiceItem} {oldPeriod : LimitPeriod} {today : Instant}
  {q : ℚ}

/-- A revised item has the limit-days over its span. -/
theorem revised_quantity :
    quantizePrice (reviseItem b.plan.unit b.month.stop today oldPeriod q item).quantity =
      if b.plan.unit = .perDay then quantizePrice (chargedFor (b.changedPeriods today item oldPeriod q))
      else quantizePrice (if fullDays item.start item.stop > 0 then
        chargedFor (b.changedPeriods today item oldPeriod q) / fullDays item.start item.stop else 0) := by
  rw [← weightedLimit_eq]
  show quantizePrice (if b.plan.unit = .perDay then _ else _) = _
  split
  · next h =>
    rw [h]
    rfl
  · rfl

/-- Recomputed, it has the limit-days over the days of its sub-periods. -/
theorem revised_quantityFromLimitPeriods (hitem : LimitItem b.plan.unit item) :
    quantizePrice (reviseItem b.plan.unit b.month.stop today oldPeriod q item).quantityFromLimitPeriods =
      if b.plan.unit = .perDay then quantizePrice (chargedFor (b.changedPeriods today item oldPeriod q))
      else quantizePrice (if periodDays (b.changedPeriods today item oldPeriod q) > 0 then
        chargedFor (b.changedPeriods today item oldPeriod q) / periodDays (b.changedPeriods today item oldPeriod q)
        else 0) := by
  show quantizePrice (if item.unit = .perDay then ((b.changedPeriods today item oldPeriod q).map (·.total)).sum
    else if periodDays (b.changedPeriods today item oldPeriod q) ≤ 0 then 0
    else quantizePrice (chargedFor (b.changedPeriods today item oldPeriod q) /
      periodDays (b.changedPeriods today item oldPeriod q))) = _
  rw [hitem.unit_eq]
  split
  · have htotals : ∀ p ∈ b.changedPeriods today item oldPeriod q, p.total = p.quantity * fullDays p.start p.stop := by
      intro p hp
      rcases List.mem_append.mp hp with hp | hp
      · exact hitem.totals p (List.mem_of_mem_dropLast hp)
      · rcases List.mem_pair.mp hp with rfl | rfl <;> rfl
    rw [List.map_congr_left htotals]
    rfl
  · split
    · next h => rw [if_neg (not_lt.mpr h)]
    · next h =>
      rw [if_pos (not_le.mp h)]
      exact Decimal.quantizeUp_quantizeUp 2 _

theorem agrees_revise_iff (hitem : LimitItem b.plan.unit item) :
    Agrees (reviseItem b.plan.unit b.month.stop today oldPeriod q item) ↔
      b.plan.unit = .perDay ∨
        periodDays (b.changedPeriods today item oldPeriod q) = fullDays item.start item.stop ∨
          SameCent (chargedFor (b.changedPeriods today item oldPeriod q)) (fullDays item.start item.stop)
            (periodDays (b.changedPeriods today item oldPeriod q)) := by
  unfold Agrees
  rw [revised_quantity, revised_quantityFromLimitPeriods hitem]
  by_cases hunit : b.plan.unit = .perDay
  · rw [if_pos hunit, if_pos hunit]
    exact iff_of_true rfl (Or.inl hunit)
  · rw [if_neg hunit, if_neg hunit, or_iff_right hunit]
    constructor
    · exact Or.inr
    · rintro (hdays | hcent)
      · rw [hdays]
      · exact hcent

theorem limitItem_revise (hitem : LimitItem b.plan.unit item) :
    LimitItem b.plan.unit (reviseItem b.plan.unit b.month.stop today oldPeriod q item) := by
  refine ⟨hitem.unit_eq, ?_, hitem.notTotal, ?_⟩
  · show item.details.resourceLimitPeriods.dropLast ++ _ ≠ []
    simp
  · intro p hp
    rcases List.mem_append.mp hp with hp | hp
    · exact hitem.totals p (List.mem_of_mem_dropLast hp)
    · rcases List.mem_pair.mp hp with rfl | rfl <;> rfl

/-- A lookup that does not find one item raises. -/
theorem updateInvoiceItem_of_no_target (h : AllLimitItems b inv) (hnone : b.target inv = none) {limit : ℚ} :
    ∃ e, updateInvoiceItem b.resource b.componentType b.month today limit inv = .error e := by
  unfold updateInvoiceItem
  rw [b.plan_eq]
  dsimp only
  split
  · exact ⟨_, rfl⟩
  · exact ⟨_, rfl⟩
  · next item hitems =>
    exfalso
    have hitems' : inv.items.filter b.isItem = [item] := hitems
    have hne := (h item (by rw [hitems']; exact List.mem_cons_self)).periods_ne
    unfold target at hnone
    rw [hitems', Option.map_eq_none_iff] at hnone
    exact hne (List.getLast?_eq_none_iff.mp hnone)

/-- **A limit change** keeps limit items, and leaves them in agreement exactly under its condition. -/
theorem change_agrees_iff {limit : ℚ} (hitems : AllLimitItems b inv) (hagree : AllAgree b inv) :
    (AllAgree b (b.operate planComponents inv (.change today limit)) ↔
        b.ChangeAgrees inv today (b.convert limit)) ∧
      AllLimitItems b (b.operate planComponents inv (.change today limit)) := by
  unfold ChangeAgrees
  cases htarget : b.target inv with
  | none =>
    obtain ⟨e, he⟩ : ∃ e, updateInvoiceItem b.resource b.componentType b.month today limit inv = .error e :=
      updateInvoiceItem_of_no_target hitems htarget
    have hop : b.operate planComponents inv (.change today limit) = inv := by
      show (match updateInvoiceItem b.resource b.componentType b.month today limit inv with
        | .ok inv' => inv' | .error _ => inv) = inv
      rw [he]
    rw [hop]
    exact ⟨iff_of_true hagree trivial, hitems⟩
  | some x =>
    obtain ⟨item, oldPeriod⟩ := x
    obtain ⟨hfilter, hlast⟩ : inv.items.filter b.isItem = [item] ∧
        item.details.resourceLimitPeriods.getLast? = some oldPeriod := by
      unfold target at htarget
      split at htarget
      · next item' h =>
        obtain ⟨p, hp, heq⟩ := Option.map_eq_some_iff.mp htarget
        cases heq
        exact ⟨h, hp⟩
      · cases htarget
    obtain ⟨inv', hok, hfilter'⟩ := updateInvoiceItem_spec today limit hfilter hlast
    have hop : b.operate planComponents inv (.change today limit) = inv' := by
      show (match updateInvoiceItem b.resource b.componentType b.month today limit inv with
        | .ok inv' => inv' | .error _ => inv) = inv'
      rw [hok]
    have hitem := hitems item (by rw [hfilter]; exact List.mem_cons_self)
    rw [hop]
    unfold AllAgree AllLimitItems at *
    rw [hfilter] at hagree
    rw [hfilter']
    simp only [List.forall_mem_singleton] at hagree ⊢
    show (_ ↔ oldPeriod.quantity = b.convert limit ∨ _) ∧ _
    by_cases hq : oldPeriod.quantity = b.convert limit
    · rw [revised_of_eq hq]
      exact ⟨iff_of_true hagree (Or.inl hq), hitem⟩
    · rw [revised_of_ne hq, agrees_revise_iff hitem, or_iff_right hq]
      exact ⟨Iff.rfl, limitItem_revise hitem⟩

end Change

section Close

variable {b} {planComponents} {inv : Invoice} {it : InvoiceItem} {now : Instant}

theorem isItem_terminate : b.isItem (it.terminate planComponents now) = b.isItem it := by
  rw [InvoiceItem.terminate_eq]
  rfl

/-- A terminated limit item agrees: its quantity is the recomputed one. -/
theorem agrees_terminate (hitem : LimitItem b.plan.unit it) : Agrees (it.terminate planComponents now) := by
  rw [InvoiceItem.terminate_of_periods hitem.periods_ne hitem.notTotal]
  rfl

theorem limitItem_terminate (hitem : LimitItem b.plan.unit it) :
    LimitItem b.plan.unit (it.terminate planComponents now) := by
  rw [InvoiceItem.terminate_of_periods hitem.periods_ne hitem.notTotal]
  refine ⟨hitem.unit_eq, ?_, hitem.notTotal, ?_⟩
  · show it.details.resourceLimitPeriods.dropLast ++
      (it.details.resourceLimitPeriods.getLast?.map (InvoiceItem.closePeriod now)).toList ≠ []
    rw [List.getLast?_eq_some_getLast hitem.periods_ne]
    simp
  · intro p hp
    rcases List.mem_append.mp hp with hp | hp
    · exact hitem.totals p (List.mem_of_mem_dropLast hp)
    · obtain ⟨p', -, rfl⟩ := Option.map_eq_some_iff.mp (Option.mem_toList.mp hp)
      rfl

/-- The limit items of the invoice after a map that keeps them. -/
theorem filter_isItem_map {f : InvoiceItem → InvoiceItem} (hf : ∀ it, b.isItem (f it) = b.isItem it)
    (items : List InvoiceItem) : (items.map f).filter b.isItem = (items.filter b.isItem).map f := by
  have hcomp : b.isItem ∘ f = b.isItem := funext hf
  rw [List.filter_map, hcomp]

theorem terminateItems_agrees (hitems : AllLimitItems b inv) (hagree : AllAgree b inv) :
    AllAgree b (b.operate planComponents inv (.terminate now)) ∧
      AllLimitItems b (b.operate planComponents inv (.terminate now)) := by
  have hfilter : (b.operate planComponents inv (.terminate now)).items.filter b.isItem =
      (inv.items.filter b.isItem).map (fun it =>
        if it.resource.any (fun r => r.id == b.resource.ref.id) && it.stop == b.month.stop then
          it.terminate planComponents now else it) := by
    refine filter_isItem_map (fun it => ?_) inv.items
    split
    · exact isItem_terminate
    · rfl
  constructor
  · intro it hit
    rw [hfilter] at hit
    obtain ⟨it₀, hit₀, rfl⟩ := List.mem_map.mp hit
    split
    · exact agrees_terminate (hitems it₀ hit₀)
    · exact hagree it₀ hit₀
  · intro it hit
    rw [hfilter] at hit
    obtain ⟨it₀, hit₀, rfl⟩ := List.mem_map.mp hit
    split
    · exact limitItem_terminate (hitems it₀ hit₀)
    · exact hitems it₀ hit₀

end Close

section Reopen

variable {b} {planComponents} {inv : Invoice} {it : InvoiceItem} {start stop : Instant} {q : ℚ}

/-- A reopened item agrees: its quantity is the recomputed one. -/
theorem agrees_reopen : Agrees (reopenItem start stop q it) := rfl

theorem limitItem_reopen (hitem : LimitItem b.plan.unit it) : LimitItem b.plan.unit (reopenItem start stop q it) := by
  refine ⟨hitem.unit_eq, List.concat_ne_nil _ _, hitem.notTotal, ?_⟩
  intro p hp
  rcases List.mem_append.mp hp with hp | hp
  · exact hitem.totals p hp
  · obtain rfl := List.mem_singleton.mp hp
    rfl

theorem isItem_of_isClosedItem
    (h : isClosedItem b.resource.ref.id b.componentType b.plan.uuid start it = true) : b.isItem it = true := by
  unfold isClosedItem at h
  rw [Bool.and_assoc] at h
  exact (Bool.and_eq_true_iff.mp h).1

/-- What re-opening makes of the items: the one it continues, and the others as they were. -/
theorem mem_reopenClosedItem {inv' : Invoice} {resource : ℕ} {componentType : String} {plan : ℕ}
    (h : reopenClosedItem resource componentType plan start stop q inv = some inv') (hit : it ∈ inv'.items) :
    it ∈ inv.items ∨ ∃ item ∈ inv.items, isClosedItem resource componentType plan start item = true ∧
      it = reopenItem start stop q item := by
  unfold reopenClosedItem at h
  split at h
  · cases h
  · next item hmax =>
    obtain rfl := Option.some.inj h
    obtain ⟨it₀, hit₀, rfl⟩ := List.mem_map.mp hit
    split
    · exact Or.inr ⟨item, (mem_of_argmax hmax).1, (mem_of_argmax hmax).2, rfl⟩
    · exact Or.inl hit₀

theorem reopen_agrees {limit : ℚ} (hitems : AllLimitItems b inv) (hagree : AllAgree b inv) :
    AllAgree b (b.operate planComponents inv (.reopen start limit)) ∧
      AllLimitItems b (b.operate planComponents inv (.reopen start limit)) := by
  cases hre : reopenClosedItem b.resource.ref.id b.componentType b.plan.uuid start b.month.stop (b.convert limit) inv with
  | none =>
    have hop : b.operate planComponents inv (.reopen start limit) = inv := by
      show Option.getD _ inv = inv
      rw [hre]
      rfl
    rw [hop]
    exact ⟨hagree, hitems⟩
  | some inv' =>
    have hop : b.operate planComponents inv (.reopen start limit) = inv' := by
      show Option.getD _ inv = inv'
      rw [hre]
      rfl
    rw [hop]
    have hcases : ∀ it ∈ inv'.items.filter b.isItem,
        it ∈ inv.items.filter b.isItem ∨ ∃ item ∈ inv.items.filter b.isItem,
          it = reopenItem start b.month.stop (b.convert limit) item := by
      intro it hit
      obtain ⟨hit, hp⟩ := List.mem_filter.mp hit
      rcases mem_reopenClosedItem hre hit with hit | ⟨item, hitem, hclosed, rfl⟩
      · exact Or.inl (List.mem_filter.mpr ⟨hit, hp⟩)
      · exact Or.inr ⟨item, List.mem_filter.mpr ⟨hitem, isItem_of_isClosedItem hclosed⟩, rfl⟩
    constructor
    · intro it hit
      rcases hcases it hit with hit | ⟨item, -, rfl⟩
      · exact hagree it hit
      · exact agrees_reopen
    · intro it hit
      rcases hcases it hit with hit | ⟨item, hitem, rfl⟩
      · exact hitems it hit
      · exact limitItem_reopen (hitems item hitem)

end Reopen

section Runs

variable {b} {planComponents}

/-- **One operation** keeps agreement exactly under its condition. -/
theorem operate_agrees_iff {inv : Invoice} {op : PeriodOp} (hitems : AllLimitItems b inv) (hagree : AllAgree b inv) :
    (AllAgree b (b.operate planComponents inv op) ↔ b.OpAgrees inv op) ∧
      AllLimitItems b (b.operate planComponents inv op) := by
  cases op with
  | change today limit => exact change_agrees_iff hitems hagree
  | terminate now =>
    obtain ⟨h, h'⟩ := @terminateItems_agrees b planComponents inv now hitems hagree
    exact ⟨iff_of_true h trivial, h'⟩
  | reopen start limit =>
    obtain ⟨h, h'⟩ := @reopen_agrees b planComponents inv start limit hitems hagree
    exact ⟨iff_of_true h trivial, h'⟩

theorem along_allAgree_iff {inv : Invoice} {ops : List PeriodOp} (hitems : AllLimitItems b inv)
    (hagree : AllAgree b inv) :
    Along (b.operate planComponents) (fun inv op => AllAgree b (b.operate planComponents inv op)) inv ops ↔
      Along (b.operate planComponents) b.OpAgrees inv ops :=
  @along_congr _ _ (b.operate planComponents) (fun inv => AllLimitItems b inv ∧ AllAgree b inv) _ _
    (fun _ _ h => (operate_agrees_iff h.1 h.2).1) (fun _ _ h h' => ⟨(operate_agrees_iff h.1 h.2).2, h'⟩)
    ops inv ⟨hitems, hagree⟩

/-- The item that billing creates is a limit item, and agrees if it spans a day. -/
theorem newItem_limitItem (uuid : ℕ) (start : Instant) (limit : ℚ) :
    LimitItem b.plan.unit (b.newItem uuid start limit) := by
  refine ⟨rfl, List.cons_ne_nil _ _, nofun, ?_⟩
  intro p hp
  obtain rfl := List.mem_singleton.mp hp
  rfl

theorem newItem_agrees {uuid : ℕ} {start : Instant} {limit : ℚ} (h : 0 < fullDays start b.month.stop) :
    Agrees (b.newItem uuid start limit) := by
  have hdays : ((fullDays start b.month.stop : ℤ) : ℚ) ≠ 0 := Int.cast_ne_zero.mpr h.ne'
  show quantizePrice (if b.plan.unit = .perDay then b.convert limit * (fullDays start b.month.stop : ℚ)
    else b.convert limit) = quantizePrice (if b.plan.unit = .perDay then
      [b.convert limit * (fullDays start b.month.stop : ℚ)].sum
    else if [fullDays start b.month.stop].sum ≤ 0 then 0
    else quantizePrice ([b.convert limit * (fullDays start b.month.stop : ℚ)].sum /
      ([fullDays start b.month.stop].sum : ℤ)))
  rw [List.sum_singleton, List.sum_singleton]
  split
  · rfl
  · rw [if_neg (not_le.mpr h), mul_div_cancel_right₀ _ hdays]
    exact (Decimal.quantizeUp_quantizeUp 2 _).symm

end Runs

end LimitBilling

/-! ## A month with a plan switch and back -/

/-- The cores of `aprilCores`, at 2 a month. -/
def monthlyCores : LimitBilling :=
  { aprilCores with
    resource := ⟨⟨1, 1, ⟨10, 1⟩⟩, "Marketplace.Basic", .ok, some { coresPlan with unit := .perMonth }⟩
    plan := { coresPlan with unit := .perMonth }
    plan_eq := rfl
    component_eq := by rfl }

/-- The invoice of April, with the item of a limit of 10 from the first of the month. -/
def monthlyInvoice : Invoice where
  id := 1
  customer := 1
  year := 2024
  month := 4
  taxPercent := 0
  items := [monthlyCores.newItem 1 (april 1 0) 10]
  month_valid := Calendar.april_valid
  tax_nonneg := Invoice.untaxed
  attributed := by
    intro it hit r hr
    obtain rfl := List.mem_singleton.mp hit
    obtain rfl := Option.some.inj hr
    exact ⟨rfl, rfl⟩

theorem monthlyInvoice_filter :
    monthlyInvoice.items.filter monthlyCores.isItem = [monthlyCores.newItem 1 (april 1 0) 10] := by
  decide +kernel

theorem monthlyInvoice_limitItems : monthlyCores.AllLimitItems monthlyInvoice := by
  intro it hit
  rw [monthlyInvoice_filter] at hit
  obtain rfl := List.mem_singleton.mp hit
  exact LimitBilling.newItem_limitItem 1 (april 1 0) 10

theorem monthlyInvoice_agrees : monthlyCores.AllAgree monthlyInvoice := by
  intro it hit
  rw [monthlyInvoice_filter] at hit
  obtain rfl := List.mem_singleton.mp hit
  exact LimitBilling.newItem_agrees (by decide +kernel)

end Waldur.Marketplace
