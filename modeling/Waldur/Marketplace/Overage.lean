import Mathlib
import Waldur.Marketplace.BillingUsage

/-!
# Marketplace.Overage — re-reported usage of a prepaid component

A report within the prepaid balance returns before the invoice is touched, so it leaves the overage item as
an earlier report made it.  After a series of reports of one row the item is therefore right exactly if the
last report exceeds the balance, or no earlier one was billed for anything (`overage_eq_iff`).
-/

namespace Waldur.Marketplace

open Invoices Runs

/-! ## Reading back what a report bills -/

/-- The first row that a search accepts after one row was replaced by an accepted one: that row. -/
theorem find?_map_replaced {α : Type} {p q : α → Bool} {x x' : α} {after : List α} (hx : q x = true)
    (hx' : p x' = true) : ∀ {before : List α}, (∀ y ∈ before, p y = false) →
      ((before ++ x :: after).map (fun y => if q y then x' else y)).find? p = some x'
  | [], _ => by
    rw [List.nil_append, List.map_cons, if_pos hx]
    exact List.find?_cons_of_pos hx'
  | y :: before, h => by
    rw [List.cons_append, List.map_cons]
    by_cases hy : q y = true
    · rw [if_pos hy]
      exact List.find?_cons_of_pos hx'
    · rw [if_neg hy, List.find?_cons_of_neg (by simp [h y List.mem_cons_self])]
      exact find?_map_replaced hx hx' fun z hz => h z (List.mem_cons_of_mem y hz)

namespace UsageContext

variable {ctx : UsageContext} {componentType : String} {items : List InvoiceItem}

theorem findItem_of_keyed {it : InvoiceItem} (h : items.find? (ctx.isKeyed componentType) = some it) :
    ctx.findItem componentType items = some it := by
  unfold findItem
  rw [h]

/-- An item that the lookup finds is of the component, and not cheaper than nothing. -/
theorem findItem_isCandidate {it : InvoiceItem} (h : ctx.findItem componentType items = some it) :
    isUsageCandidate ctx.resource.ref.id componentType it = true := by
  have hlegacy : ∀ it, ctx.isLegacy componentType it = true →
      isUsageCandidate ctx.resource.ref.id componentType it = true := by
    intro it hit
    unfold isLegacy at hit
    rw [Bool.and_assoc] at hit
    exact (Bool.and_eq_true_iff.mp hit).1
  unfold findItem at h
  split at h
  · next heq =>
    cases h
    have hkeyed : ctx.isKeyed componentType it = true := List.find?_some heq
    exact (Bool.and_eq_true_iff.mp hkeyed).1
  · split at h
    · next heq =>
      cases h
      have hfound := List.find?_some heq
      exact hlegacy it (Bool.and_eq_true_iff.mp hfound).1
    · split at h
      · exact hlegacy it (List.find?_some h)
      · cases h

/-- No keyed item comes before the one that the lookup finds, unless it is that one. -/
theorem findItem_first {it : InvoiceItem} (h : ctx.findItem componentType items = some it) :
    ∃ before after, items = before ++ it :: after ∧ ∀ x ∈ before, ctx.isKeyed componentType x = false := by
  by_cases hkeyed : items.find? (ctx.isKeyed componentType) = none
  · obtain ⟨before, after, rfl⟩ := List.append_of_mem (ctx.findItem_mem h)
    refine ⟨before, after, rfl, fun x hx => ?_⟩
    have hnone := List.find?_eq_none.mp hkeyed x (List.mem_append_left _ hx)
    exact Bool.eq_false_iff.mpr hnone
  · obtain ⟨it', hit'⟩ := Option.ne_none_iff_exists'.mp hkeyed
    obtain rfl := Option.some.inj ((findItem_of_keyed hit').symm.trans h)
    obtain ⟨-, before, after, heq, hbefore⟩ := List.find?_eq_some_iff_append.mp hit'
    exact ⟨before, after, heq, fun x hx => by simpa using hbefore x hx⟩

variable {component : OfferingComponent} {usage : ℚ} {isOverage : Bool} {nextUuid : ℕ} {inv : Invoice}

theorem createdItem_unitPrice : 0 ≤ (ctx.createdItem nextUuid component usage isOverage).unitPrice := by
  show 0 ≤ ((ctx.planPeriod.plan.component? component.type).map (·.price)).getD 0
  cases ctx.planPeriod.plan.component? component.type with
  | none => exact le_refl 0
  | some pc => exact pc.price_nonneg

/-- The invoice keeps its state and its organization. -/
theorem createOrUpdate_header : (ctx.createOrUpdate component usage isOverage nextUuid inv).state = inv.state ∧
    (ctx.createOrUpdate component usage isOverage nextUuid inv).customer = inv.customer := by
  unfold createOrUpdate Invoice.bulkCreate
  split
  · exact ⟨rfl, rfl⟩
  · split
    · exact ⟨rfl, rfl⟩
    · split <;> exact ⟨rfl, rfl⟩

/-- **What a report bills can be read back**: the lookup finds an item with the converted usage. -/
theorem findItem_createOrUpdate (hmutable : inv.state.isMutable = true)
    (hcustomer : ctx.resource.ref.project.customer = inv.customer)
    (hperiod : ctx.samePlanPeriods.contains ctx.planPeriod.uuid = true) :
    ∃ it, ctx.findItem component.type (ctx.createOrUpdate component usage isOverage nextUuid inv).items = some it ∧
      it.quantity = ctx.convertedUsage component usage := by
  unfold createOrUpdate
  rw [if_neg (by rw [hmutable]; decide)]
  split
  · next it hfind =>
    have hcandidate := findItem_isCandidate hfind
    obtain ⟨before, after, hitems, hbefore⟩ := findItem_first hfind
    have hupdated : ctx.isKeyed component.type (ctx.updatedItem component usage isOverage it) = true :=
      Bool.and_eq_true_iff.mpr ⟨hcandidate, hperiod⟩
    refine ⟨ctx.updatedItem component usage isOverage it, findItem_of_keyed ?_, rfl⟩
    show (inv.items.map _).find? (ctx.isKeyed component.type) = _
    rw [hitems]
    exact @find?_map_replaced _ _ (fun it' => it'.uuid == it.uuid) _ _ _ (beq_self_eq_true it.uuid) hupdated _ hbefore
  · next hnone =>
    have hcreated : ctx.isKeyed component.type (ctx.createdItem nextUuid component usage isOverage) = true := by
      refine Bool.and_eq_true_iff.mpr ⟨Bool.and_eq_true_iff.mpr ⟨?_, decide_eq_true createdItem_unitPrice⟩, hperiod⟩
      exact Bool.and_eq_true_iff.mpr ⟨beq_self_eq_true _, beq_self_eq_true _⟩
    have hitems : (inv.bulkCreate [ctx.createdItem nextUuid component usage isOverage]).items =
        inv.items ++ [ctx.createdItem nextUuid component usage isOverage] := by
      have hattributed : ∀ it ∈ [ctx.createdItem nextUuid component usage isOverage], it.WellAttributed inv.customer := by
        intro it hit r hr
        obtain rfl := List.mem_singleton.mp hit
        obtain rfl := Option.some.inj hr
        exact ⟨rfl, hcustomer⟩
      unfold Invoice.bulkCreate
      exact congrArg Invoice.items (dif_pos hattributed)
    refine ⟨ctx.createdItem nextUuid component usage isOverage, findItem_of_keyed ?_, rfl⟩
    have hold : inv.items.find? (ctx.isKeyed component.type) = none := by
      by_contra hne
      obtain ⟨it, hit⟩ := Option.ne_none_iff_exists'.mp hne
      rw [findItem_of_keyed hit] at hnone
      cases hnone
    rw [hitems, List.find?_append, hold, Option.none_or]
    exact List.find?_cons_of_pos hcreated

end UsageContext

/-! ## Series of reports -/

/-- A usage row of a prepaid component that is linked to an overage component. -/
structure PrepaidRow extends UsageRow where
  overage : OfferingComponent
  prepaid : (resolveComponent component (some planPeriod.plan.billingMode)).isPrepaid = true
  overage_eq : component.overageComponent.bind (fun id =>
    resource.offeringComponents.find? (fun component => component.id == id)) = some overage

/-- A usage report: the amount, the time, and the key that a new item would get. -/
structure UsageReport where
  usage : ℚ
  now : Instant
  nextUuid : ℕ

namespace PrepaidRow

variable (row : PrepaidRow)

def report (inv : Invoice) (r : UsageReport) : Invoice := row.runBilling r.usage r.now r.nextUuid inv

/-- **The quantity billed on the overage item**; a missing item counts as 0. -/
def overageBilled (inv : Invoice) : ℚ := ((row.findItem row.overage.type inv.items).map (·.quantity)).getD 0

/-- What a report exceeds the prepaid balance by; negative within it. -/
def excess (r : UsageReport) : ℤ := truncate r.usage - row.balance r.now

/-- What an excess is billed as. -/
def convertedExcess (r : UsageReport) : ℚ := row.convertedUsage row.overage (row.excess r)

/-- The open invoice of the month of the resource's organization. -/
structure OpenInvoice (inv : Invoice) : Prop where
  isMutable : inv.state.isMutable = true
  customer : row.resource.ref.project.customer = inv.customer

variable {row} {inv : Invoice} {r : UsageReport}

theorem report_eq : row.report inv r = if row.excess r ≤ 0 then inv
    else row.createOrUpdate row.overage (row.excess r) true r.nextUuid inv := by
  have hrun : row.report inv r = row.processPrepaidUsage r.usage r.now r.nextUuid inv := if_pos row.prepaid
  have hwithin : truncate r.usage ≤ (row.balance r.now : ℤ) ↔ row.excess r ≤ 0 := sub_nonpos.symm
  rw [hrun]
  unfold UsageRow.processPrepaidUsage
  dsimp only
  rw [row.overage_eq]
  by_cases h : row.excess r ≤ 0
  · rw [if_pos h, if_pos (hwithin.mpr h)]
  · rw [if_neg h, if_neg (mt hwithin.mp h)]
    rfl

theorem samePlanPeriods_contains : row.samePlanPeriods.contains row.planPeriod.uuid = true := by
  have hmem : row.planPeriod ∈ (periodsOfMonth row.planPeriods row.planPeriod row.month).filter (fun period =>
      period.plan.uuid == row.planPeriod.plan.uuid) := by
    refine List.mem_filter.mpr ⟨List.mem_filter.mpr ⟨row.period_mem, ?_⟩, beq_self_eq_true _⟩
    exact Bool.and_eq_true_iff.mpr ⟨beq_self_eq_true _, row.period_overlaps⟩
  unfold UsageContext.samePlanPeriods
  dsimp only
  rw [if_neg fun h => List.ne_nil_of_mem hmem (List.isEmpty_iff.mp h)]
  exact List.contains_iff_mem.mpr (List.mem_map_of_mem hmem)

/-- A report bills its excess, or leaves what was billed. -/
theorem overageBilled_report (ho : row.OpenInvoice inv) : row.overageBilled (row.report inv r) =
    if row.excess r ≤ 0 then row.overageBilled inv else row.convertedExcess r := by
  rw [report_eq]
  split
  · rfl
  · obtain ⟨it, hfind, hquantity⟩ := @UsageContext.findItem_createOrUpdate row.toUsageContext row.overage
      (row.excess r) true r.nextUuid inv ho.isMutable ho.customer samePlanPeriods_contains
    unfold overageBilled
    rw [hfind]
    exact hquantity

/-- A report leaves the invoice open. -/
theorem openInvoice_report (ho : row.OpenInvoice inv) : row.OpenInvoice (row.report inv r) := by
  rw [report_eq]
  split
  · exact ho
  · obtain ⟨hstate, hcustomer⟩ := @UsageContext.createOrUpdate_header row.toUsageContext row.overage
      (row.excess r) true r.nextUuid inv
    exact ⟨by rw [hstate]; exact ho.isMutable, by rw [hcustomer]; exact ho.customer⟩

/-- The last report that exceeded the balance. -/
def lastExcess (row : PrepaidRow) (rs : List UsageReport) : Option UsageReport :=
  (rs.filter (fun r => decide (0 < row.excess r))).getLast?

/-- **A series of reports** bills the last excess, and leaves what was billed if there is none. -/
theorem overageBilled_run : ∀ (rs : List UsageReport) {inv : Invoice}, row.OpenInvoice inv →
    row.overageBilled (run row.report inv rs) =
      ((row.lastExcess rs).map row.convertedExcess).getD (row.overageBilled inv)
  | [], _, _ => rfl
  | r :: rs, inv, ho => by
    rw [run_cons, overageBilled_run rs (openInvoice_report ho), overageBilled_report ho]
    unfold lastExcess
    by_cases h : row.excess r ≤ 0
    · rw [if_pos h, List.filter_cons_of_neg (by simpa using h)]
    · rw [if_neg h, List.filter_cons_of_pos (by simpa using h), List.getLast?_cons]
      cases (rs.filter (fun r => decide (0 < row.excess r))).getLast? with
      | none => rfl
      | some r' => rfl

theorem lastExcess_concat (rs : List UsageReport) (r : UsageReport) :
    row.lastExcess (rs ++ [r]) = if 0 < row.excess r then some r else row.lastExcess rs := by
  unfold lastExcess
  rw [List.filter_append]
  split
  · next h => rw [List.filter_cons_of_pos (by simpa using h), List.filter_nil, List.getLast?_concat]
  · next h => rw [List.filter_cons_of_neg (by simpa using h), List.filter_nil, List.append_nil]

/-- **Where the last report decides**: it exceeds the balance, and its excess is billed as it is; or it does
not, and neither did an earlier one that was billed for anything. -/
def LastReportDecides (row : PrepaidRow) (rs : List UsageReport) (r : UsageReport) : Prop :=
  if 0 < row.excess r then row.convertedExcess r = row.excess r
  else ∀ r' ∈ row.lastExcess rs, row.convertedExcess r' = 0

theorem overageBilled_concat_iff (ho : row.OpenInvoice inv)
    (hnone : row.findItem row.overage.type inv.items = none) (rs : List UsageReport) (r : UsageReport) :
    row.overageBilled (run row.report inv (rs ++ [r])) = ((max 0 (row.excess r) : ℤ) : ℚ) ↔
      row.LastReportDecides rs r := by
  have hmissing : row.overageBilled inv = 0 := by
    unfold overageBilled
    rw [hnone]
    rfl
  rw [overageBilled_run _ ho, lastExcess_concat, hmissing]
  unfold LastReportDecides
  by_cases h : 0 < row.excess r
  · rw [if_pos h, if_pos h, max_eq_right h.le]
    exact Iff.rfl
  · rw [if_neg h, if_neg h, max_eq_left (not_lt.mp h), Int.cast_zero]
    cases row.lastExcess rs with
    | none => exact iff_of_true rfl fun _ hr' => nomatch hr'
    | some r' =>
      constructor
      · intro hzero r'' hr''
        obtain rfl := Option.some.inj hr''
        exact hzero
      · exact fun hall => hall r' rfl

/-- **The overage item after a series of reports** of one row is billed for the excess of the last report
exactly where that report decides. -/
theorem overage_eq_iff (ho : row.OpenInvoice inv) (hnone : row.findItem row.overage.type inv.items = none)
    (rs : List UsageReport) (r : UsageReport) :
    row.overageBilled (run row.report inv (rs ++ [r])) =
        ((max 0 (truncate r.usage - row.balance r.now) : ℤ) : ℚ) ↔ row.LastReportDecides rs r :=
  overageBilled_concat_iff ho hnone rs r

end PrepaidRow

/-! ## Prepaid hours of April 2024 -/

def prepaidHours : OfferingComponent where
  id := 1
  type := "hours"
  billingType := .oneTime
  limitPeriod := some .total
  isPrepaid := true
  overageComponent := some 2

def extraHours : OfferingComponent where
  id := 2
  type := "extra"
  billingType := .usage

/-- A plan with extra hours at 3. -/
def hoursPlan : Plan where
  uuid := 5
  unit := .perMonth
  components := [⟨7, "extra", 3, 0, none, .perCustomer, by norm_num⟩]

/-- A resource with 100 prepaid hours, none of them used before. -/
def hoursRow : PrepaidRow where
  resource :=
    { ref := ⟨1, 1, ⟨10, 1⟩⟩
      offeringType := "Marketplace.Basic"
      state := .ok
      plan := some hoursPlan
      offeringComponents := [prepaidHours, extraHours]
      limits := [("hours", 100)]
      created := april 1 0 }
  planPeriods := [{ uuid := 3, resource := 1, plan := hoursPlan }]
  planPeriod := { uuid := 3, resource := 1, plan := hoursPlan }
  month := ⟨2024, 4, Calendar.april_valid⟩
  id := 1
  component := prepaidHours
  usages := []
  period_mem := List.mem_cons_self
  period_overlaps := rfl
  overage := extraHours
  prepaid := rfl
  overage_eq := rfl

def hoursInvoice : Invoice where
  id := 1
  customer := 1
  year := 2024
  month := 4
  taxPercent := 0
  items := []
  month_valid := Calendar.april_valid
  tax_nonneg := Invoice.untaxed
  attributed := fun _ hit => absurd hit List.not_mem_nil

theorem hoursInvoice_open : hoursRow.OpenInvoice hoursInvoice := ⟨rfl, rfl⟩

/-- Reported as 130 and then corrected to 90, the hours stay billed for 30 extra ones. -/
theorem corrected_report_stays_billed : ¬ hoursRow.overageBilled
    (run hoursRow.report hoursInvoice [⟨130, april 10 0, 2⟩, ⟨90, april 11 0, 3⟩]) =
      ((max 0 (truncate 90 - hoursRow.balance (april 11 0)) : ℤ) : ℚ) := by
  decide +kernel

/-- Reported as 130 and then as 140, they are billed for 40. -/
theorem raised_report_rebilled : hoursRow.overageBilled
    (run hoursRow.report hoursInvoice [⟨130, april 10 0, 2⟩, ⟨140, april 11 0, 3⟩]) =
      ((max 0 (truncate 140 - hoursRow.balance (april 11 0)) : ℤ) : ℚ) :=
  (PrepaidRow.overage_eq_iff hoursInvoice_open (by decide +kernel) [⟨130, april 10 0, 2⟩]
    ⟨140, april 11 0, 3⟩).mpr (by unfold PrepaidRow.LastReportDecides; decide +kernel)

end Waldur.Marketplace
