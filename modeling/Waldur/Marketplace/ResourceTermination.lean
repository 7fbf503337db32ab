import Mathlib
import Waldur.Invoices.Compensations
import Waldur.Marketplace.LimitQuantity

/-!
# Marketplace.ResourceTermination — compensations of a terminated resource

`_terminate` ends every item of a resource that runs to the end of the month.  A compensation is such an
item: it carries the resource, ends with the month by default, and names the plan component and the limit
periods of the item it offsets, so its quantity of 1 is recomputed as if it were a cost: `Survives` is the
exact condition under which it comes out as 1 again.
-/

namespace Waldur.Invoices

open Calendar Clock Marketplace

/-- The month of an instant. -/
def Instant.month (t : Instant) : BillingMonth := ⟨t.date.year, t.date.month, month_valid_date t⟩

/-- `core_utils.month_start`. -/
def monthStart (t : Instant) : Instant := t.month.firstDay * dayLength

/-- `core_utils.month_end`. -/
def monthEnd (t : Instant) : Instant := t.month.stop

/-! ## The code -/

/-- The invoices of `_terminate`: open, of the resource's organization and of the month. -/
def Invoice.isTerminable (resource : Resource) (now : Instant) (inv : Invoice) : Bool :=
  inv.customer == resource.project.customer && inv.state.isMutable && inv.year == now.date.year &&
    inv.month == now.date.month

/-- The items of `_terminate` on such an invoice. -/
def InvoiceItem.isEnding (resource : Resource) (now : Instant) (it : InvoiceItem) : Bool :=
  it.resource.any (fun r => r.id == resource.id) && it.stop == monthEnd now

/-- `MarketplaceBillingService._terminate` on an existing invoice. -/
def Invoice.terminateResource (planComponents : ℕ → Option PlanComponentLink) (resource : Resource) (now : Instant)
    (inv : Invoice) : Invoice :=
  if inv.isTerminable resource now then inv.terminateItems planComponents resource.id (monthEnd now) now else inv

/-! ## Credit on an invoice -/

/-- Price and quantity of the compensations of an invoice. -/
def Invoice.creditLines (inv : Invoice) : List (ℚ × ℚ) :=
  (inv.items.filter (·.details.isCompensation)).map (fun c => (c.unitPrice, c.quantity))

/-- The total amount of credit applied on an invoice. -/
def Invoice.creditApplied (inv : Invoice) : ℚ :=
  -((inv.items.filter (·.details.isCompensation)).map InvoiceItem.price).sum

/-- An item whose period is left to the defaults of its columns, the current month. -/
def InvoiceItem.withDefaultPeriod (now : Instant) (it : InvoiceItem) : InvoiceItem :=
  { it with start := monthStart now, stop := monthEnd now }

/-- As `MonthlyCompensation.save` writes a compensation within the month. -/
structure InvoiceItem.AsSaved (now : Instant) (c : InvoiceItem) : Prop where
  unit : c.unit = .quantity
  quantity : c.quantity = 1
  start : c.start = monthStart now

/-- The day-weighted average of the limits of an item, the last of its sub-periods ended at an instant. -/
def InvoiceItem.averageLimit (now : Instant) (it : InvoiceItem) : ℚ :=
  let periods := (it.closeLastPeriod now).details.resourceLimitPeriods
  if periodDays periods ≤ 0 then 0 else chargedFor periods / periodDays periods

/-- **Where a compensation survives termination**: it offsets a limit item whose average limit rounds up to 1,
or an item of another recurring component on the last day of the month, or an item that is billed once. -/
def InvoiceItem.Survives (planComponents : ℕ → Option PlanComponentLink) (now : Instant) (c : InvoiceItem) : Prop :=
  if c.details.resourceLimitPeriods ≠ [] ∧ c.details.limitPeriod ≠ some .total then
    99 / 100 < c.averageLimit now ∧ c.averageLimit now ≤ 1
  else c.isRecurring planComponents = true → now.date.day = monthDays now.date.year now.date.month

/-! ## The quantity of a terminated compensation -/

section Quantity

variable {planComponents : ℕ → Option PlanComponentLink} {now : Instant} {c : InvoiceItem}

/-- The first of the month of a date. -/
def firstOfMonth (d : Date) : Date := d.replaceDayOne

theorem date_monthStart (now : Instant) : (monthStart now).date = firstOfMonth now.date := by
  have h := date_midnight_add (d := firstOfMonth now.date) (x := 0) (one_le_year_date now) (by
    unfold dayLength
    omega)
  rw [add_zero] at h
  exact h

/-- The whole days from the start of the month. -/
theorem daysSince_monthStart (hnow : InCalendar now) :
    (now - monthStart now) / dayLength = (now.date.day : ℤ) - 1 := by
  have hfirst : ((firstOfMonth now.date).toOrdinal : ℤ) + now.date.day = now.date.toOrdinal + 1 := by
    unfold firstOfMonth Date.replaceDayOne Date.toOrdinal
    push_cast
    ring
  have hord := toOrdinal_date hnow
  obtain ⟨heq, h₀, h₁⟩ := day_timeOfDay now
  have hstart : monthStart now = (((firstOfMonth now.date).toOrdinal : ℤ) - epochOrdinal) * dayLength := rfl
  have hspan : now - monthStart now = timeOfDay now + ((now.date.day : ℤ) - 1) * dayLength := by
    have hdays : day now = ((firstOfMonth now.date).toOrdinal : ℤ) - epochOrdinal + (now.date.day - 1) := by omega
    rw [hstart]
    nth_rewrite 1 [heq]
    rw [hdays]
    ring
  rw [hspan, Int.add_mul_ediv_right _ _ (by unfold dayLength; omega), Int.ediv_eq_zero_of_lt h₀ h₁, zero_add]

theorem monthShare_monthStart (hnow : InCalendar now) : monthShare (monthStart now) now =
    if now.date.day = monthDays now.date.year now.date.month then 1
    else quantizePrice ((now.date.day : ℚ) / monthDays now.date.year now.date.month) := by
  unfold monthShare
  dsimp only
  rw [date_monthStart, daysSince_monthStart hnow, sub_add_cancel, Int.cast_natCast]
  by_cases hd : now.date.day = monthDays now.date.year now.date.month
  · exact (if_pos ⟨rfl, hd⟩).trans (if_pos hd).symm
  · exact (if_neg fun h => hd h.2).trans (if_neg hd).symm

/-- The share of the month that is used up: all of it on the last day only, also when rounded up. -/
theorem monthShare_eq_one_iff (hnow : InCalendar now) :
    monthShare (monthStart now) now = 1 ↔ now.date.day = monthDays now.date.year now.date.month := by
  have hlength : 1 ≤ monthDays now.date.year now.date.month ∧ monthDays now.date.year now.date.month ≤ 31 := by
    refine ⟨one_le_monthDays _ _, ?_⟩
    unfold monthDays
    split_ifs <;> omega
  have hday := now.date.day_valid
  rw [monthShare_monthStart hnow]
  by_cases hd : now.date.day = monthDays now.date.year now.date.month
  · rw [if_pos hd]
    exact iff_of_true rfl hd
  · rw [if_neg hd]
    refine iff_of_false (fun h => ?_) hd
    obtain ⟨hlt, -⟩ := Decimal.quantizeUp_two_eq_one.mp h
    have hpos : (0 : ℚ) < monthDays now.date.year now.date.month := by exact_mod_cast hlength.1
    have hle : (now.date.day : ℚ) + 1 ≤ monthDays now.date.year now.date.month := by
      have hnat : now.date.day + 1 ≤ monthDays now.date.year now.date.month := by omega
      exact_mod_cast hnat
    have hmax : (monthDays now.date.year now.date.month : ℚ) ≤ 31 := by exact_mod_cast hlength.2
    rw [lt_div_iff₀ hpos] at hlt
    linarith

/-- **One compensation**: its quantity is unchanged exactly where it survives. -/
theorem terminate_quantity_iff (hnow : InCalendar now) (hc : c.AsSaved now) :
    (c.terminate planComponents now).quantity = c.quantity ↔ c.Survives planComponents now := by
  rw [hc.quantity]
  unfold InvoiceItem.Survives
  split
  · next h =>
    rw [InvoiceItem.terminate_of_periods h.1 h.2]
    show InvoiceItem.quantityFromLimitPeriods _ = 1 ↔ _
    have havg : (({ c with stop := now } : InvoiceItem).closeLastPeriod now).quantityFromLimitPeriods =
        quantizePrice (c.averageLimit now) := by
      have hnotDay : ¬ c.unit = .perDay := by rw [hc.unit]; decide
      unfold InvoiceItem.averageLimit
      dsimp only
      refine (if_neg hnotDay).trans ?_
      split
      · next hdays =>
        have hzero : quantizePrice 0 = 0 := by decide +kernel
        exact hzero.symm.trans (congrArg quantizePrice (if_pos hdays).symm)
      · next hdays => exact congrArg quantizePrice (if_neg hdays).symm
    rw [havg]
    exact Decimal.quantizeUp_two_eq_one
  · next h =>
    rw [InvoiceItem.terminate_of_once (by tauto)]
    unfold InvoiceItem.updateQuantity
    show (if c.isRecurring planComponents = true then _ else _ : InvoiceItem).quantity = 1 ↔ _
    by_cases hr : c.isRecurring planComponents = true
    · rw [if_pos hr]
      show getQuantity c.unit c.start now = 1 ↔ _
      rw [hc.unit, hc.start]
      exact (monthShare_eq_one_iff hnow).trans ⟨fun h _ => h, fun h => h hr⟩
    · rw [if_neg hr]
      exact iff_of_true hc.quantity fun h => absurd h hr

/-- Termination keeps what makes an item a compensation. -/
theorem terminate_isCompensation : (c.terminate planComponents now).details.isCompensation = c.details.isCompensation := by
  rw [InvoiceItem.terminate_eq]

theorem terminate_unitPrice : (c.terminate planComponents now).unitPrice = c.unitPrice := by
  rw [InvoiceItem.terminate_eq]

end Quantity

/-! ## Compensations of an invoice -/

section Credit

variable {planComponents : ℕ → Option PlanComponentLink} {resource : Resource} {now : Instant} {inv : Invoice}

theorem creditApplied_eq (inv : Invoice) :
    inv.creditApplied = -(inv.creditLines.map (fun line => quantizePrice (line.1 * line.2))).sum := by
  unfold Invoice.creditApplied Invoice.creditLines
  rw [List.map_map]
  rfl

/-- What becomes of the compensations of an invoice that the termination goes through. -/
theorem creditLines_terminateResource (h : inv.isTerminable resource now = true) :
    (inv.terminateResource planComponents resource now).creditLines =
      (inv.items.filter (·.details.isCompensation)).map (fun c =>
        (c.unitPrice, if c.isEnding resource now then (c.terminate planComponents now).quantity else c.quantity)) := by
  unfold Invoice.creditLines Invoice.terminateResource
  rw [if_pos h]
  show ((inv.items.map (fun it => if it.isEnding resource now then it.terminate planComponents now else it)).filter
    (·.details.isCompensation)).map _ = _
  have hcomp : (fun it : InvoiceItem => it.details.isCompensation) ∘
      (fun it : InvoiceItem => if it.isEnding resource now then it.terminate planComponents now else it) =
      (fun it => it.details.isCompensation) := by
    funext it
    show (if it.isEnding resource now then it.terminate planComponents now else it : InvoiceItem).details.isCompensation = _
    split
    · exact terminate_isCompensation
    · rfl
  rw [List.filter_map, hcomp, List.map_map]
  refine List.map_congr_left fun c _ => ?_
  show ((if c.isEnding resource now then c.terminate planComponents now else c : InvoiceItem).unitPrice,
    (if c.isEnding resource now then c.terminate planComponents now else c : InvoiceItem).quantity) = _
  split
  · rw [terminate_unitPrice]
  · rfl

theorem creditLines_unchanged_iff (hnow : InCalendar now)
    (hsaved : ∀ c ∈ inv.items, c.details.isCompensation = true → c.isEnding resource now = true → c.AsSaved now) :
    (inv.terminateResource planComponents resource now).creditLines = inv.creditLines ↔
      (inv.isTerminable resource now = true → ∀ c ∈ inv.items, c.details.isCompensation = true →
        c.isEnding resource now = true → c.Survives planComponents now) := by
  by_cases h : inv.isTerminable resource now = true
  · rw [creditLines_terminateResource h, forall_prop_of_true h]
    unfold Invoice.creditLines
    rw [List.map_inj_left]
    constructor
    · intro hall c hmem hc hending
      have hpair := hall c (List.mem_filter.mpr ⟨hmem, hc⟩)
      rw [if_pos hending] at hpair
      exact (terminate_quantity_iff hnow (hsaved c hmem hc hending)).mp (Prod.ext_iff.mp hpair).2
    · intro hall c hc
      obtain ⟨hmem, hc⟩ := List.mem_filter.mp hc
      refine Prod.ext rfl ?_
      show (if c.isEnding resource now then (c.terminate planComponents now).quantity else c.quantity) = c.quantity
      split
      · next hending => exact (terminate_quantity_iff hnow (hsaved c hmem hc hending)).mpr (hall c hmem hc hending)
      · rfl
  · unfold Invoice.terminateResource
    rw [if_neg h]
    exact iff_of_true rfl fun h' => absurd h' h

/-- **Termination leaves the compensations of an invoice alone**, and the credit applied on it, exactly if every
compensation that it ends survives. -/
theorem compensations_unchanged_iff (hnow : InCalendar now)
    (hsaved : ∀ c ∈ inv.items, c.details.isCompensation = true → c.isEnding resource now = true → c.AsSaved now) :
    ((inv.terminateResource planComponents resource now).creditLines = inv.creditLines ∧
        (inv.terminateResource planComponents resource now).creditApplied = inv.creditApplied) ↔
      (inv.isTerminable resource now = true → ∀ c ∈ inv.items, c.details.isCompensation = true →
        c.isEnding resource now = true → c.Survives planComponents now) := by
  rw [← creditLines_unchanged_iff hnow hsaved]
  constructor
  · exact And.left
  · intro h
    exact ⟨h, by rw [creditApplied_eq, creditApplied_eq, h]⟩

end Credit

/-! ## A compensated fee of June 2024 -/

/-- A time of day in June 2024, from day 1. -/
def juneAt (d hour : ℤ) : Instant := (19874 + d) * dayLength + hour * 3600000000

def feeResource : Resource := ⟨1, 1, ⟨10, 1⟩⟩

def feeLink : ℕ → Option PlanComponentLink := fun _ => some ⟨some { id := 1, type := "fee", billingType := .fixed }, .inherit⟩

/-- A fixed fee of 100. -/
def feeItem : InvoiceItem where
  uuid := 1
  unitPrice := 100
  quantity := 1
  unit := .perMonth
  resource := some feeResource
  planComponent := some 7
  project := some feeResource.project
  start := monthStart (juneAt 1 0)
  stop := monthEnd (juneAt 1 0)
  details := { offeringComponentType := some "fee", planComponentId := some 7 }

/-- The compensation of the fee, written within the month. -/
def feeCompensation : InvoiceItem := (compensationItem 2 1 feeItem 100).withDefaultPeriod (juneAt 5 0)

def compensatedFee : Invoice where
  id := 1
  customer := 1
  year := 2024
  month := 6
  taxPercent := 0
  items := [feeItem, feeCompensation]
  month_valid := june_valid
  tax_nonneg := Invoice.untaxed
  attributed := by
    intro it hit r hr
    rcases List.mem_pair.mp hit with rfl | rfl <;> obtain rfl := Option.some.inj hr <;> exact ⟨rfl, rfl⟩

/-- Terminated on the tenth, the resource keeps 34 of the 100 that were applied. -/
theorem terminated_fee_loses_credit : ¬
    ((compensatedFee.terminateResource feeLink feeResource (juneAt 10 12)).creditLines = compensatedFee.creditLines ∧
      (compensatedFee.terminateResource feeLink feeResource (juneAt 10 12)).creditApplied =
        compensatedFee.creditApplied) := by
  decide +kernel

/-- Terminated on the thirtieth, it keeps all of them. -/
theorem fee_terminated_on_last_day :
    (compensatedFee.terminateResource feeLink feeResource (juneAt 30 12)).creditLines = compensatedFee.creditLines ∧
      (compensatedFee.terminateResource feeLink feeResource (juneAt 30 12)).creditApplied =
        compensatedFee.creditApplied := by
  refine (@compensations_unchanged_iff feeLink feeResource (juneAt 30 12) compensatedFee (by decide +kernel) ?_).mpr ?_
  · intro c hc hcomp _
    rcases List.mem_pair.mp hc with rfl | rfl
    · cases hcomp
    · exact ⟨rfl, rfl, by decide +kernel⟩
  · intro _ c hc hcomp _
    rcases List.mem_pair.mp hc with rfl | rfl
    · cases hcomp
    · exact fun _ => by decide +kernel

end Waldur.Invoices
