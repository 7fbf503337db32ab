import Mathlib
import Waldur.Lib.Clock
import Waldur.Marketplace.BillingMode

/-!
# Invoices.Termination — an invoice item ended before its time

`InvoiceItem.terminate` sets the end of an item and recomputes its quantity: of a recurring component by
the periods it was used for, and of an item with limit periods from those.
-/

namespace Waldur.Invoices

open Calendar Clock Marketplace

/-! ## Quantities -/

/-- The day 1 January 1970 is number 719163 of the calendar. -/
def epochOrdinal : ℤ := 719163

/-- The calendar day of an instant. -/
def Instant.date (t : Instant) : Date := Date.ofOrdinal (max 1 (day t + epochOrdinal).toNat) (Nat.le_max_left 1 _)

theorem month_valid_date (t : Instant) : 1 ≤ t.date.month ∧ t.date.month ≤ 12 := t.date.month_valid

/-- Midnight of a date. -/
def midnight (d : Date) : Instant := ((d.toOrdinal : ℤ) - epochOrdinal) * dayLength

/-- The calendar starts with year 1, as `datetime` does. -/
def InCalendar (t : Instant) : Prop := 1 ≤ day t + epochOrdinal

instance (t : Instant) : Decidable (InCalendar t) := inferInstanceAs (Decidable (_ ≤ _))

theorem toOrdinal_date {t : Instant} (h : InCalendar t) : (t.date.toOrdinal : ℤ) = day t + epochOrdinal := by
  unfold Instant.date
  rw [Date.toOrdinal_ofOrdinal]
  unfold InCalendar at h
  omega

theorem one_le_year_date (t : Instant) : 1 ≤ t.date.year := (Date.yearOf_spec (Nat.le_max_left 1 _)).1

theorem date_midnight_add {d : Date} {x : ℤ} (hd : 1 ≤ d.year) (hx : 0 ≤ x ∧ x < dayLength) :
    Instant.date (midnight d + x) = d := by
  have hday : day (midnight d + x) = (d.toOrdinal : ℤ) - epochOrdinal := by
    unfold day midnight dayLength at *
    omega
  have hone := Date.one_le_toOrdinal d
  refine Date.toOrdinal_inj (one_le_year_date _) hd ?_
  have h := toOrdinal_date (t := midnight d + x) (by unfold InCalendar; omega)
  omega

/-- `get_full_hours`. -/
def fullHours (start stop : Instant) : ℤ :=
  (stop - start) / 3600000000 + if (stop - start) % 3600000000 > 0 then 1 else 0

/-- The quarter of a date, counted from year 0. -/
def quarterOf (d : Date) : ℕ := d.year * 4 + (d.month - 1) / 3

/-- Midnight of the first day of a quarter. -/
def quarterStart (q : ℕ) : Instant :=
  midnight ⟨q / 4, q % 4 * 3 + 1, 1, by omega, ⟨le_refl 1, one_le_monthDays _ _⟩⟩

/-- `get_full_quarters`: the quarters that begin between two instants. -/
def fullQuarters (start stop : Instant) : ℕ :=
  ((List.range' (quarterOf start.date) (quarterOf stop.date + 1 - quarterOf start.date)).filter (fun q =>
    decide (start ≤ quarterStart q) && decide (quarterStart q ≤ stop))).length

/-- The branch of half months of `get_quantity`. -/
def halfMonths (start stop : Date) : ℚ :=
  let days := monthDays start.year start.month
  if (start.day = 1 ∧ stop.day = 15) ∨ (start.day = 16 ∧ stop.day = days) then 1
  else if start.day = 1 ∧ stop.day = days then 2
  else if start.day = 1 ∧ stop.day > 15 then quantizePrice (1 + ((stop.day : ℚ) - 15) / ((days : ℚ) / 2))
  else if start.day < 16 ∧ stop.day = days then quantizePrice (1 + (16 - (start.day : ℚ)) / ((days : ℚ) / 2))
  else quantizePrice (((stop.day : ℚ) - start.day + 1) / ((days : ℚ) / 2))

/-- The share of the month between two instants, the default of `get_quantity`. -/
def monthShare (start stop : Instant) : ℚ :=
  let days := monthDays start.date.year start.date.month
  if start.date.day = 1 ∧ stop.date.day = days then 1
  else quantizePrice ((((stop - start) / dayLength + 1 : ℤ) : ℚ) / days)

def getQuantity (unit : Units) (start stop : Instant) : ℚ :=
  match unit with
  | .perHour => fullHours start stop
  | .perDay => fullDays start stop
  | .perQuarter => fullQuarters start stop
  | .perHalfMonth => halfMonths start.date stop.date
  | .perMonth | .quantity => monthShare start stop

namespace InvoiceItem

/-- `quantity_from_limit_periods`. -/
def quantityFromLimitPeriods (it : InvoiceItem) : ℚ :=
  let periods := it.details.resourceLimitPeriods
  if it.unit = .perDay then (periods.map (·.total)).sum
  else
    let totalDays := (periods.map (fun p => fullDays p.start p.stop)).sum
    if totalDays ≤ 0 then 0
    else quantizePrice ((periods.map (fun p => p.quantity * (fullDays p.start p.stop : ℚ))).sum / totalDays)

/-! ## Termination -/

variable (planComponents : ℕ → Option PlanComponentLink)

/-- `get_plan_component`: the one the item is linked to, or else the one its details name. -/
def getPlanComponent (it : InvoiceItem) : Option PlanComponentLink :=
  (it.planComponent.orElse (fun _ => it.details.planComponentId)).bind planComponents

/-- The component of an item is billed again every period. -/
def isRecurring (it : InvoiceItem) : Bool :=
  (it.getPlanComponent planComponents).any (fun pc =>
    pc.component.any (fun component => (resolveComponent component (some pc.billingMode)).isRecurring))

def updateQuantity (it : InvoiceItem) : InvoiceItem :=
  if it.isRecurring planComponents then { it with quantity := getQuantity it.unit it.start it.stop } else it

/-- A sub-period ended at an instant. -/
def closePeriod (stop : Instant) (p : LimitPeriod) : LimitPeriod :=
  { p with
    stop := stop
    billingPeriods := fullDays p.start stop
    total := p.quantity * fullDays p.start stop }

/-- The item with the last of its sub-periods ended. -/
def closeLastPeriod (stop : Instant) (it : InvoiceItem) : InvoiceItem :=
  let periods := it.details.resourceLimitPeriods
  { it with
    details :=
      { it.details with
        resourceLimitPeriods := periods.dropLast ++ (periods.getLast?.map (closePeriod stop)).toList } }

def terminate (stop : Instant) (it : InvoiceItem) : InvoiceItem :=
  let it := { it with stop := stop }.updateQuantity planComponents
  if it.details.resourceLimitPeriods = [] then it
  else if it.details.limitPeriod = some .total then it
  else
    let it := it.closeLastPeriod stop
    { it with quantity := it.quantityFromLimitPeriods }

section

variable {planComponents} {it : InvoiceItem} {stop : Instant}

/-- What `updateQuantity` leaves alone. -/
theorem updateQuantity_eq (it : InvoiceItem) :
    it.updateQuantity planComponents = { it with quantity := (it.updateQuantity planComponents).quantity } := by
  unfold updateQuantity
  split <;> rfl

/-- A terminated item without limit periods, or billed once, has the quantity of its component. -/
theorem terminate_of_once
    (h : it.details.resourceLimitPeriods = [] ∨ it.details.limitPeriod = some .total) :
    it.terminate planComponents stop = { it with stop := stop }.updateQuantity planComponents := by
  have hd : ({ it with stop := stop }.updateQuantity planComponents).details = it.details := by
    rw [updateQuantity_eq]
  unfold terminate
  dsimp only
  rw [hd]
  rcases h with h | h
  · rw [if_pos h]
  · rw [if_pos h, ite_self]

/-- A terminated item with recurring limit periods has the last one ended, and the quantity they give. -/
theorem terminate_of_periods (h : it.details.resourceLimitPeriods ≠ []) (h' : it.details.limitPeriod ≠ some .total) :
    it.terminate planComponents stop =
      { { it with stop := stop }.closeLastPeriod stop with
        quantity := ({ it with stop := stop }.closeLastPeriod stop).quantityFromLimitPeriods } := by
  unfold terminate
  rw [updateQuantity_eq]
  dsimp only
  rw [if_neg h, if_neg h']
  rfl

/-- Termination leaves the price, the resource, the project and all details but the sub-periods alone. -/
theorem terminate_eq (it : InvoiceItem) : it.terminate planComponents stop =
    { it with
      stop := stop
      quantity := (it.terminate planComponents stop).quantity
      details :=
        { it.details with
          resourceLimitPeriods := (it.terminate planComponents stop).details.resourceLimitPeriods } } := by
  by_cases h : it.details.resourceLimitPeriods = [] ∨ it.details.limitPeriod = some .total
  · rw [terminate_of_once h, updateQuantity_eq]
  · rw [not_or] at h
    rw [terminate_of_periods h.1 h.2]
    rfl

theorem terminate_wellAttributed {customer : ℕ} (h : it.WellAttributed customer) :
    (it.terminate planComponents stop).WellAttributed customer := by
  rw [terminate_eq]
  exact h

end

end InvoiceItem

/-- The items of a resource that run to the end of the month, terminated. -/
def Invoice.terminateItems (planComponents : ℕ → Option PlanComponentLink) (resource : ℕ) (monthEnd now : Instant)
    (inv : Invoice) : Invoice :=
  { inv with
    items := inv.items.map (fun it =>
      if it.resource.any (fun r => r.id == resource) && it.stop == monthEnd then it.terminate planComponents now
      else it)
    attributed := by
      intro it hit
      obtain ⟨it₀, hit₀, rfl⟩ := List.mem_map.mp hit
      split
      · exact InvoiceItem.terminate_wellAttributed (inv.attributed it₀ hit₀)
      · exact inv.attributed it₀ hit₀ }

end Waldur.Invoices
