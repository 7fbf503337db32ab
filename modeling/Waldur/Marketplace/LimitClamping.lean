import Mathlib
import Waldur.Lib.Decimal
import Waldur.Lib.Doubles
import Waldur.Lib.Runs

/-!
# Marketplace.LimitClamping — a reported limit is narrowed to the nearest one that the component accepts

`clamp_limit_value` decides on decimals, as `validate_limit_precision` and `validate_maximum_available_limit` do;
`validate_min_max_limit` compares the double itself.  The clamp never moves a limit against its request
(`clamp_directed`), and without a stored limit it returns the double nearest to the nearest acceptable decimal
(`clamp_nearest`).  That double passes the validators exactly where it is on the same side of the bounds as its decimal
(`narrows_iff`): a maximum of 0.10 is refused by the validator as soon as the clamp returns it.
-/

namespace Waldur.Marketplace

open Doubles Runs

/-! ## Limits and bounds -/

/-- A limit as `narrow_limit_value` renders it: a double, which is an `int` where it is whole. -/
@[ext] structure LimitNumber where
  value : ℚ
  isDouble : toDouble value = value

/-- `Decimal(str(value))`. -/
def LimitNumber.decimal (v : LimitNumber) : ℚ := shortest v.value

/-- `narrow_limit_value`. -/
def narrowLimitValue (amount : ℚ) : LimitNumber := ⟨toDouble amount, toDouble_toDouble amount⟩

/-- A column with twenty digits, two of them after the point. -/
structure LimitBound where
  hundredths : ℤ
  digits : |hundredths| < 10 ^ 20

def LimitBound.value (b : LimitBound) : ℚ := b.hundredths / 100

/-- What the checks of a limit read of an offering component. -/
structure BoundedComponent where
  type : String
  limitDecimalPlaces : ℕ
  places_le : limitDecimalPlaces ≤ 2
  maxValue : Option LimitBound
  minValue : Option LimitBound
  maxAvailableLimit : Option LimitBound

namespace BoundedComponent

variable (c : BoundedComponent)

/-- 0 means "no maximum". -/
def max? : Option ℚ := (c.maxValue.map LimitBound.value).filter (· ≠ 0)

def min? : Option ℚ := c.minValue.map LimitBound.value

/-- The offering-wide cap; 0 means none. -/
def cap? : Option ℚ := (c.maxAvailableLimit.map LimitBound.value).filter (· ≠ 0)

/-- `Decimal(1).scaleb(-places)`. -/
def step : ℚ := 1 / 10 ^ c.limitDecimalPlaces

/-- `quantize` with `ROUND_FLOOR`. -/
def floorTo (x : ℚ) : ℚ := ⌊x * 10 ^ c.limitDecimalPlaces⌋ / 10 ^ c.limitDecimalPlaces

/-- `quantize` with `ROUND_CEILING`. -/
def ceilTo (x : ℚ) : ℚ := ⌈x * 10 ^ c.limitDecimalPlaces⌉ / 10 ^ c.limitDecimalPlaces

/-- `quantize` with `ROUND_DOWN`. -/
def towardZero (x : ℚ) : ℚ := if 0 ≤ x then c.floorTo x else c.ceilTo x

/-- The decimal context holds 28 digits; what has more is an `InvalidOperation`. A bound always fits. -/
def Fits (x : ℚ) : Prop := |x * 10 ^ c.limitDecimalPlaces| < 10 ^ 28

instance (x : ℚ) : Decidable (c.Fits x) := inferInstanceAs (Decidable (_ < _))

end BoundedComponent

/-! ## The validators -/

inductive LimitError
  /-- "The limit %s value is out of range." -/
  | outOfRange (value : LimitNumber)
  /-- "The limit %s value must be a whole number." -/
  | notWhole (value : LimitNumber)
  /-- "The limit %(value)s value cannot have more than %(places)s decimal places." -/
  | tooManyPlaces (value : LimitNumber) (places : ℕ)
  /-- "The limit %s value cannot be more than %s." -/
  | tooLarge (value : LimitNumber) (bound : ℚ)
  /-- "The limit %s value cannot be less than %s." -/
  | tooSmall (value : LimitNumber) (bound : ℚ)
  /-- "Requested %s cannot be provisioned due to offering safety limit. You can allocate up to %s of %s." -/
  | notAvailable (type : String) (upTo : ℚ)

section Validators

variable (v : LimitNumber) (c : BoundedComponent) (allocated : ℚ)

/-- `validate_limit_precision`. -/
def validateLimitPrecision : Except LimitError Unit :=
  if ¬ c.Fits (c.towardZero v.decimal) then .error (.outOfRange v)
  else if v.decimal ≠ c.towardZero v.decimal then
    if c.limitDecimalPlaces = 0 then .error (.notWhole v) else .error (.tooManyPlaces v c.limitDecimalPlaces)
  else .ok ()

/-- `validate_min_max_limit`: it compares the number itself. -/
def validateMinMaxLimit : Except LimitError Unit :=
  match c.max?.filter fun m => decide (v.value > m), c.min?.filter fun m => decide (v.value < m) with
  | some m, _ => .error (.tooLarge v m)
  | none, some m => .error (.tooSmall v m)
  | none, none => .ok ()

/-- `mb_to_gb`. -/
def mbToGb (value : ℚ) : ℚ := Decimal.quantizeUp 2 (value / 1024)

/-- `validate_maximum_available_limit`; `allocated` is `get_allocated_limit_total`, and sums of limits are exact. -/
def validateMaximumAvailableLimit : Except LimitError Unit :=
  match c.cap? with
  | none => .ok ()
  | some cap =>
    if allocated + v.decimal ≥ cap then
      .error (.notAvailable c.type (if c.type = "cores" then cap - allocated - 1 else ⌊mbToGb (cap - allocated)⌋))
    else .ok ()

/-- All three validators pass. -/
def Passes : Prop :=
  validateLimitPrecision v c = .ok () ∧ validateMinMaxLimit v c = .ok () ∧
    validateMaximumAvailableLimit v c allocated = .ok ()

end Validators

/-! ## The clamp -/

/-- The bound that moved a value. -/
inductive ClampReason
  | precision
  | maxValue
  | minValue
  | maxAvailableLimit
deriving DecidableEq

inductive ClampStop
  /-- `return None, reason`. -/
  | refused (reason : ClampReason)
  /-- `decimal.InvalidOperation`, which is not caught. -/
  | invalidOperation
deriving DecidableEq

/-- `amount` and `reason`. -/
abbrev Clamped := ℚ × Option ClampReason

section Clamp

variable (c : BoundedComponent) (allocated : ℚ) (stored : Option LimitNumber) (value : LimitNumber)

/-- The request, truncated to the step. -/
def requestedAmount : Except ClampStop Clamped :=
  let truncated := c.floorTo value.decimal
  if c.Fits truncated then .ok (truncated, if truncated ≠ value.decimal then some .precision else none)
  else .error (.refused .precision)

/-- The maximum. -/
def lowerToMax (x : Clamped) : Clamped :=
  match c.max?.filter fun m => decide (x.1 > m) with
  | some m => (c.floorTo m, some .maxValue)
  | none => x

/-- The minimum; the bound is rounded up. -/
def raiseToMin (x : Clamped) : Except ClampStop Clamped :=
  match c.min?.filter fun m => decide (x.1 < m) with
  | some m =>
    let amount := c.ceilTo m
    if (c.max?.filter fun m => decide (amount > m)).isSome then .error (.refused .minValue)
    else .ok (amount, some .minValue)
  | none => .ok x

/-- The largest step strictly below what is left. -/
def ceilingOf (remaining : ℚ) : ℚ :=
  let ceiling := c.floorTo remaining
  if ceiling = remaining then ceiling - c.step else ceiling

/-- The offering-wide cap, for what is more than the stored limit. -/
def lowerToCeiling (x : Clamped) : Except ClampStop Clamped :=
  match c.cap? with
  | none => .ok x
  | some cap =>
    if ∀ s ∈ stored, x.1 > s.decimal then
      if ¬ c.Fits (c.floorTo (cap - allocated)) then .error .invalidOperation
      else
        let ceiling := ceilingOf c (cap - allocated)
        if x.1 > ceiling then
          if ceiling < 0 ∨ ∃ m ∈ c.min?, ceiling < m then .error (.refused .maxAvailableLimit)
          else .ok (ceiling, some .maxAvailableLimit)
        else .ok x
    else .ok x

/-- The result lies between the stored limit and the requested one. -/
def keepDirection (stored raw requested amount : ℚ) : ℚ :=
  if requested < stored ∧ stored < raw then stored
  else if amount < min stored requested then min stored requested
  else if amount > max stored requested then max stored requested
  else amount

/-- `clamp_limit_value`. -/
def clampLimitValue : Except ClampStop (LimitNumber × Option ClampReason) := do
  let requested ← requestedAmount c value
  let x ← raiseToMin c (lowerToMax c requested)
  let x ← lowerToCeiling c allocated stored x
  let amount := stored.elim x.1 fun s => keepDirection s.decimal value.decimal requested.1 x.1
  return if x.2 = none then (value, none) else (narrowLimitValue amount, x.2)

end Clamp

/-! ## Steps of the precision -/

namespace BoundedComponent

variable {c : BoundedComponent} {a b x : ℚ}

/-- A multiple of the step. -/
def OnStep (c : BoundedComponent) (a : ℚ) : Prop := HasPlaces c.limitDecimalPlaces a

theorem scale_pos (c : BoundedComponent) : (0 : ℚ) < 10 ^ c.limitDecimalPlaces := by positivity

theorem onStep_floorTo (c : BoundedComponent) (x : ℚ) : c.OnStep (c.floorTo x) := ⟨_, rfl⟩

theorem onStep_ceilTo (c : BoundedComponent) (x : ℚ) : c.OnStep (c.ceilTo x) := ⟨_, rfl⟩

theorem OnStep.le_floorTo_iff (hb : c.OnStep b) : b ≤ c.floorTo x ↔ b ≤ x := by
  obtain ⟨n, rfl⟩ := hb
  rw [floorTo, div_le_div_iff_of_pos_right c.scale_pos, Int.cast_le, Int.le_floor, div_le_iff₀ c.scale_pos]

theorem OnStep.ceilTo_le_iff (hb : c.OnStep b) : c.ceilTo x ≤ b ↔ x ≤ b := by
  obtain ⟨n, rfl⟩ := hb
  rw [ceilTo, div_le_div_iff_of_pos_right c.scale_pos, Int.cast_le, Int.ceil_le, le_div_iff₀ c.scale_pos]

theorem floorTo_le (c : BoundedComponent) (x : ℚ) : c.floorTo x ≤ x := (c.onStep_floorTo x).le_floorTo_iff.mp le_rfl

theorem le_ceilTo (c : BoundedComponent) (x : ℚ) : x ≤ c.ceilTo x := (c.onStep_ceilTo x).ceilTo_le_iff.mp le_rfl

theorem lt_floorTo_add (c : BoundedComponent) (x : ℚ) : x < c.floorTo x + c.step := by
  rw [floorTo, step, ← add_div, lt_div_iff₀ c.scale_pos]
  exact Int.lt_floor_add_one _

theorem ceilTo_lt_add (c : BoundedComponent) (x : ℚ) : c.ceilTo x < x + c.step := by
  have h := Int.ceil_lt_add_one (x * 10 ^ c.limitDecimalPlaces)
  rw [ceilTo, step, div_lt_iff₀ c.scale_pos, add_mul, div_mul_cancel₀ _ c.scale_pos.ne']
  exact h

theorem OnStep.floorTo_eq (hx : c.OnStep x) : c.floorTo x = x :=
  le_antisymm (c.floorTo_le x) (hx.le_floorTo_iff.mpr le_rfl)

theorem OnStep.ceilTo_eq (hx : c.OnStep x) : c.ceilTo x = x :=
  le_antisymm (hx.ceilTo_le_iff.mpr le_rfl) (c.le_ceilTo x)

theorem onStep_iff_towardZero : c.OnStep x ↔ x = c.towardZero x := by
  unfold towardZero
  split_ifs
  · exact ⟨fun h => h.floorTo_eq.symm, fun h => h ▸ c.onStep_floorTo x⟩
  · exact ⟨fun h => h.ceilTo_eq.symm, fun h => h ▸ c.onStep_ceilTo x⟩

theorem onStep_zero (c : BoundedComponent) : c.OnStep 0 := ⟨0, by rw [Int.cast_zero, zero_div]⟩

theorem onStep_ceilingOf (c : BoundedComponent) (x : ℚ) : c.OnStep (ceilingOf c x) := by
  unfold ceilingOf
  dsimp only
  split_ifs
  · refine ⟨⌊x * 10 ^ c.limitDecimalPlaces⌋ - 1, ?_⟩
    rw [floorTo, step, ← sub_div]
    push_cast
    rfl
  · exact c.onStep_floorTo x

/-- **The ceiling is the largest step strictly below what is left.** -/
theorem OnStep.le_ceilingOf_iff (hb : c.OnStep b) : b ≤ ceilingOf c x ↔ b < x := by
  unfold ceilingOf
  dsimp only
  split_ifs with heq
  · obtain ⟨n, rfl⟩ := hb
    conv_rhs => rw [← heq]
    rw [floorTo, step, ← sub_div, div_le_div_iff_of_pos_right c.scale_pos, div_lt_div_iff_of_pos_right c.scale_pos]
    exact_mod_cast Int.le_sub_one_iff
  · refine hb.le_floorTo_iff.trans ⟨fun hle => hle.lt_of_ne fun hbx => heq ?_, le_of_lt⟩
    exact (hbx ▸ hb).floorTo_eq

end BoundedComponent

section Checks

variable {c : BoundedComponent} {allocated : ℚ} {v r s : LimitNumber} {stored : Option LimitNumber} {x y : Clamped}
  {a b w : ℚ} {reason : Option ClampReason}

theorem narrow_decimal (v : LimitNumber) : narrowLimitValue v.decimal = v :=
  LimitNumber.ext (toDouble_shortest v.isDouble)

theorem decimal_le_iff : v.decimal ≤ r.decimal ↔ v.value ≤ r.value := shortest_le_iff v.isDouble r.isDouble

theorem decimal_lt_iff : v.decimal < r.decimal ↔ v.value < r.value := by
  rw [← not_le, decimal_le_iff, not_le]

theorem precision_iff : validateLimitPrecision v c = .ok () ↔ c.OnStep v.decimal ∧ c.Fits v.decimal := by
  unfold validateLimitPrecision
  rw [BoundedComponent.onStep_iff_towardZero]
  split_ifs with hfits hstep hzero
  · exact iff_of_false nofun fun h => hstep h.1
  · exact iff_of_false nofun fun h => hstep h.1
  · exact iff_of_true rfl ⟨not_not.mp hstep, (not_not.mp hstep).symm ▸ hfits⟩
  · exact iff_of_false nofun fun h => hfits (h.1 ▸ h.2)

theorem filter_gt_eq_none {o : Option ℚ} : (o.filter fun m => decide (a > m)) = none ↔ ∀ m ∈ o, a ≤ m := by
  cases o with
  | none => exact iff_of_true rfl fun _ h => nomatch h
  | some m =>
    rw [Option.filter_some]
    by_cases h : a > m
    · rw [if_pos (decide_eq_true h)]
      exact iff_of_false nofun fun hall => absurd (hall m rfl) (not_le.mpr h)
    · rw [if_neg (by simpa using h)]
      exact iff_of_true rfl fun m' hm' => Option.some.inj hm' ▸ not_lt.mp h

theorem filter_lt_eq_none {o : Option ℚ} : (o.filter fun m => decide (a < m)) = none ↔ ∀ m ∈ o, m ≤ a := by
  cases o with
  | none => exact iff_of_true rfl fun _ h => nomatch h
  | some m =>
    rw [Option.filter_some]
    by_cases h : a < m
    · rw [if_pos (decide_eq_true h)]
      exact iff_of_false nofun fun hall => absurd (hall m rfl) (not_le.mpr h)
    · rw [if_neg (by simpa using h)]
      exact iff_of_true rfl fun m' hm' => Option.some.inj hm' ▸ not_lt.mp h

theorem minMax_iff : validateMinMaxLimit v c = .ok () ↔ (∀ m ∈ c.max?, v.value ≤ m) ∧ ∀ m ∈ c.min?, m ≤ v.value := by
  rw [← filter_gt_eq_none, ← filter_lt_eq_none]
  unfold validateMinMaxLimit
  cases c.max?.filter fun m => decide (v.value > m) with
  | some m => exact iff_of_false nofun nofun
  | none =>
    cases c.min?.filter fun m => decide (v.value < m) with
    | some m => exact iff_of_false nofun nofun
    | none => exact iff_of_true rfl ⟨rfl, rfl⟩

theorem available_iff :
    validateMaximumAvailableLimit v c allocated = .ok () ↔ ∀ cap ∈ c.cap?, allocated + v.decimal < cap := by
  unfold validateMaximumAvailableLimit
  cases c.cap? with
  | none => exact iff_of_true rfl fun _ h => nomatch h
  | some cap =>
    dsimp only
    split_ifs with h
    · exact iff_of_false nofun fun hall => absurd (hall cap rfl) (not_lt.mpr h)
    · exact iff_of_true rfl fun cap' hcap' => Option.some.inj hcap' ▸ not_le.mp h

theorem passes_iff : Passes v c allocated ↔ (c.OnStep v.decimal ∧ c.Fits v.decimal) ∧
    ((∀ m ∈ c.max?, v.value ≤ m) ∧ ∀ m ∈ c.min?, m ≤ v.value) ∧ ∀ cap ∈ c.cap?, allocated + v.decimal < cap := by
  rw [Passes, precision_iff, minMax_iff, available_iff]

/-! ## The direction of a request -/

/-- A request to grow does not shrink, and one to shrink does not grow; neither is overshot. -/
def KeepsDirection (c : BoundedComponent) (v s r : LimitNumber) : Prop :=
  (s.value < v.value → s.value ≤ r.value ∧ r.value ≤ v.value) ∧
    (v.value < s.value → r.value ≤ s.value ∧ (narrowLimitValue (c.floorTo v.decimal)).value ≤ r.value)

theorem keepDirection_mem {stored raw requested amount : ℚ} (h : ¬ (requested < stored ∧ stored < raw)) :
    min stored requested ≤ keepDirection stored raw requested amount ∧
      keepDirection stored raw requested amount ≤ max stored requested := by
  unfold keepDirection
  rw [if_neg h]
  split_ifs with hlow hhigh
  · exact ⟨le_rfl, min_le_max⟩
  · exact ⟨min_le_max, le_rfl⟩
  · exact ⟨not_lt.mp hlow, not_lt.mp hhigh⟩

/-- **The clamp never moves a limit against its request.** -/
theorem clamp_directed (h : clampLimitValue c allocated (some s) v = .ok (r, reason)) : KeepsDirection c v s r := by
  obtain ⟨requested, hrequested, h⟩ := bind_eq_ok.mp h
  obtain ⟨x, -, h⟩ := bind_eq_ok.mp h
  obtain ⟨x, -, h⟩ := bind_eq_ok.mp h
  have hfirst : requested.1 = c.floorTo v.decimal := by
    unfold requestedAmount at hrequested
    dsimp only at hrequested
    split_ifs at hrequested
    · rw [← Except.ok.inj hrequested]
    · rw [← Except.ok.inj hrequested]
  have hvalue : ∀ u : LimitNumber, toDouble u.decimal = u.value := fun u => toDouble_shortest u.isDouble
  have hfloor : c.floorTo v.decimal ≤ v.decimal := c.floorTo_le _
  have hpair := Except.ok.inj h
  split_ifs at hpair with hreason
  · -- The request itself.
    obtain ⟨rfl, -⟩ := Prod.mk.inj hpair
    refine ⟨fun hlt => ⟨hlt.le, le_rfl⟩, fun hlt => ⟨hlt.le, ?_⟩⟩
    exact (toDouble_mono hfloor).trans_eq (hvalue v)
  · obtain ⟨rfl, -⟩ := Prod.mk.inj hpair
    rw [Option.elim_some, hfirst]
    unfold KeepsDirection narrowLimitValue
    dsimp only
    by_cases hbetween : c.floorTo v.decimal < s.decimal ∧ s.decimal < v.decimal
    · rw [keepDirection, if_pos hbetween, hvalue s]
      exact ⟨fun hlt => ⟨le_rfl, hlt.le⟩, fun hlt => absurd (decimal_lt_iff.mp hbetween.2) hlt.asymm⟩
    · obtain ⟨hlow, hhigh⟩ := @keepDirection_mem _ _ _ x.1 hbetween
      constructor
      · intro hlt
        have hstored : s.decimal ≤ c.floorTo v.decimal := not_lt.mp fun h => hbetween ⟨h, decimal_lt_iff.mpr hlt⟩
        rw [min_eq_left hstored] at hlow
        rw [max_eq_right hstored] at hhigh
        exact ⟨(hvalue s).symm.trans_le (toDouble_mono hlow),
          (toDouble_mono (hhigh.trans hfloor)).trans_eq (hvalue v)⟩
      · intro hlt
        have hstored : c.floorTo v.decimal ≤ s.decimal := hfloor.trans (decimal_lt_iff.mpr hlt).le
        rw [min_eq_right hstored] at hlow
        rw [max_eq_left hstored] at hhigh
        exact ⟨(toDouble_mono hhigh).trans_eq (hvalue s), toDouble_mono hlow⟩

/-! ## A request that passes -/

/-- As a decimal too it is within the bounds, and what is left is a number that the decimal context holds. -/
def DecimalWithin (c : BoundedComponent) (allocated : ℚ) (stored : Option LimitNumber) (v : LimitNumber) : Prop :=
  (∀ m ∈ c.max?, v.decimal ≤ m) ∧ (∀ m ∈ c.min?, m ≤ v.decimal) ∧
    ∀ cap ∈ c.cap?, (∀ s ∈ stored, s.decimal < v.decimal) → c.Fits (c.floorTo (cap - allocated))

theorem lowerToMax_eq_self (h : (lowerToMax c x).2 = none) : lowerToMax c x = x ∧ ∀ m ∈ c.max?, x.1 ≤ m := by
  rw [← filter_gt_eq_none]
  unfold lowerToMax at h ⊢
  cases hfilter : c.max?.filter fun m => decide (x.1 > m) with
  | some m => rw [hfilter] at h; cases h
  | none => exact ⟨rfl, rfl⟩

theorem raiseToMin_eq_self (h : raiseToMin c x = .ok y) (hy : y.2 = none) : y = x ∧ ∀ m ∈ c.min?, m ≤ x.1 := by
  rw [← filter_lt_eq_none]
  unfold raiseToMin at h
  cases hfilter : c.min?.filter fun m => decide (x.1 < m) with
  | some m =>
    rw [hfilter] at h
    dsimp only at h
    split_ifs at h
    rw [← Except.ok.inj h] at hy
    cases hy
  | none =>
    rw [hfilter] at h
    exact ⟨(Except.ok.inj h).symm, rfl⟩

theorem lowerToCeiling_eq_self (h : lowerToCeiling c allocated stored x = .ok y) (hy : y.2 = none) :
    y = x ∧ ∀ cap ∈ c.cap?, (∀ s ∈ stored, s.decimal < x.1) → c.Fits (c.floorTo (cap - allocated)) := by
  unfold lowerToCeiling at h
  cases hcap : c.cap? with
  | none =>
    rw [hcap] at h
    exact ⟨(Except.ok.inj h).symm, fun _ hmem => nomatch hmem⟩
  | some cap =>
    rw [hcap] at h
    dsimp only at h
    split_ifs at h with hgrows hfits hceiling hnone
    · rw [← Except.ok.inj h] at hy
      cases hy
    · exact ⟨(Except.ok.inj h).symm, fun cap' hcap' _ => Option.some.inj hcap' ▸ hfits⟩
    · exact ⟨(Except.ok.inj h).symm, fun _ _ hall => absurd hall hgrows⟩

/-- The stages of the clamp. -/
theorem clamp_eq_ok : clampLimitValue c allocated stored v = .ok (r, reason) ↔
    ∃ requested x y, requestedAmount c v = .ok requested ∧ raiseToMin c (lowerToMax c requested) = .ok x ∧
      lowerToCeiling c allocated stored x = .ok y ∧ y.2 = reason ∧
      r = if y.2 = none then v else
        narrowLimitValue (stored.elim y.1 fun s => keepDirection s.decimal v.decimal requested.1 y.1) := by
  unfold clampLimitValue
  constructor
  · intro h
    obtain ⟨requested, hrequested, h⟩ := bind_eq_ok.mp h
    obtain ⟨x, hx, h⟩ := bind_eq_ok.mp h
    obtain ⟨y, hy, h⟩ := bind_eq_ok.mp h
    refine ⟨requested, x, y, hrequested, hx, hy, ?_⟩
    have hpair := Except.ok.inj h
    split_ifs at hpair ⊢ with hreason
    · obtain ⟨rfl, rfl⟩ := Prod.mk.inj hpair
      exact ⟨hreason, rfl⟩
    · obtain ⟨rfl, rfl⟩ := Prod.mk.inj hpair
      exact ⟨rfl, rfl⟩
  · rintro ⟨requested, x, y, hrequested, hx, hy, rfl, rfl⟩
    refine bind_eq_ok.mpr ⟨requested, hrequested, bind_eq_ok.mpr ⟨x, hx, bind_eq_ok.mpr ⟨y, hy, ?_⟩⟩⟩
    refine congrArg Except.ok ?_
    split_ifs with hreason
    · rw [hreason]
    · rfl

/-- What a component without a reason to move a request has seen. -/
theorem requested_eq_ok {requested : Clamped} : requestedAmount c v = .ok requested ↔ c.Fits (c.floorTo v.decimal) ∧
    requested = (c.floorTo v.decimal, if c.floorTo v.decimal ≠ v.decimal then some .precision else none) := by
  unfold requestedAmount
  dsimp only
  split_ifs with hfits hne
  · exact ⟨fun h => ⟨hfits, (Except.ok.inj h).symm⟩, fun h => congrArg _ h.2.symm⟩
  · exact ⟨fun h => ⟨hfits, (Except.ok.inj h).symm⟩, fun h => congrArg _ h.2.symm⟩
  · exact iff_of_false nofun fun h => hfits h.1
  · exact iff_of_false nofun fun h => hfits h.1

/-- **A request that passes is returned unchanged** where it is within the bounds as a decimal. -/
theorem clamp_of_passes (h : Passes v c allocated) :
    clampLimitValue c allocated stored v = .ok (v, none) ↔ DecimalWithin c allocated stored v := by
  obtain ⟨⟨hstep, hfits⟩, -, hcap⟩ := passes_iff.mp h
  have hrequested : requestedAmount c v = .ok (v.decimal, none) := by
    refine requested_eq_ok.mpr ⟨hstep.floorTo_eq.symm ▸ hfits, ?_⟩
    rw [hstep.floorTo_eq, if_neg (not_not.mpr rfl)]
  rw [clamp_eq_ok]
  constructor
  · rintro ⟨requested, x, y, hfirst, hx, hy, hreason, -⟩
    obtain rfl := Except.ok.inj (hrequested.symm.trans hfirst)
    obtain ⟨rfl, hceiling⟩ := lowerToCeiling_eq_self hy hreason
    obtain ⟨hxeq, hmin⟩ := raiseToMin_eq_self hx hreason
    obtain ⟨hlow, hmax⟩ := lowerToMax_eq_self (hxeq ▸ hreason)
    rw [hlow] at hxeq hmin
    rw [hxeq] at hceiling
    exact ⟨hmax, hmin, hceiling⟩
  · rintro ⟨hmax, hmin, hroom⟩
    have hlow : lowerToMax c (v.decimal, none) = (v.decimal, none) := by
      unfold lowerToMax
      rw [filter_gt_eq_none.mpr hmax]
    have hraise : raiseToMin c (v.decimal, none) = .ok (v.decimal, none) := by
      unfold raiseToMin
      rw [filter_lt_eq_none.mpr hmin]
    have hceiling : lowerToCeiling c allocated stored (v.decimal, none) = .ok (v.decimal, none) := by
      unfold lowerToCeiling
      cases hcap? : c.cap? with
      | none => rfl
      | some cap =>
        dsimp only
        by_cases hgrows : ∀ s ∈ stored, v.decimal > s.decimal
        · have hlt : v.decimal < cap - allocated := by linarith [hcap cap hcap?]
          rw [if_pos hgrows, if_neg (not_not.mpr (hroom cap hcap? hgrows)),
            if_neg (not_lt.mpr (hstep.le_ceilingOf_iff.mpr hlt))]
        · rw [if_neg hgrows]
    exact ⟨_, _, _, hrequested, hlow.symm ▸ hraise, hceiling, rfl, rfl⟩

/-! ## Without a stored limit -/

/-- The decimals that the component accepts next to what is allocated. -/
structure Acceptable (c : BoundedComponent) (allocated a : ℚ) : Prop where
  onStep : c.OnStep a
  le_max : ∀ m ∈ c.max?, a ≤ m
  min_le : ∀ m ∈ c.min?, m ≤ a
  lt_cap : ∀ cap ∈ c.cap?, allocated + a < cap

/-- The acceptable decimal nearest to the truncated request. -/
def Nearest (c : BoundedComponent) (allocated w a : ℚ) : Prop :=
  Acceptable c allocated a ∧ ∀ b, Acceptable c allocated b → |a - w| ≤ |b - w|

/-- Nothing is left of the offering-wide cap, and the request asks for more than `a` within the maximum. -/
def Exhausted (c : BoundedComponent) (allocated w a : ℚ) : Prop :=
  ∃ cap ∈ c.cap?, cap ≤ allocated ∧ ∃ b, c.OnStep b ∧ a < b ∧ b ≤ w ∧ ∀ m ∈ c.max?, b ≤ m

theorem lowerToMax_cases (c : BoundedComponent) (x : Clamped) :
    (lowerToMax c x = x ∧ ∀ m ∈ c.max?, x.1 ≤ m) ∨
      ∃ m ∈ c.max?, m < x.1 ∧ lowerToMax c x = (c.floorTo m, some .maxValue) := by
  rw [← filter_gt_eq_none]
  unfold lowerToMax
  cases hfilter : c.max?.filter fun m => decide (x.1 > m) with
  | none => exact Or.inl ⟨rfl, rfl⟩
  | some m =>
    obtain ⟨hm, hlt⟩ := Option.filter_eq_some_iff.mp hfilter
    exact Or.inr ⟨m, hm, of_decide_eq_true hlt, rfl⟩

theorem raiseToMin_cases (c : BoundedComponent) (x : Clamped) :
    (raiseToMin c x = .ok x ∧ ∀ m ∈ c.min?, m ≤ x.1) ∨ ∃ m ∈ c.min?, x.1 < m ∧
      ((∃ M ∈ c.max?, M < c.ceilTo m ∧ raiseToMin c x = .error (.refused .minValue)) ∨
        (∀ M ∈ c.max?, c.ceilTo m ≤ M) ∧ raiseToMin c x = .ok (c.ceilTo m, some .minValue)) := by
  rw [← filter_lt_eq_none]
  unfold raiseToMin
  cases hfilter : c.min?.filter fun m => decide (x.1 < m) with
  | none => exact Or.inl ⟨rfl, rfl⟩
  | some m =>
    obtain ⟨hm, hlt⟩ := Option.filter_eq_some_iff.mp hfilter
    refine Or.inr ⟨m, hm, of_decide_eq_true hlt, ?_⟩
    rw [← filter_gt_eq_none]
    dsimp only
    cases hmax : c.max?.filter fun M => decide (c.ceilTo m > M) with
    | none => exact Or.inr ⟨rfl, rfl⟩
    | some M =>
      obtain ⟨hM, hgt⟩ := Option.filter_eq_some_iff.mp hmax
      exact Or.inl ⟨M, hM, of_decide_eq_true hgt, rfl⟩

theorem lowerToCeiling_cases (c : BoundedComponent) (allocated : ℚ) (x : Clamped) :
    (c.cap? = none ∧ lowerToCeiling c allocated none x = .ok x) ∨ ∃ cap ∈ c.cap?,
      (¬ c.Fits (c.floorTo (cap - allocated)) ∧ lowerToCeiling c allocated none x = .error .invalidOperation) ∨
      (x.1 ≤ ceilingOf c (cap - allocated) ∧ lowerToCeiling c allocated none x = .ok x) ∨
      ceilingOf c (cap - allocated) < x.1 ∧
        ((ceilingOf c (cap - allocated) < 0 ∨ ∃ m ∈ c.min?, ceilingOf c (cap - allocated) < m) ∧
            lowerToCeiling c allocated none x = .error (.refused .maxAvailableLimit) ∨
          (0 ≤ ceilingOf c (cap - allocated) ∧ ∀ m ∈ c.min?, m ≤ ceilingOf c (cap - allocated)) ∧
            lowerToCeiling c allocated none x = .ok (ceilingOf c (cap - allocated), some .maxAvailableLimit)) := by
  unfold lowerToCeiling
  cases c.cap? with
  | none => exact Or.inl ⟨rfl, rfl⟩
  | some cap =>
    refine Or.inr ⟨cap, rfl, ?_⟩
    dsimp only
    rw [if_pos (fun s hs => nomatch hs)]
    by_cases hfits : c.Fits (c.floorTo (cap - allocated))
    · rw [if_neg (not_not.mpr hfits)]
      refine Or.inr ?_
      by_cases hle : x.1 ≤ ceilingOf c (cap - allocated)
      · rw [if_neg (not_lt.mpr hle)]
        exact Or.inl ⟨hle, rfl⟩
      · rw [if_pos (not_le.mp hle)]
        refine Or.inr ⟨not_le.mp hle, ?_⟩
        by_cases hrefused : ceilingOf c (cap - allocated) < 0 ∨ ∃ m ∈ c.min?, ceilingOf c (cap - allocated) < m
        · rw [if_pos hrefused]
          exact Or.inl ⟨hrefused, rfl⟩
        · rw [if_neg hrefused]
          rw [not_or, not_lt] at hrefused
          exact Or.inr ⟨⟨hrefused.1, fun m hm => not_lt.mp fun hlt => hrefused.2 ⟨m, hm, hlt⟩⟩, rfl⟩
    · rw [if_pos hfits]
      exact Or.inl ⟨hfits, rfl⟩

/-- What min and max leave of a truncated request: it is within them, and nothing within them is nearer. -/
theorem bounded_spec {ρ : Option ClampReason} (hw : c.OnStep w) (h : raiseToMin c (lowerToMax c (w, ρ)) = .ok y) :
    c.OnStep y.1 ∧ (∀ m ∈ c.max?, y.1 ≤ m) ∧ (∀ m ∈ c.min?, m ≤ y.1) ∧
      (y.1 = w ∨ (y.1 < w ∧ ∀ b, c.OnStep b → (∀ m ∈ c.max?, b ≤ m) → b ≤ y.1) ∨
        (w < y.1 ∧ ∀ b, c.OnStep b → (∀ m ∈ c.min?, m ≤ b) → y.1 ≤ b)) := by
  rcases lowerToMax_cases c (w, ρ) with ⟨hlow, hmax⟩ | ⟨M, hM, hlt, hlow⟩
  · rw [hlow] at h
    rcases raiseToMin_cases c (w, ρ) with ⟨hraise, hmin⟩ | ⟨m, hm, hwm, ⟨M, -, -, hraise⟩ | ⟨hmax', hraise⟩⟩
    · obtain rfl := Except.ok.inj (hraise.symm.trans h)
      exact ⟨hw, hmax, hmin, Or.inl rfl⟩
    · cases hraise.symm.trans h
    · obtain rfl := Except.ok.inj (hraise.symm.trans h)
      refine ⟨c.onStep_ceilTo m, hmax', fun m' hm' => ?_, Or.inr (Or.inr ⟨?_, fun b hb hmin => ?_⟩)⟩
      · exact Option.mem_unique hm hm' ▸ c.le_ceilTo m
      · exact hwm.trans_le (c.le_ceilTo m)
      · exact hb.ceilTo_le_iff.mpr (hmin m hm)
  · rw [hlow] at h
    rcases raiseToMin_cases c (c.floorTo M, some .maxValue) with
      ⟨hraise, hmin⟩ | ⟨m, hm, hwm, ⟨M', -, -, hraise⟩ | ⟨hmax', hraise⟩⟩
    · obtain rfl := Except.ok.inj (hraise.symm.trans h)
      refine ⟨c.onStep_floorTo M, fun M' hM' => ?_, hmin, Or.inr (Or.inl ⟨?_, fun b hb hmax => ?_⟩)⟩
      · exact Option.mem_unique hM hM' ▸ c.floorTo_le M
      · exact (c.floorTo_le M).trans_lt hlt
      · exact hb.le_floorTo_iff.mpr (hmax M hM)
    · cases hraise.symm.trans h
    · -- No step lies between the bounds.
      have hle : c.ceilTo m ≤ c.floorTo M := (c.onStep_ceilTo m).le_floorTo_iff.mpr (hmax' M hM)
      exact absurd (hwm.trans_le (c.le_ceilTo m)) (not_lt.mpr hle)

/-- Min and max refuse a request only where they leave no step. -/
theorem bounded_error {ρ : Option ClampReason} {e : ClampStop} (h : raiseToMin c (lowerToMax c (w, ρ)) = .error e)
    (hb : c.OnStep b) (hmax : ∀ m ∈ c.max?, b ≤ m) (hmin : ∀ m ∈ c.min?, m ≤ b) : False := by
  rcases raiseToMin_cases c (lowerToMax c (w, ρ)) with
    ⟨hraise, -⟩ | ⟨m, hm, -, ⟨M, hM, hlt, -⟩ | ⟨-, hraise⟩⟩
  · cases hraise.symm.trans h
  · exact absurd ((hb.ceilTo_le_iff.mpr (hmin m hm)).trans (hmax M hM)) (not_le.mpr hlt)
  · cases hraise.symm.trans h

/-- Below the ceiling is within the cap. -/
theorem le_ceiling_iff {cap : ℚ} (hb : c.OnStep b) : b ≤ ceilingOf c (cap - allocated) ↔ allocated + b < cap := by
  rw [hb.le_ceilingOf_iff, lt_sub_iff_add_lt']

/-- **The clamp goes to the nearest acceptable decimal**, unless the cap is exhausted. -/
theorem nearest_of_ok {ρ : Option ClampReason} (hw : c.OnStep w) (h : raiseToMin c (lowerToMax c (w, ρ)) = .ok x)
    (hy : lowerToCeiling c allocated none x = .ok y) : Nearest c allocated w y.1 ∧ ¬ Exhausted c allocated w y.1 := by
  obtain ⟨hstep, hmax, hmin, hside⟩ := bounded_spec hw h
  -- What is not lowered to the ceiling.
  have hkept : (∀ cap ∈ c.cap?, allocated + x.1 < cap) → Nearest c allocated w x.1 ∧ ¬ Exhausted c allocated w x.1 := by
    intro hcap
    refine ⟨⟨⟨hstep, hmax, hmin, hcap⟩, fun b hb => ?_⟩, ?_⟩
    · rcases hside with heq | ⟨hlt, hall⟩ | ⟨hlt, hall⟩
      · rw [heq, sub_self, abs_zero]
        exact abs_nonneg _
      · have hle := hall b hb.onStep hb.le_max
        rw [abs_of_neg (sub_neg.mpr hlt), abs_of_neg (sub_neg.mpr (hle.trans_lt hlt))]
        linarith
      · have hle := hall b hb.onStep hb.min_le
        rw [abs_of_pos (sub_pos.mpr hlt), abs_of_pos (sub_pos.mpr (hlt.trans_le hle))]
        linarith
    · rintro ⟨-, -, -, b, hb, hxb, hbw, hbmax⟩
      rcases hside with heq | ⟨-, hall⟩ | ⟨hlt, -⟩
      · exact absurd (heq ▸ hxb) (not_lt.mpr hbw)
      · exact absurd hxb (not_lt.mpr (hall b hb hbmax))
      · exact absurd (hlt.trans hxb) (not_lt.mpr hbw)
  rcases lowerToCeiling_cases c allocated x with
    ⟨hnone, hok⟩ | ⟨cap, hcap, ⟨-, hok⟩ | ⟨hle, hok⟩ | ⟨hlt, ⟨-, hok⟩ | ⟨⟨hzero, hmin'⟩, hok⟩⟩⟩
  · obtain rfl := Except.ok.inj (hok.symm.trans hy)
    exact hkept fun cap hcap => by rw [hnone] at hcap; cases hcap
  · cases hok.symm.trans hy
  · obtain rfl := Except.ok.inj (hok.symm.trans hy)
    exact hkept fun cap' hcap' => Option.mem_unique hcap hcap' ▸ (le_ceiling_iff hstep).mp hle
  · cases hok.symm.trans hy
  · obtain rfl := Except.ok.inj (hok.symm.trans hy)
    have hceiling := c.onStep_ceilingOf (cap - allocated)
    have hroom : allocated + ceilingOf c (cap - allocated) < cap := (le_ceiling_iff hceiling).mp le_rfl
    have hbelow : ceilingOf c (cap - allocated) < w := by
      rcases hside with heq | ⟨hxw, -⟩ | ⟨-, hall⟩
      · exact heq ▸ hlt
      · exact hlt.trans hxw
      · exact absurd hlt (not_lt.mpr (hall _ hceiling hmin'))
    refine ⟨⟨⟨hceiling, fun m hm => hlt.le.trans (hmax m hm), hmin', fun cap' hcap' => ?_⟩, fun b hb => ?_⟩, ?_⟩
    · exact Option.mem_unique hcap hcap' ▸ hroom
    · have hle : b ≤ ceilingOf c (cap - allocated) := (le_ceiling_iff hb.onStep).mpr (hb.lt_cap cap hcap)
      dsimp only
      rw [abs_of_neg (sub_neg.mpr hbelow), abs_of_neg (sub_neg.mpr (hle.trans_lt hbelow))]
      linarith
    · rintro ⟨cap', hcap', hused, -⟩
      obtain rfl := Option.mem_unique hcap hcap'
      linarith

/-- One acceptable decimal is the nearest. -/
theorem Nearest.unique (hw : c.OnStep w) (ha : Nearest c allocated w a) (hb : Nearest c allocated w b) : a = b := by
  have hdist : |a - w| = |b - w| := le_antisymm (ha.2 b hb.1) (hb.2 a ha.1)
  rcases abs_eq_abs.mp hdist with h | h
  · linarith
  · -- On two sides of the request: then the request is acceptable itself.
    have hwithin : Acceptable c allocated w := by
      rcases le_total a b with hab | hab
      · refine ⟨hw, fun m hm => ?_, fun m hm => ?_, fun cap hcap => ?_⟩
        · linarith [hb.1.le_max m hm]
        · linarith [ha.1.min_le m hm]
        · linarith [hb.1.lt_cap cap hcap]
      · refine ⟨hw, fun m hm => ?_, fun m hm => ?_, fun cap hcap => ?_⟩
        · linarith [ha.1.le_max m hm]
        · linarith [hb.1.min_le m hm]
        · linarith [ha.1.lt_cap cap hcap]
    have hzero : |a - w| ≤ 0 := by
      refine (ha.2 w hwithin).trans_eq ?_
      rw [sub_self, abs_zero]
    have haw : a - w = 0 := abs_nonpos_iff.mp hzero
    linarith

/-- What the clamp returns without a stored limit is the double nearest to what it went to. -/
theorem clamp_none_stages (h : clampLimitValue c allocated none v = .ok (r, reason)) : ∃ ρ x y,
    c.Fits (c.floorTo v.decimal) ∧ raiseToMin c (lowerToMax c (c.floorTo v.decimal, ρ)) = .ok x ∧
      lowerToCeiling c allocated none x = .ok y ∧ r = narrowLimitValue y.1 := by
  obtain ⟨requested, x, y, hfirst, hx, hy, rfl, rfl⟩ := clamp_eq_ok.mp h
  obtain ⟨hfits, rfl⟩ := requested_eq_ok.mp hfirst
  refine ⟨_, x, y, hfits, hx, hy, ?_⟩
  by_cases hreason : y.2 = none
  · -- Nothing has moved the request.
    rw [if_pos hreason]
    obtain ⟨rfl, -⟩ := lowerToCeiling_eq_self hy hreason
    obtain ⟨hxeq, -⟩ := raiseToMin_eq_self hx hreason
    obtain ⟨hlow, -⟩ := lowerToMax_eq_self (hxeq ▸ hreason)
    rw [hlow] at hxeq
    rw [hxeq] at hreason ⊢
    dsimp only at hreason ⊢
    have heq : c.floorTo v.decimal = v.decimal := by
      by_contra hne
      rw [if_pos hne] at hreason
      cases hreason
    rw [heq, narrow_decimal]
  · rw [if_neg hreason]
    rfl

/-- **Without a stored limit the clamp returns the nearest acceptable limit.** -/
theorem clamp_nearest (h : clampLimitValue c allocated none v = .ok (r, reason)) :
    ∃ a, Nearest c allocated (c.floorTo v.decimal) a ∧ ¬ Exhausted c allocated (c.floorTo v.decimal) a ∧
      r = narrowLimitValue a := by
  obtain ⟨ρ, x, y, -, hx, hy, hr⟩ := clamp_none_stages h
  obtain ⟨hnearest, hroom⟩ := nearest_of_ok (c.onStep_floorTo _) hx hy
  exact ⟨y.1, hnearest, hroom, hr⟩

/-- **Where the capacity fits and is not exhausted, the clamp returns a limit.** -/
theorem clamp_of_nearest (hfits : c.Fits (c.floorTo v.decimal))
    (hroom : ∀ cap ∈ c.cap?, c.Fits (c.floorTo (cap - allocated))) (ha : Nearest c allocated (c.floorTo v.decimal) a)
    (hleft : ¬ Exhausted c allocated (c.floorTo v.decimal) a) :
    ∃ reason, clampLimitValue c allocated none v = .ok (narrowLimitValue a, reason) := by
  have hok : ∃ r reason, clampLimitValue c allocated none v = .ok (r, reason) := by
    cases hx : raiseToMin c (lowerToMax c (c.floorTo v.decimal,
      if c.floorTo v.decimal ≠ v.decimal then some .precision else none)) with
    | error e => exact (bounded_error hx ha.1.onStep ha.1.le_max ha.1.min_le).elim
    | ok x =>
      obtain ⟨hstep, hmax, -, hside⟩ := bounded_spec (c.onStep_floorTo _) hx
      have hdone : ∀ y, lowerToCeiling c allocated none x = .ok y →
          ∃ r reason, clampLimitValue c allocated none v = .ok (r, reason) := fun y hy =>
        ⟨_, _, clamp_eq_ok.mpr ⟨_, x, y, requested_eq_ok.mpr ⟨hfits, rfl⟩, hx, hy, rfl, rfl⟩⟩
      rcases lowerToCeiling_cases c allocated x with
        ⟨-, hy⟩ | ⟨cap, hcap, ⟨hnot, -⟩ | ⟨-, hy⟩ | ⟨hlt, ⟨hrefused, -⟩ | ⟨-, hy⟩⟩⟩
      · exact hdone _ hy
      · exact absurd (hroom cap hcap) hnot
      · exact hdone _ hy
      · -- A refusal: the ceiling leaves nothing acceptable, or nothing is left of the cap.
        have hle : a ≤ ceilingOf c (cap - allocated) := (le_ceiling_iff ha.1.onStep).mpr (ha.1.lt_cap cap hcap)
        rcases hrefused with hneg | ⟨m, hm, hmin⟩
        · refine absurd ⟨cap, hcap, ?_, x.1, hstep, hle.trans_lt hlt, ?_, hmax⟩ hleft
          · by_contra hused
            have hzero := (le_ceiling_iff c.onStep_zero).mpr (by linarith [not_le.mp hused] : allocated + 0 < cap)
            exact absurd hneg (not_lt.mpr hzero)
          · rcases hside with heq | ⟨hxw, -⟩ | ⟨-, hall⟩
            · exact heq.le
            · exact hxw.le
            · exact absurd (hall a ha.1.onStep ha.1.min_le) (not_le.mpr (hle.trans_lt hlt))
        · exact absurd (ha.1.min_le m hm) (not_le.mpr (hle.trans_lt hmin))
      · exact hdone _ hy
  obtain ⟨r, reason, hr⟩ := hok
  obtain ⟨a', ha', -, rfl⟩ := clamp_nearest hr
  exact ⟨reason, ha.unique (c.onStep_floorTo _) ha' ▸ hr⟩

/-! ## What a double keeps of a decimal -/

/-- As a double too it is within the bounds, and as that double's decimal within the cap. -/
structure Survives (c : BoundedComponent) (allocated a : ℚ) : Prop where
  le_max : ∀ m ∈ c.max?, toDouble a ≤ m
  min_le : ∀ m ∈ c.min?, m ≤ toDouble a
  lt_cap : ∀ cap ∈ c.cap?, allocated + shortest (toDouble a) < cap

theorem narrow_onStep (ha : c.OnStep a) : c.OnStep (narrowLimitValue a).decimal :=
  hasPlaces_shortest ha rfl (by have := c.places_le; omega)

theorem fits_of_abs_le (h : |a| ≤ 2 * 10 ^ 18) : c.Fits a := by
  have hscale : (10 : ℚ) ^ c.limitDecimalPlaces ≤ 10 ^ 2 := pow_le_pow_right₀ (by norm_num) c.places_le
  rw [BoundedComponent.Fits, abs_mul, abs_of_pos c.scale_pos]
  calc |a| * 10 ^ c.limitDecimalPlaces ≤ (2 * 10 ^ 18) * 10 ^ 2 := mul_le_mul h hscale c.scale_pos.le (by norm_num)
    _ < 10 ^ 28 := by norm_num

theorem fits_of_between (hzero : 0 ≤ a) (hab : a ≤ b) (hb : c.Fits b) : c.Fits a := by
  unfold BoundedComponent.Fits at hb ⊢
  rw [abs_of_nonneg (mul_nonneg (hzero.trans hab) c.scale_pos.le)] at hb
  rw [abs_of_nonneg (mul_nonneg hzero c.scale_pos.le)]
  exact (mul_le_mul_of_nonneg_right hab c.scale_pos.le).trans_lt hb

/-- The decimal of a rounded number stays between integers that are doubles. -/
theorem narrow_decimal_le {n : ℤ} (hn : IsDouble (n : ℚ)) (h : a ≤ n) : (narrowLimitValue a).decimal ≤ n := by
  have hself := toDouble_of_isDouble hn
  refine le_of_le_of_eq ?_ (shortest_intCast hself)
  exact (shortest_le_iff (toDouble_toDouble a) hself).mpr ((toDouble_mono h).trans_eq hself)

theorem le_narrow_decimal {n : ℤ} (hn : IsDouble (n : ℚ)) (h : n ≤ a) : n ≤ (narrowLimitValue a).decimal := by
  have hself := toDouble_of_isDouble hn
  refine le_of_eq_of_le (shortest_intCast hself).symm ?_
  exact (shortest_le_iff hself (toDouble_toDouble a)).mpr (hself.symm.trans_le (toDouble_mono h))

theorem narrow_decimal_abs_le (h : |a| ≤ 2 * 10 ^ 18) : |(narrowLimitValue a).decimal| ≤ 2 * 10 ^ 18 := by
  obtain ⟨hlow, hhigh⟩ := abs_le.mp h
  have hpos : IsDouble ((2 * 10 ^ 18 : ℤ) : ℚ) := ⟨5 ^ 18, 19, by norm_num, by norm_num, by norm_num⟩
  have hneg : IsDouble ((-(2 * 10 ^ 18) : ℤ) : ℚ) := ⟨-5 ^ 18, 19, by norm_num, by norm_num, by norm_num⟩
  have hcast : ((2 * 10 ^ 18 : ℤ) : ℚ) = 2 * 10 ^ 18 := by norm_num
  have hcast' : ((-(2 * 10 ^ 18) : ℤ) : ℚ) = -(2 * 10 ^ 18) := by norm_num
  exact abs_le.mpr ⟨hcast'.symm.trans_le (le_narrow_decimal hneg (hcast'.trans_le hlow)),
    (narrow_decimal_le hpos (hhigh.trans_eq hcast.symm)).trans_eq hcast⟩

/-- A truncated request is moderate, or the request itself. -/
theorem floorTo_moderate (v : LimitNumber) : |c.floorTo v.decimal| ≤ 2 * 10 ^ 18 ∨ c.floorTo v.decimal = v.decimal := by
  rcases (isDouble_iff.mpr v.isDouble).isInt_or_lt with ⟨n, hn⟩ | hlt
  · refine Or.inr (BoundedComponent.OnStep.floorTo_eq ?_)
    have hself : v.decimal = n := by
      rw [LimitNumber.decimal, hn]
      exact shortest_intCast (hn ▸ v.isDouble)
    exact HasPlaces.mono ⟨n, by rw [hself, pow_zero, div_one]⟩ (Nat.zero_le _)
  · refine Or.inl ?_
    obtain ⟨hlow, hhigh⟩ := abs_le.mp hlt.le
    have hdecimal : -2 ^ 53 ≤ v.decimal ∧ v.decimal ≤ 2 ^ 53 := by
      have hup := narrow_decimal_le (a := v.value) (n := 2 ^ 53) ⟨2 ^ 53, 0, by norm_num, by norm_num, by norm_num⟩
        (by push_cast; exact hhigh)
      have hdown := le_narrow_decimal (a := v.value) (n := -2 ^ 53) ⟨-2 ^ 53, 0, by norm_num, by norm_num, by norm_num⟩
        (by push_cast; exact hlow)
      have hself : narrowLimitValue v.value = v := LimitNumber.ext v.isDouble
      rw [hself] at hup hdown
      push_cast at hup hdown
      exact ⟨hdown, hup⟩
    have hstep : c.step ≤ 1 := by
      rw [BoundedComponent.step, div_le_one c.scale_pos]
      exact one_le_pow₀ (by norm_num)
    have hbelow := c.lt_floorTo_add v.decimal
    have habove := c.floorTo_le v.decimal
    rw [abs_le]
    constructor <;> linarith [hdecimal.1, hdecimal.2]

theorem bound_abs_lt (b : LimitBound) : |b.value| < 10 ^ 18 := by
  have h : |(b.hundredths : ℚ)| < 10 ^ 20 := by
    rw [← Int.cast_abs]
    exact_mod_cast b.digits
  rw [LimitBound.value, abs_div, div_lt_iff₀ (by norm_num)]
  norm_num at h ⊢
  exact h

theorem max_abs_lt {m : ℚ} (hm : m ∈ c.max?) : |m| < 10 ^ 18 := by
  obtain ⟨hm, -⟩ := Option.filter_eq_some_iff.mp hm
  obtain ⟨b, -, rfl⟩ := Option.map_eq_some_iff.mp hm
  exact bound_abs_lt b

theorem min_abs_lt {m : ℚ} (hm : m ∈ c.min?) : |m| < 10 ^ 18 := by
  obtain ⟨b, -, rfl⟩ := Option.map_eq_some_iff.mp hm
  exact bound_abs_lt b

/-- What min and max leave of a request is moderate, or the request itself. -/
theorem bounded_moderate {ρ : Option ClampReason}
    (h : raiseToMin c (lowerToMax c (c.floorTo v.decimal, ρ)) = .ok y) : |y.1| ≤ 2 * 10 ^ 18 ∨ y.1 = v.decimal := by
  have hstep : c.step ≤ 1 := by
    rw [BoundedComponent.step, div_le_one c.scale_pos]
    exact one_le_pow₀ (by norm_num)
  have hlow : |(lowerToMax c (c.floorTo v.decimal, ρ)).1| ≤ 2 * 10 ^ 18 ∨
      (lowerToMax c (c.floorTo v.decimal, ρ)).1 = v.decimal := by
    rcases lowerToMax_cases c (c.floorTo v.decimal, ρ) with ⟨heq, -⟩ | ⟨M, hM, -, heq⟩
    · rw [heq]
      exact floorTo_moderate v
    · rw [heq]
      obtain ⟨hdown, hup⟩ := abs_lt.mp (max_abs_lt hM)
      refine Or.inl (abs_le.mpr ?_)
      constructor <;> linarith [c.floorTo_le M, c.lt_floorTo_add M]
  rcases raiseToMin_cases c (lowerToMax c (c.floorTo v.decimal, ρ)) with
    ⟨hraise, -⟩ | ⟨m, hm, -, ⟨M, -, -, hraise⟩ | ⟨-, hraise⟩⟩
  · obtain rfl := Except.ok.inj (hraise.symm.trans h)
    exact hlow
  · cases hraise.symm.trans h
  · obtain rfl := Except.ok.inj (hraise.symm.trans h)
    obtain ⟨hdown, hup⟩ := abs_lt.mp (min_abs_lt hm)
    refine Or.inl (abs_le.mpr ?_)
    constructor <;> linarith [c.le_ceilTo m, c.ceilTo_lt_add m]

/-- What the clamp returns has no more digits than the decimal context. -/
theorem clamp_fits (h : clampLimitValue c allocated none v = .ok (r, reason)) : c.Fits r.decimal := by
  obtain ⟨ρ, x, y, hfits, hx, hy, rfl⟩ := clamp_none_stages h
  have hmoderate := bounded_moderate hx
  have hrequest : x.1 = v.decimal → c.Fits v.decimal := by
    intro heq
    have hstep : c.OnStep v.decimal := heq ▸ (bounded_spec (c.onStep_floorTo _) hx).1
    exact hstep.floorTo_eq ▸ hfits
  have hkept : c.Fits (narrowLimitValue x.1).decimal := by
    rcases hmoderate with hle | heq
    · exact fits_of_abs_le (narrow_decimal_abs_le hle)
    · rw [heq, narrow_decimal]
      exact hrequest heq
  rcases lowerToCeiling_cases c allocated x with
    ⟨-, hok⟩ | ⟨cap, -, ⟨-, hok⟩ | ⟨-, hok⟩ | ⟨hlt, ⟨-, hok⟩ | ⟨⟨hzero, -⟩, hok⟩⟩⟩
  · obtain rfl := Except.ok.inj (hok.symm.trans hy)
    exact hkept
  · cases hok.symm.trans hy
  · obtain rfl := Except.ok.inj (hok.symm.trans hy)
    exact hkept
  · cases hok.symm.trans hy
  · obtain rfl := Except.ok.inj (hok.symm.trans hy)
    have hnonneg : ((0 : ℤ) : ℚ) ≤ (narrowLimitValue (ceilingOf c (cap - allocated))).decimal :=
      le_narrow_decimal ⟨0, 0, by norm_num, by norm_num, by norm_num⟩ (by rw [Int.cast_zero]; exact hzero)
    rw [Int.cast_zero] at hnonneg
    exact fits_of_between hnonneg (decimal_le_iff.mpr (toDouble_mono hlt.le)) hkept

/-! ## Narrowing without reversing -/

/-- What `clamp_limit_value` promises: with a stored limit it keeps to the direction of the request, without one it
returns a limit that the validators accept; and it leaves a request alone that they accept. -/
def Narrows (c : BoundedComponent) (allocated : ℚ) (stored : Option LimitNumber) (v : LimitNumber) : Prop :=
  (∀ r reason, clampLimitValue c allocated stored v = .ok (r, reason) →
    (∀ s, stored = some s → KeepsDirection c v s r) ∧ (stored = none → Passes r c allocated)) ∧
  (Passes v c allocated → clampLimitValue c allocated stored v = .ok (v, none))

/-- The nearest acceptable decimal keeps its side of the bounds as a double, unless the clamp does not get to it: a
request or a rest of the cap that the decimal context does not hold, or an exhausted cap. -/
def NearestSurvives (c : BoundedComponent) (allocated : ℚ) (v : LimitNumber) : Prop :=
  c.Fits (c.floorTo v.decimal) → (∀ cap ∈ c.cap?, c.Fits (c.floorTo (cap - allocated))) →
    ∀ a, Nearest c allocated (c.floorTo v.decimal) a → ¬ Exhausted c allocated (c.floorTo v.decimal) a →
      Survives c allocated a

/-- The rest of a cap that the clamp has read. -/
theorem clamp_rest_fits (h : clampLimitValue c allocated none v = .ok (r, reason)) :
    c.Fits (c.floorTo v.decimal) ∧ ∀ cap ∈ c.cap?, c.Fits (c.floorTo (cap - allocated)) := by
  obtain ⟨ρ, x, y, hfits, -, hy, -⟩ := clamp_none_stages h
  refine ⟨hfits, fun cap hcap => ?_⟩
  by_contra hnot
  have herror : lowerToCeiling c allocated none x = .error .invalidOperation := by
    unfold lowerToCeiling
    rw [Option.mem_def.mp hcap]
    dsimp only
    rw [if_pos (fun s hs => nomatch hs), if_pos hnot]
  cases herror.symm.trans hy

/-- **What the clamp returns passes exactly where the nearest acceptable decimal survives as a double.** -/
theorem clamp_passes_iff : (∀ r reason, clampLimitValue c allocated none v = .ok (r, reason) → Passes r c allocated) ↔
    NearestSurvives c allocated v := by
  constructor
  · intro h hfits hroom a ha hleft
    obtain ⟨reason, hok⟩ := clamp_of_nearest hfits hroom ha hleft
    obtain ⟨-, ⟨hmax, hmin⟩, hcap⟩ := passes_iff.mp (h _ _ hok)
    exact ⟨hmax, hmin, hcap⟩
  · intro h r reason hok
    obtain ⟨a, ha, hleft, rfl⟩ := clamp_nearest hok
    obtain ⟨hfits, hroom⟩ := clamp_rest_fits hok
    have hsurvives := h hfits hroom a ha hleft
    exact passes_iff.mpr
      ⟨⟨narrow_onStep ha.1.onStep, clamp_fits hok⟩, ⟨hsurvives.le_max, hsurvives.min_le⟩, hsurvives.lt_cap⟩

/-- **Whole bounds agree**: doubles and decimals are on the same side of whole numbers up to 2 ^ 53, so that only
fractional bounds and the offering-wide cap can go wrong. -/
theorem agree_of_whole (hmax : ∀ m ∈ c.max?, ∃ n : ℤ, |n| ≤ 2 ^ 53 ∧ m = n)
    (hmin : ∀ m ∈ c.min?, ∃ n : ℤ, |n| ≤ 2 ^ 53 ∧ m = n) (hcap : c.cap? = none) :
    NearestSurvives c allocated v ∧ (Passes v c allocated → DecimalWithin c allocated stored v) := by
  have hnone : ∀ cap ∈ c.cap?, False := fun cap hmem => by rw [hcap] at hmem; cases hmem
  constructor
  · refine fun _ _ a ha _ => ⟨fun m hm => ?_, fun m hm => ?_, fun cap hmem => (hnone cap hmem).elim⟩
    · obtain ⟨n, hn, rfl⟩ := hmax m hm
      exact (toDouble_mono (ha.1.le_max _ hm)).trans_eq (toDouble_of_isDouble (isDouble_intCast hn))
    · obtain ⟨n, hn, rfl⟩ := hmin m hm
      exact (toDouble_of_isDouble (isDouble_intCast hn)).symm.trans_le (toDouble_mono (ha.1.min_le _ hm))
  · intro h
    obtain ⟨-, ⟨hle, hge⟩, -⟩ := passes_iff.mp h
    refine ⟨fun m hm => ?_, fun m hm => ?_, fun cap hmem => (hnone cap hmem).elim⟩
    · obtain ⟨n, hn, rfl⟩ := hmax m hm
      have hself := toDouble_of_isDouble (isDouble_intCast hn)
      exact ((shortest_le_iff v.isDouble hself).mpr (hle _ hm)).trans_eq (shortest_intCast hself)
    · obtain ⟨n, hn, rfl⟩ := hmin m hm
      have hself := toDouble_of_isDouble (isDouble_intCast hn)
      exact (shortest_intCast hself).symm.trans_le ((shortest_le_iff hself v.isDouble).mpr (hge _ hm))

end Checks

/-- **Clamping narrows without reversing, exactly where doubles and decimals agree about the bounds**: without a stored
limit the acceptable decimal nearest to the request stays within them as a double; and a request that passes the
validators is within them as a decimal. -/
theorem narrows_iff (c : BoundedComponent) (allocated : ℚ) (stored : Option LimitNumber) (v : LimitNumber) :
    Narrows c allocated stored v ↔ (stored = none → NearestSurvives c allocated v) ∧
      (Passes v c allocated → DecimalWithin c allocated stored v) := by
  unfold Narrows
  refine and_congr ?_ (forall_congr' clamp_of_passes)
  cases stored with
  | none =>
    rw [← clamp_passes_iff]
    exact ⟨fun h _ r reason hok => (h r reason hok).2 rfl, fun h r reason hok => ⟨nofun, fun _ => h rfl r reason hok⟩⟩
  | some s =>
    refine iff_of_true (fun r reason hok => ⟨fun s' hs' => ?_, nofun⟩) nofun
    obtain rfl := Option.some.inj hs'
    exact clamp_directed hok

section Sample

/-- At most 0.10, in steps of 0.1. -/
def atMostTenth : BoundedComponent where
  type := "gpu"
  limitDecimalPlaces := 1
  places_le := by decide
  maxValue := some ⟨10, by decide⟩
  minValue := none
  maxAvailableLimit := none

def five : LimitNumber := ⟨5, toDouble_of_isDouble ⟨5, 0, by norm_num, by norm_num, by norm_num⟩⟩

theorem five_decimal : five.decimal = 5 := by
  have h : shortest ((5 : ℤ) : ℚ) = ((5 : ℤ) : ℚ) := shortest_intCast (by exact_mod_cast five.isDouble)
  exact_mod_cast h

/-- The double nearest to 0.1 is more than 0.1. -/
theorem tenth_lt_toDouble : (1 / 10 : ℚ) < toDouble (1 / 10) := by
  have hdouble : toDouble (1 / 10) = roundEven (1 / 10 / 2 ^ (-56 : ℤ)) * 2 ^ (-56 : ℤ) :=
    toDouble_eq (by norm_num) (by norm_num) (by norm_num)
  have hround : roundEven (1 / 10 / 2 ^ (-56 : ℤ)) = 7205759403792794 := by
    have hscaled : (1 / 10 / 2 ^ (-56 : ℤ) : ℚ) = 36028797018963968 / 5 := by norm_num
    rw [hscaled]
    decide +kernel
  rw [hdouble, hround]
  norm_num

/-- A request for 5 is clamped to 0.1, and the validator refuses 0.1 as more than 0.10. -/
theorem tenth_refused : ¬ Narrows atMostTenth 0 none five := by
  have hmax : atMostTenth.max? = some (1 / 10) := by decide +kernel
  have hstep : atMostTenth.OnStep (1 / 10) := ⟨1, by norm_num [atMostTenth]⟩
  have hfive : atMostTenth.floorTo five.decimal = 5 := by
    rw [five_decimal]
    decide +kernel
  have hclamp : clampLimitValue atMostTenth 0 none five = .ok (narrowLimitValue (1 / 10), some .maxValue) := by
    refine clamp_eq_ok.mpr ⟨(5, none), (1 / 10, some .maxValue), (1 / 10, some .maxValue), ?_, ?_, rfl, rfl, rfl⟩
    · refine requested_eq_ok.mpr ⟨?_, ?_⟩
      · rw [hfive]
        decide +kernel
      · rw [hfive, five_decimal, if_neg (not_not.mpr rfl)]
    · have hlow : lowerToMax atMostTenth (5, none) = (1 / 10, some .maxValue) := by
        unfold lowerToMax
        rw [hmax]
        decide +kernel
      rw [hlow]
      rfl
  intro h
  obtain ⟨-, ⟨hle, -⟩, -⟩ := passes_iff.mp ((h.1 _ _ hclamp).2 rfl)
  exact absurd (hle _ hmax) (not_le.mpr tenth_lt_toDouble)

end Sample

end Waldur.Marketplace
