import Mathlib

/-!
# Decimal — rounding of exact decimals

Decimals are rationals, so that sums and products are exact; only an explicit `quantize` rounds.
`quantizeUp n` is the mode that rounds away from zero to `n` places, `quantizeHalfEven n` the default mode.
-/

namespace Decimal

/-- Round away from zero to `n` places. -/
def quantizeUp (n : ℕ) (x : ℚ) : ℚ :=
  if 0 ≤ x then (⌈x * 10 ^ n⌉ : ℚ) / 10 ^ n else -((⌈-x * 10 ^ n⌉ : ℚ) / 10 ^ n)

/-- Round to the nearest, and to an even digit from halfway, to `n` places. -/
def quantizeHalfEven (n : ℕ) (x : ℚ) : ℚ :=
  let scaled := x * 10 ^ n
  let rest := scaled - ⌊scaled⌋
  let digits := if rest < 1 / 2 ∨ (rest = 1 / 2 ∧ ⌊scaled⌋ % 2 = 0) then ⌊scaled⌋ else ⌊scaled⌋ + 1
  (digits : ℚ) / 10 ^ n

/-- Rounding to the nearest moves by at most half a unit of the last place. -/
theorem abs_quantizeHalfEven_sub_le (n : ℕ) (x : ℚ) : |quantizeHalfEven n x - x| ≤ 1 / 2 / 10 ^ n := by
  have hp : (0 : ℚ) < 10 ^ n := by positivity
  have hfloor := Int.floor_le (x * 10 ^ n)
  have hceil := Int.lt_floor_add_one (x * 10 ^ n)
  have hscaled : ∀ d : ℤ, |(d : ℚ) - x * 10 ^ n| ≤ 1 / 2 → |(d : ℚ) / 10 ^ n - x| ≤ 1 / 2 / 10 ^ n := by
    intro d hd
    rw [show (d : ℚ) / 10 ^ n - x = (d - x * 10 ^ n) / 10 ^ n by rw [sub_div, mul_div_cancel_right₀ _ hp.ne'],
      abs_div, abs_of_pos hp]
    exact div_le_div_of_nonneg_right hd hp.le
  unfold quantizeHalfEven
  dsimp only
  split_ifs with h
  · refine hscaled _ (abs_le.mpr ⟨?_, by linarith⟩)
    rcases h with h | h
    · linarith
    · linarith [h.1]
  · rw [not_or] at h
    refine hscaled _ (abs_le.mpr ⟨?_, ?_⟩)
    · push_cast
      linarith
    · push_cast
      linarith [not_lt.mp h.1]

theorem le_quantizeUp {n : ℕ} {x : ℚ} (hx : 0 ≤ x) : x ≤ quantizeUp n x := by
  have hp : (0 : ℚ) < 10 ^ n := by positivity
  rw [quantizeUp, if_pos hx, le_div_iff₀ hp]
  exact Int.le_ceil _

theorem quantizeUp_nonneg {n : ℕ} {x : ℚ} (hx : 0 ≤ x) : 0 ≤ quantizeUp n x :=
  hx.trans (le_quantizeUp hx)

theorem quantizeUp_neg {n : ℕ} {x : ℚ} (hx : x < 0) : quantizeUp n x < 0 := by
  have hp : (0 : ℚ) < 10 ^ n := by positivity
  rw [quantizeUp, if_neg (not_le.mpr hx), neg_lt_zero]
  have h : (0 : ℤ) < ⌈-x * 10 ^ n⌉ := Int.ceil_pos.mpr (mul_pos (neg_pos.mpr hx) hp)
  have h' : (0 : ℚ) < ⌈-x * 10 ^ n⌉ := by exact_mod_cast h
  positivity

theorem quantizeUp_mono {n : ℕ} {x y : ℚ} (hx : 0 ≤ x) (hxy : x ≤ y) : quantizeUp n x ≤ quantizeUp n y := by
  have hp : (0 : ℚ) < 10 ^ n := by positivity
  rw [quantizeUp, if_pos hx, quantizeUp, if_pos (hx.trans hxy)]
  have hceil : ⌈x * 10 ^ n⌉ ≤ ⌈y * 10 ^ n⌉ := Int.ceil_le_ceil (mul_le_mul_of_nonneg_right hxy hp.le)
  exact div_le_div_of_nonneg_right (Int.cast_le.mpr hceil) hp.le

/-- Both signs are rounded away from zero. -/
theorem quantizeUp_neg_eq (n : ℕ) (x : ℚ) : quantizeUp n (-x) = -quantizeUp n x := by
  unfold quantizeUp
  rcases lt_trichotomy x 0 with hx | rfl | hx
  · rw [if_pos (neg_nonneg.mpr hx.le), if_neg (not_le.mpr hx), neg_neg]
  · simp
  · rw [if_neg (not_le.mpr (neg_lt_zero.mpr hx)), if_pos hx.le, neg_neg]

/-- What is rounded once is not rounded again. -/
theorem quantizeUp_quantizeUp (n : ℕ) (x : ℚ) : quantizeUp n (quantizeUp n x) = quantizeUp n x := by
  have hp : (0 : ℚ) < 10 ^ n := by positivity
  by_cases hx : 0 ≤ x
  · have hq : quantizeUp n x = (⌈x * 10 ^ n⌉ : ℚ) / 10 ^ n := if_pos hx
    have hscale : quantizeUp n x * 10 ^ n = (⌈x * 10 ^ n⌉ : ℚ) := by rw [hq, div_mul_cancel₀ _ hp.ne']
    rw [quantizeUp.eq_1 n (quantizeUp n x), if_pos (quantizeUp_nonneg hx), hscale, Int.ceil_intCast, hq]
  · have hq : quantizeUp n x = -((⌈-x * 10 ^ n⌉ : ℚ) / 10 ^ n) := if_neg hx
    have hscale : -quantizeUp n x * 10 ^ n = (⌈-x * 10 ^ n⌉ : ℚ) := by rw [hq, neg_neg, div_mul_cancel₀ _ hp.ne']
    rw [quantizeUp.eq_1 n (quantizeUp n x), if_neg (not_le.mpr (quantizeUp_neg (not_le.mp hx))), hscale,
      Int.ceil_intCast, hq]

/-- What is rounded up to 1.00. -/
theorem quantizeUp_two_eq_one {x : ℚ} : quantizeUp 2 x = 1 ↔ 99 / 100 < x ∧ x ≤ 1 := by
  by_cases hx : 0 ≤ x
  · have hq : quantizeUp 2 x = (⌈x * 10 ^ 2⌉ : ℚ) / 10 ^ 2 := if_pos hx
    have hceil : quantizeUp 2 x = 1 ↔ ⌈x * 10 ^ 2⌉ = 100 := by
      rw [hq, div_eq_one_iff_eq (by norm_num)]
      norm_num
      exact_mod_cast Iff.rfl
    rw [hceil, Int.ceil_eq_iff]
    constructor
    · rintro ⟨hlt, hle⟩
      norm_num at hlt hle
      constructor <;> linarith
    · rintro ⟨hlt, hle⟩
      norm_num
      constructor <;> linarith
  · have hneg := quantizeUp_neg (n := 2) (not_le.mp hx)
    exact iff_of_false (by linarith) (fun h => hx (by linarith [h.1]))

end Decimal
