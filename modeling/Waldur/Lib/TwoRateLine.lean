import Mathlib

/-!
# TwoRateLine — the first time at which a quantity that grows at two rates reaches a goal

A quantity rises at a slow rate until a switch and at a fast rate from then on; without a switch it rises at
the slow rate for ever.  The rates are not negative, so the times at which a goal is reached are the times from
a first one on, which the lemmas below compute, or there are none.
-/

namespace TwoRateLine

variable {K : Type} [Field K] [LinearOrder K]

/-- What has been gained after a time. -/
def rise (slow fast : K) (switch : Option K) (t : K) : K :=
  match switch with
  | none => slow * t
  | some s => slow * min t s + fast * max 0 (t - s)

/-- The first time, from now on, at which the goal is reached. -/
def FirstReached (slow fast : K) (switch : Option K) (goal t : K) : Prop :=
  IsLeast {t | 0 ≤ t ∧ goal ≤ rise slow fast switch t} t

theorem FirstReached.unique {slow fast goal t t' : K} {switch : Option K}
    (h : FirstReached slow fast switch goal t) (h' : FirstReached slow fast switch goal t') : t = t' :=
  IsLeast.unique h h'

/-- Without a slow rate and without a switch nothing is ever gained. -/
theorem not_reached_of_no_switch {fast goal t : K} (hgoal : 0 < goal) : ¬ FirstReached 0 fast none goal t := by
  rintro ⟨⟨-, hrise⟩, -⟩
  have hnone : rise 0 fast none t = 0 := zero_mul t
  rw [hnone] at hrise
  exact absurd hgoal (not_lt.mpr hrise)

variable [IsStrictOrderedRing K] {slow fast goal s t : K} {switch : Option K}

theorem rise_of_le (h : ∀ s ∈ switch, t ≤ s) : rise slow fast switch t = slow * t := by
  cases switch with
  | none => rfl
  | some s =>
    have hle : t ≤ s := h s rfl
    show slow * min t s + fast * max 0 (t - s) = slow * t
    rw [min_eq_left hle, max_eq_left (sub_nonpos.mpr hle), mul_zero, add_zero]

theorem rise_of_ge (h : s ≤ t) : rise slow fast (some s) t = slow * s + fast * (t - s) := by
  show slow * min t s + fast * max 0 (t - s) = _
  rw [min_eq_right h, max_eq_right (sub_nonneg.mpr h)]

/-- A goal that needs no gain is reached now. -/
theorem firstReached_zero (hswitch : ∀ s ∈ switch, 0 ≤ s) (h : goal ≤ 0) :
    FirstReached slow fast switch goal 0 := by
  refine ⟨⟨le_refl 0, ?_⟩, fun t ht => ht.1⟩
  rw [rise_of_le hswitch, mul_zero]
  exact h

/-- A goal within the slow phase. -/
theorem firstReached_slow (hslow : 0 < slow) (hgoal : 0 ≤ goal) (hswitch : ∀ s ∈ switch, goal ≤ slow * s) :
    FirstReached slow fast switch goal (goal / slow) := by
  have hbefore : ∀ s ∈ switch, goal / slow ≤ s := fun s hs => (div_le_iff₀' hslow).mpr (hswitch s hs)
  refine ⟨⟨div_nonneg hgoal hslow.le, ?_⟩, fun t ht => ?_⟩
  · rw [rise_of_le hbefore, mul_div_cancel₀ _ hslow.ne']
  · by_contra hlt
    have hlt' : t < goal / slow := not_le.mp hlt
    have hrise := ht.2
    rw [rise_of_le fun s hs => hlt'.le.trans (hbefore s hs)] at hrise
    exact absurd ((lt_div_iff₀' hslow).mp hlt') (not_lt.mpr hrise)

/-- A goal that the slow phase does not reach. -/
theorem firstReached_fast (hslow : 0 ≤ slow) (hfast : 0 < fast) (hs : 0 ≤ s) (hgoal : slow * s < goal) :
    FirstReached slow fast (some s) goal (s + (goal - slow * s) / fast) := by
  have hrest : 0 ≤ (goal - slow * s) / fast := div_nonneg (sub_nonneg.mpr hgoal.le) hfast.le
  refine ⟨⟨add_nonneg hs hrest, ?_⟩, fun t ht => ?_⟩
  · rw [rise_of_ge (le_add_of_nonneg_right hrest), add_sub_cancel_left, mul_div_cancel₀ _ hfast.ne']
    exact (add_sub_cancel _ _).ge
  · have hrise := ht.2
    rcases le_total t s with hle | hle
    · -- in the slow phase the goal is out of reach
      rw [rise_of_le fun s' hs' => (Option.some.inj hs') ▸ hle] at hrise
      exact absurd (hrise.trans (mul_le_mul_of_nonneg_left hle hslow)) (not_le.mpr hgoal)
    · rw [rise_of_ge hle] at hrise
      have hneeded : (goal - slow * s) / fast ≤ t - s := (div_le_iff₀' hfast).mpr (sub_le_iff_le_add'.mpr hrise)
      exact (le_sub_iff_add_le'.mp hneeded)

/-- Without a fast rate nothing is gained past the switch. -/
theorem not_reached_of_no_fast (hslow : 0 ≤ slow) (hgoal : slow * s < goal) :
    ¬ FirstReached slow 0 (some s) goal t := by
  rintro ⟨⟨-, hrise⟩, -⟩
  have hmax : rise slow 0 (some s) t ≤ slow * s := by
    show slow * min t s + 0 * max 0 (t - s) ≤ slow * s
    rw [zero_mul, add_zero]
    exact mul_le_mul_of_nonneg_left (min_le_right t s) hslow
  exact absurd (hrise.trans hmax) (not_le.mpr hgoal)

end TwoRateLine
