import Mathlib

/-!
# Lib.Doubles — the doubles among the rationals

A double is a rational with 53 binary digits.  `toDouble` rounds to the nearest one, to an even digit from halfway: it is
monotone (`toDouble_mono`) and leaves the doubles as they are (`toDouble_toDouble`).  `shortest` is the decimal that a
double prints as: it rounds back to the double (`toDouble_shortest`) and has no more places than any decimal that does
(`onStep_shortest`).  Infinities are left out.
-/

namespace Doubles

/-! ## Rounding to an integer -/

/-- The nearest integer, and the even one from halfway. -/
def roundEven (x : ℚ) : ℤ :=
  let rest := x - ⌊x⌋
  if rest < 1 / 2 ∨ (rest = 1 / 2 ∧ ⌊x⌋ % 2 = 0) then ⌊x⌋ else ⌊x⌋ + 1

theorem floor_le_roundEven (x : ℚ) : ⌊x⌋ ≤ roundEven x := by
  unfold roundEven
  dsimp only
  split_ifs
  · exact le_rfl
  · exact (lt_add_one _).le

theorem roundEven_le_floor (x : ℚ) : roundEven x ≤ ⌊x⌋ + 1 := by
  unfold roundEven
  dsimp only
  split_ifs
  · exact (lt_add_one _).le
  · exact le_rfl

@[simp] theorem roundEven_intCast (n : ℤ) : roundEven n = n := by
  unfold roundEven
  rw [Int.floor_intCast]
  exact if_pos (Or.inl (by norm_num))

theorem roundEven_mono {x y : ℚ} (h : x ≤ y) : roundEven x ≤ roundEven y := by
  rcases (Int.floor_le_floor h).lt_or_eq with hlt | heq
  · exact (roundEven_le_floor x).trans (hlt.trans_le (floor_le_roundEven y))
  · unfold roundEven
    dsimp only
    rw [← heq]
    split_ifs with hx hy hy
    · exact le_rfl
    · exact (lt_add_one _).le
    · -- The lower one is rounded up, so it is not nearer to the floor than the upper one.
      rw [not_or, not_lt] at hx
      rcases hy with hy | ⟨hy, heven⟩
      · exact absurd (hx.1.trans (sub_le_sub_right h _)) (not_le.mpr hy)
      · have hhalf : x - ⌊x⌋ = 1 / 2 := le_antisymm (hy ▸ sub_le_sub_right h _) hx.1
        exact absurd ⟨hhalf, heven⟩ hx.2
    · exact le_rfl

theorem roundEven_neg (x : ℚ) : roundEven (-x) = -roundEven x := by
  by_cases hint : (⌊x⌋ : ℚ) = x
  · rw [← hint, ← Int.cast_neg, roundEven_intCast, roundEven_intCast]
  · have hlt : (⌊x⌋ : ℚ) < x := lt_of_le_of_ne (Int.floor_le x) hint
    have hup : x < ⌊x⌋ + 1 := Int.lt_floor_add_one x
    have hfloor : ⌊-x⌋ = -⌊x⌋ - 1 := by
      rw [Int.floor_eq_iff]
      push_cast
      constructor <;> linarith
    unfold roundEven
    dsimp only
    rw [hfloor]
    push_cast
    have hrest : -x - (-(⌊x⌋ : ℚ) - 1) = 1 - (x - ⌊x⌋) := by ring
    rw [hrest]
    split_ifs with hneg hpos hpos
    · rcases hneg with hneg | ⟨hneg, heven⟩
      · rcases hpos with hpos | ⟨hpos, -⟩ <;> linarith
      · rcases hpos with hpos | ⟨-, heven'⟩
        · linarith
        · omega
    · ring
    · ring
    · rw [not_or, not_lt] at hneg hpos
      have hhalf : x - ⌊x⌋ = 1 / 2 := by linarith [hneg.1, hpos.1]
      have hodd : ¬ ⌊x⌋ % 2 = 0 := fun heven => hpos.2 ⟨hhalf, heven⟩
      have hodd' : ¬ (-⌊x⌋ - 1) % 2 = 0 := fun heven => hneg.2 ⟨by linarith, heven⟩
      omega

/-! ## Rounding to a double -/

/-- The place of the last binary digit; the smallest doubles have fewer digits. -/
def exponent (q : ℚ) : ℤ := max (Int.log 2 |q| - 52) (-1074)

/-- The nearest double. -/
def toDouble (q : ℚ) : ℚ := roundEven (q / 2 ^ exponent q) * 2 ^ exponent q

/-- A rational with 53 binary digits. -/
def IsDouble (x : ℚ) : Prop := ∃ n e : ℤ, |n| ≤ 2 ^ 53 ∧ -1074 ≤ e ∧ x = n * 2 ^ e

section Rounding

variable {q q' x : ℚ} {e : ℤ}

theorem two_zpow_pos (e : ℤ) : (0 : ℚ) < 2 ^ e := zpow_pos two_pos e

theorem exponent_neg (q : ℚ) : exponent (-q) = exponent q := by rw [exponent, exponent, abs_neg]

theorem toDouble_neg (q : ℚ) : toDouble (-q) = -toDouble q := by
  rw [toDouble, toDouble, exponent_neg, neg_div, roundEven_neg, Int.cast_neg, neg_mul]

/-- A number has at most 53 digits before its last place. -/
theorem abs_lt_exponent (q : ℚ) : |q| < 2 ^ (exponent q + 53) := by
  have hlog : |q| < ((2 : ℕ) : ℚ) ^ (Int.log 2 |q| + 1) := Int.lt_zpow_succ_log_self one_lt_two _
  refine hlog.trans_le (zpow_le_zpow_right₀ one_le_two ?_)
  have hle : Int.log 2 |q| - 52 ≤ exponent q := le_max_left _ _
  omega

/-- It has 53, unless it is one of the smallest. -/
theorem exponent_le_abs (hq : q ≠ 0) (he : -1074 < exponent q) : 2 ^ (exponent q + 52) ≤ |q| := by
  have hexp : exponent q = Int.log 2 |q| - 52 := by
    unfold exponent at he ⊢
    rcases le_total (Int.log 2 |q| - 52) (-1074) with h | h
    · rw [max_eq_right h] at he
      exact absurd he (lt_irrefl _)
    · exact max_eq_left h
  have hlog : ((2 : ℕ) : ℚ) ^ Int.log 2 |q| ≤ |q| := Int.zpow_log_le_self one_lt_two (abs_pos.mpr hq)
  rw [hexp, sub_add_cancel]
  exact hlog

theorem isDouble_toDouble (q : ℚ) : IsDouble (toDouble q) := by
  refine ⟨_, _, ?_, le_max_right _ _, rfl⟩
  have hpos := two_zpow_pos (exponent q)
  have habs : |q / 2 ^ exponent q| ≤ 2 ^ 53 := by
    rw [abs_div, abs_of_pos hpos, div_le_iff₀ hpos]
    refine (abs_lt_exponent q).le.trans (le_of_eq ?_)
    rw [zpow_add₀ two_ne_zero, mul_comm]
    rfl
  obtain ⟨hlow, hhigh⟩ := abs_le.mp habs
  rw [abs_le]
  constructor
  · have hcast : ((-2 ^ 53 : ℤ) : ℚ) ≤ q / 2 ^ exponent q := by push_cast; exact hlow
    exact (roundEven_intCast _).symm.trans_le (roundEven_mono hcast)
  · have hcast : q / 2 ^ exponent q ≤ ((2 ^ 53 : ℤ) : ℚ) := by push_cast; exact hhigh
    exact (roundEven_mono hcast).trans_eq (roundEven_intCast _)

/-- What has no digit after the last place is not rounded. -/
theorem toDouble_of_int {n : ℤ} (h : x / 2 ^ exponent x = n) : toDouble x = x := by
  rw [toDouble, h, roundEven_intCast, ← h, div_mul_cancel₀ _ (two_zpow_pos _).ne']

theorem toDouble_of_isDouble (h : IsDouble x) : toDouble x = x := by
  obtain ⟨n, e, hn, he, hx⟩ := h
  by_cases hzero : x = 0
  · rw [hzero]
    exact toDouble_of_int (n := 0) (by rw [zero_div, Int.cast_zero])
  rcases le_or_gt (exponent x) e with hle | hgt
  · refine toDouble_of_int (n := n * 2 ^ (e - exponent x).toNat) ?_
    rw [hx, mul_div_assoc, ← zpow_sub₀ two_ne_zero, ← hx]
    push_cast
    rw [← zpow_natCast, Int.toNat_of_nonneg (by omega)]
  · -- Only a power of two that has one digit more than it needs.
    have hlow := exponent_le_abs hzero (he.trans_lt hgt)
    have habs : |x| = |n| * 2 ^ e := by
      rw [hx, abs_mul, abs_of_pos (two_zpow_pos e), Int.cast_abs]
    have hbound : |x| ≤ 2 ^ (e + 53) := by
      rw [habs, zpow_add₀ two_ne_zero, mul_comm]
      refine mul_le_mul_of_nonneg_left ?_ (two_zpow_pos e).le
      exact_mod_cast hn
    have hexp : exponent x = e + 1 := by
      have hle : exponent x + 52 ≤ e + 53 := (zpow_le_zpow_iff_right₀ one_lt_two).mp (hlow.trans hbound)
      omega
    have hfull : |n| = 2 ^ 53 := by
      refine le_antisymm hn ?_
      have hmul : (2 : ℚ) ^ (53 : ℤ) * 2 ^ e ≤ |n| * 2 ^ e := by
        rw [← habs, ← zpow_add₀ two_ne_zero]
        rw [hexp] at hlow
        exact le_of_eq_of_le (congrArg _ (by ring)) hlow
      exact_mod_cast le_of_mul_le_mul_right hmul (two_zpow_pos e)
    have hhalf : ∃ m : ℤ, n = 2 * m := by
      rcases abs_eq (by positivity : (0 : ℤ) ≤ 2 ^ 53) |>.mp hfull with h | h
      · exact ⟨2 ^ 52, by rw [h]; norm_num⟩
      · exact ⟨-2 ^ 52, by rw [h]; norm_num⟩
    obtain ⟨m, rfl⟩ := hhalf
    refine toDouble_of_int (n := m) ?_
    rw [hexp, hx, zpow_add₀ two_ne_zero, zpow_one]
    push_cast
    have hpos := (two_zpow_pos e).ne'
    field_simp

/-- **Rounding leaves a double as it is.** -/
@[simp] theorem toDouble_toDouble (q : ℚ) : toDouble (toDouble q) = toDouble q :=
  toDouble_of_isDouble (isDouble_toDouble q)

theorem isDouble_iff : IsDouble x ↔ toDouble x = x :=
  ⟨toDouble_of_isDouble, fun h => h ▸ isDouble_toDouble x⟩

theorem toDouble_nonneg (h : 0 ≤ q) : 0 ≤ toDouble q := by
  have hround : (0 : ℤ) ≤ roundEven (q / 2 ^ exponent q) := by
    have hcast : ((0 : ℤ) : ℚ) ≤ q / 2 ^ exponent q := by
      rw [Int.cast_zero]
      exact div_nonneg h (two_zpow_pos _).le
    exact (roundEven_intCast 0).symm.trans_le (roundEven_mono hcast)
  exact mul_nonneg (Int.cast_nonneg hround) (two_zpow_pos _).le

theorem toDouble_mono_of_nonneg (hq : 0 ≤ q) (h : q ≤ q') : toDouble q ≤ toDouble q' := by
  rcases hq.eq_or_lt with rfl | hpos
  · have hzero : toDouble 0 = 0 := toDouble_of_int (n := 0) (by rw [zero_div, Int.cast_zero])
    rw [hzero]
    exact toDouble_nonneg h
  have habs : |q| ≤ |q'| := by rwa [abs_of_pos hpos, abs_of_pos (hpos.trans_le h)]
  have hexp : exponent q ≤ exponent q' :=
    max_le_max_right _ (sub_le_sub_right (Int.log_mono_right (abs_pos.mpr hpos.ne') habs) _)
  rcases hexp.eq_or_lt with heq | hlt
  · unfold toDouble
    rw [← heq]
    refine mul_le_mul_of_nonneg_right (Int.cast_le.mpr (roundEven_mono ?_)) (two_zpow_pos _).le
    exact div_le_div_of_nonneg_right h (two_zpow_pos _).le
  · -- A power of two lies between them, and both are rounded to their side of it.
    have hlow : toDouble q ≤ 2 ^ (exponent q + 53) := by
      have hcast : q / 2 ^ exponent q ≤ ((2 ^ 53 : ℤ) : ℚ) := by
        rw [div_le_iff₀ (two_zpow_pos _)]
        refine ((le_abs_self q).trans (abs_lt_exponent q).le).trans (le_of_eq ?_)
        rw [zpow_add₀ two_ne_zero, mul_comm]
        push_cast
        rfl
      have hround : roundEven (q / 2 ^ exponent q) ≤ 2 ^ 53 :=
        (roundEven_mono hcast).trans_eq (roundEven_intCast _)
      unfold toDouble
      rw [zpow_add₀ two_ne_zero, mul_comm]
      refine mul_le_mul_of_nonneg_left ?_ (two_zpow_pos _).le
      exact_mod_cast hround
    have hhigh : 2 ^ (exponent q' + 52) ≤ toDouble q' := by
      have hq' : 2 ^ (exponent q' + 52) ≤ q' := by
        have hle := exponent_le_abs (hpos.trans_le h).ne' ((le_max_right _ _).trans_lt hlt)
        rwa [abs_of_pos (hpos.trans_le h)] at hle
      have hcast : ((2 ^ 52 : ℤ) : ℚ) ≤ q' / 2 ^ exponent q' := by
        rw [le_div_iff₀ (two_zpow_pos _)]
        refine le_of_eq_of_le ?_ hq'
        rw [zpow_add₀ two_ne_zero, mul_comm]
        push_cast
        rfl
      have hround : 2 ^ 52 ≤ roundEven (q' / 2 ^ exponent q') :=
        (roundEven_intCast _).symm.trans_le (roundEven_mono hcast)
      unfold toDouble
      rw [zpow_add₀ two_ne_zero, mul_comm]
      refine mul_le_mul_of_nonneg_right ?_ (two_zpow_pos _).le
      exact_mod_cast hround
    exact hlow.trans ((zpow_le_zpow_right₀ one_le_two (by omega)).trans hhigh)

/-- **Rounding keeps the order.** -/
theorem toDouble_mono (h : q ≤ q') : toDouble q ≤ toDouble q' := by
  rcases le_total 0 q with hq | hq
  · exact toDouble_mono_of_nonneg hq h
  · rcases le_total 0 q' with hq' | hq'
    · have hneg := toDouble_nonneg (neg_nonneg.mpr hq)
      rw [toDouble_neg] at hneg
      exact (neg_nonneg.mp hneg).trans (toDouble_nonneg hq')
    · have hneg := toDouble_mono_of_nonneg (neg_nonneg.mpr hq') (neg_le_neg h)
      rwa [toDouble_neg, toDouble_neg, neg_le_neg_iff] at hneg

theorem isDouble_intCast {n : ℤ} (h : |n| ≤ 2 ^ 53) : IsDouble n :=
  ⟨n, 0, h, by norm_num, by rw [zpow_zero, mul_one]⟩

/-- A double that is no integer is smaller than 2 ^ 53. -/
theorem IsDouble.isInt_or_lt (h : IsDouble x) : (∃ n : ℤ, x = n) ∨ |x| < 2 ^ 53 := by
  obtain ⟨n, e, hn, -, hx⟩ := h
  rcases le_or_gt 0 e with he | he
  · refine Or.inl ⟨n * 2 ^ e.toNat, ?_⟩
    rw [hx]
    push_cast
    rw [← zpow_natCast, Int.toNat_of_nonneg he]
  · refine Or.inr ?_
    rw [hx, abs_mul, abs_of_pos (two_zpow_pos e), ← Int.cast_abs]
    have hcast : ((|n| : ℤ) : ℚ) ≤ 2 ^ 53 := by exact_mod_cast hn
    have hhalf : (2 : ℚ) ^ e < 1 := zpow_lt_one_of_neg₀ one_lt_two he
    calc ((|n| : ℤ) : ℚ) * 2 ^ e ≤ 2 ^ 53 * 2 ^ e := mul_le_mul_of_nonneg_right hcast (two_zpow_pos e).le
      _ < 2 ^ 53 * 1 := mul_lt_mul_of_pos_left hhalf (by positivity)
      _ = 2 ^ 53 := mul_one _

/-- The double nearest to a number with 53 binary digits before the last place `e`. -/
theorem toDouble_eq (he : -1074 ≤ e) (hlow : 2 ^ (e + 52) ≤ q) (hhigh : q < 2 ^ (e + 53)) :
    toDouble q = roundEven (q / 2 ^ e) * 2 ^ e := by
  have hpos : 0 < q := (two_zpow_pos _).trans_le hlow
  have hlog : Int.log 2 |q| = e + 52 := by
    rw [abs_of_pos hpos]
    refine le_antisymm (Int.lt_add_one_iff.mp ?_) ?_
    · rw [← Int.lt_zpow_iff_log_lt one_lt_two hpos, add_assoc]
      exact hhigh
    · rw [← Int.zpow_le_iff_le_log one_lt_two hpos]
      exact hlow
  have hexp : exponent q = e := by
    rw [exponent, hlog, add_sub_cancel_right]
    exact max_eq_left he
  rw [toDouble, hexp]

end Rounding

/-! ## The decimal that a double prints as -/

/-- A decimal with so many places. -/
def HasPlaces (p : ℕ) (a : ℚ) : Prop := ∃ n : ℤ, a = n / 10 ^ p

/-- The decimal with `k` places that is nearest to a double among those that round to it. -/
def shortestAt (x : ℚ) (k : ℕ) : Option ℚ :=
  [(roundEven (x * 10 ^ k) : ℚ) / 10 ^ k, ⌊x * 10 ^ k⌋ / 10 ^ k, ⌈x * 10 ^ k⌉ / 10 ^ k].find? fun d => decide (toDouble d = x)

def shortestFrom (x : ℚ) : ℕ → ℕ → ℚ
  | 0, _ => x
  | fuel + 1, k => (shortestAt x k).getD (shortestFrom x fuel (k + 1))

/-- `repr` of a double: the fewest decimal places that give it back; no double has more than 1074. -/
def shortest (x : ℚ) : ℚ := shortestFrom x 1075 0

section Shortest

variable {x d : ℚ} {k p : ℕ}

theorem HasPlaces.mono (h : HasPlaces k d) (hkp : k ≤ p) : HasPlaces p d := by
  obtain ⟨n, rfl⟩ := h
  refine ⟨n * 10 ^ (p - k), ?_⟩
  push_cast
  rw [div_eq_div_iff (by positivity) (by positivity), mul_assoc, ← pow_add, Nat.sub_add_cancel hkp]

theorem shortestAt_some (h : shortestAt x k = some d) : toDouble d = x ∧ HasPlaces k d := by
  have hmem := List.mem_of_find?_eq_some h
  have hround : decide (toDouble d = x) = true := List.find?_some (p := fun d => decide (toDouble d = x)) h
  refine ⟨of_decide_eq_true hround, ?_⟩
  rw [List.mem_cons, List.mem_cons, List.mem_singleton] at hmem
  rcases hmem with rfl | rfl | rfl
  · exact ⟨_, rfl⟩
  · exact ⟨_, rfl⟩
  · exact ⟨_, rfl⟩

/-- Where some decimal rounds to a double, one of its neighbours with as many places does. -/
theorem shortestAt_isSome (hx : toDouble x = x) (hd : HasPlaces k d) (h : toDouble d = x) : (shortestAt x k).isSome := by
  obtain ⟨n, rfl⟩ := hd
  have hp : (0 : ℚ) < 10 ^ k := by positivity
  rw [shortestAt, List.find?_isSome]
  rcases le_total ((n : ℚ) / 10 ^ k) x with hle | hle
  · refine ⟨⌊x * 10 ^ k⌋ / 10 ^ k, by simp, decide_eq_true (le_antisymm ?_ ?_)⟩
    · rw [← hx]
      refine (toDouble_mono ?_).trans_eq (toDouble_toDouble x)
      rw [div_le_iff₀ hp, hx]
      exact Int.floor_le _
    · rw [← h]
      refine toDouble_mono (div_le_div_of_nonneg_right ?_ hp.le)
      rw [h]
      exact Int.cast_le.mpr (Int.le_floor.mpr ((div_le_iff₀ hp).mp hle))
  · refine ⟨⌈x * 10 ^ k⌉ / 10 ^ k, by simp, decide_eq_true (le_antisymm ?_ ?_)⟩
    · rw [← h]
      refine toDouble_mono (div_le_div_of_nonneg_right ?_ hp.le)
      rw [h]
      exact Int.cast_le.mpr (Int.ceil_le.mpr ((le_div_iff₀ hp).mp hle))
    · rw [← hx]
      refine (toDouble_toDouble x).symm.trans_le (toDouble_mono ?_)
      rw [le_div_iff₀ hp, hx]
      exact Int.le_ceil _

theorem toDouble_shortestFrom (hx : toDouble x = x) : ∀ fuel k, toDouble (shortestFrom x fuel k) = x
  | 0, _ => hx
  | fuel + 1, k => by
    rw [shortestFrom]
    cases h : shortestAt x k with
    | none => exact toDouble_shortestFrom hx fuel (k + 1)
    | some d => exact (shortestAt_some h).1

/-- **What a double prints as rounds back to it.** -/
theorem toDouble_shortest (hx : toDouble x = x) : toDouble (shortest x) = x := toDouble_shortestFrom hx _ _

theorem hasPlaces_shortestFrom (hd : HasPlaces p d) (h : toDouble d = x) : ∀ fuel k, k ≤ p → p < k + fuel →
    HasPlaces p (shortestFrom x fuel k)
  | 0, k, hk, hfuel => absurd hfuel (Nat.not_lt.mpr hk)
  | fuel + 1, k, hk, hfuel => by
    rw [shortestFrom]
    cases hat : shortestAt x k with
    | some d' => exact (shortestAt_some hat).2.mono hk
    | none =>
      have hx : toDouble x = x := by rw [← h, toDouble_toDouble]
      rcases hk.eq_or_lt with rfl | hlt
      · have hsome := shortestAt_isSome hx hd h
        rw [hat] at hsome
        cases hsome
      · exact hasPlaces_shortestFrom hd h fuel (k + 1) hlt (by omega)

/-- **A double prints with no more places than a decimal that rounds to it.** -/
theorem hasPlaces_shortest (hd : HasPlaces p d) (h : toDouble d = x) (hp : p < 1075) : HasPlaces p (shortest x) :=
  hasPlaces_shortestFrom hd h 1075 0 (Nat.zero_le _) (by omega)

/-- An integer prints as itself. -/
theorem shortest_intCast {n : ℤ} (h : toDouble n = n) : shortest n = n := by
  have hat : shortestAt (n : ℚ) 0 = some n := by
    rw [shortestAt, pow_zero, mul_one, roundEven_intCast, div_one]
    exact List.find?_cons_of_pos (decide_eq_true h)
  rw [shortest, shortestFrom, hat]
  rfl

/-- What the doubles print as is in their order. -/
theorem shortest_le_iff {y : ℚ} (hx : toDouble x = x) (hy : toDouble y = y) : shortest x ≤ shortest y ↔ x ≤ y := by
  constructor
  · intro h
    rw [← toDouble_shortest hx, ← toDouble_shortest hy]
    exact toDouble_mono h
  · intro h
    by_contra hlt
    have hle : y ≤ x := by
      rw [← toDouble_shortest hx, ← toDouble_shortest hy]
      exact toDouble_mono (not_le.mp hlt).le
    obtain rfl := le_antisymm h hle
    exact hlt le_rfl

end Shortest

section Hundredths

variable {x d : ℚ} {p : ℕ}

theorem HasPlaces.neg (h : HasPlaces p x) : HasPlaces p (-x) := by
  obtain ⟨n, rfl⟩ := h
  exact ⟨-n, by push_cast; ring⟩

/-- Between two hundredths there are two doubles, as long as they are small. -/
theorem toDouble_lt_of_hundredths (hx : HasPlaces 2 x) (hd : HasPlaces 2 d) (h : x < d) (hsmall : |x| < 2 ^ 44) :
    toDouble x < toDouble d := by
  obtain ⟨n, rfl⟩ := hx
  obtain ⟨m, rfl⟩ := hd
  have hgap : (n : ℚ) + 1 ≤ m := by
    have hlt : (n : ℚ) < m := by linarith
    exact_mod_cast hlt
  set y : ℤ := ⌈(n : ℚ) / 10 ^ 2 * 2 ^ 8⌉ with hy
  have hceil := Int.le_ceil ((n : ℚ) / 10 ^ 2 * 2 ^ 8)
  have hceil' := Int.ceil_lt_add_one ((n : ℚ) / 10 ^ 2 * 2 ^ 8)
  rw [← hy] at hceil hceil'
  have habs := abs_lt.mp hsmall
  have hbound : |y + 1| ≤ 2 ^ 53 ∧ |y| ≤ 2 ^ 53 := by
    have hlow : -(2 ^ 52 : ℚ) ≤ y := by linarith
    have hhigh : (y : ℚ) ≤ 2 ^ 52 + 1 := by linarith
    have hlow' : -(2 ^ 52 : ℤ) ≤ y := by exact_mod_cast hlow
    have hhigh' : y ≤ 2 ^ 52 + 1 := by exact_mod_cast hhigh
    constructor <;> rw [abs_le] <;> omega
  have hdouble : ∀ z : ℤ, |z| ≤ 2 ^ 53 → toDouble (z / 2 ^ 8) = z / 2 ^ 8 := fun z hz =>
    toDouble_of_isDouble ⟨z, -8, hz, by norm_num, by rw [zpow_neg]; rfl⟩
  calc toDouble (n / 10 ^ 2)
      ≤ toDouble (y / 2 ^ 8) := toDouble_mono (by rw [le_div_iff₀ (by norm_num)]; exact hceil)
    _ = y / 2 ^ 8 := hdouble y hbound.2
    _ < (y + 1 : ℤ) / 2 ^ 8 := by push_cast; linarith
    _ = toDouble ((y + 1 : ℤ) / 2 ^ 8) := (hdouble (y + 1) hbound.1).symm
    _ ≤ toDouble (m / 10 ^ 2) := toDouble_mono (by push_cast; linarith)

/-- **A small amount of hundredths survives as a double.** -/
theorem shortest_toDouble_of_hundredths (hx : HasPlaces 2 x) (hsmall : |x| < 2 ^ 44) : shortest (toDouble x) = x := by
  have hd : HasPlaces 2 (shortest (toDouble x)) := hasPlaces_shortest hx rfl (by norm_num)
  have hsame : toDouble (shortest (toDouble x)) = toDouble x := toDouble_shortest (toDouble_toDouble x)
  rcases lt_trichotomy (shortest (toDouble x)) x with h | h | h
  · have hlt := toDouble_lt_of_hundredths hx.neg hd.neg (neg_lt_neg h) (by rwa [abs_neg])
    rw [toDouble_neg, toDouble_neg, neg_lt_neg_iff] at hlt
    exact absurd hsame hlt.ne
  · exact h
  · exact absurd hsame.symm (toDouble_lt_of_hundredths hx hd h hsmall).ne

end Hundredths

end Doubles
