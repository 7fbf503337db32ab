import Mathlib
import Waldur.Lib.PythonDigits

/-!
# Lib.PythonFractions — fractions read from text

`Fraction(text)`: a sign, a numeral with underscores between its digits, and a denominator or decimals and an exponent.
The numeral of a number is read as it (`readFraction_toDigits`).
-/

namespace PythonText

/-- `str.isspace`, also the class `\s` of a pattern. -/
def isBlank (c : Char) : Bool :=
  let n := c.toNat
  decide (9 ≤ n ∧ n ≤ 13) || decide (28 ≤ n ∧ n ≤ 32) || decide (0x2000 ≤ n ∧ n ≤ 0x200A) ||
    [0x85, 0xA0, 0x1680, 0x2028, 0x2029, 0x202F, 0x205F, 0x3000].contains n

/-- The digits after one, with single underscores between them, and what follows. -/
def moreDigits : List Char → List Char × List Char
  | [] => ([], [])
  | [c] => if isDecimal c then ([c], []) else ([], [c])
  | c :: c' :: l =>
    if isDecimal c then (c :: (moreDigits (c' :: l)).1, (moreDigits (c' :: l)).2)
    else if c = '_' ∧ isDecimal c' then (c' :: (moreDigits l).1, (moreDigits l).2)
    else ([], c :: c' :: l)

/-- `\d+(_\d+)*` or nothing, without the underscores, and what follows. -/
def takeNumeral : List Char → List Char × List Char
  | [] => ([], [])
  | c :: l => if isDecimal c then (c :: (moreDigits l).1, (moreDigits l).2) else ([], c :: l)

/-- A sign, and what follows. -/
def takeSign : List Char → ℤ × List Char
  | '-' :: l => (-1, l)
  | '+' :: l => (1, l)
  | l => (1, l)

/-- The exponent, if there is one, and what follows. -/
def takeExponent : List Char → Option (ℤ × List Char)
  | [] => some (0, [])
  | c :: l =>
    if c = 'e' ∨ c = 'E' then
      let (sign, l) := takeSign l
      let (digits, l) := takeNumeral l
      if digits = [] then none else (intOfDigits digits).map fun n => (sign * n, l)
    else some (0, c :: l)

/-- `Fraction(text)`; `none` is a `ValueError` or a `ZeroDivisionError`. -/
def readFraction (text : List Char) : Option ℚ := do
  let (sign, l) := takeSign (text.dropWhile isBlank)
  let (numerator, l) := takeNumeral l
  match l.dropWhile isBlank with
  | '/' :: l' =>
    let (denominator, l') := takeNumeral (l'.dropWhile isBlank)
    if numerator = [] ∨ denominator = [] ∨ l'.dropWhile isBlank ≠ [] then none
    else
      let n ← intOfDigits numerator
      let d ← intOfDigits denominator
      if d = 0 then none else some (sign * n / d)
  | _ =>
    let (decimals, l) := match l with
      | '.' :: l => takeNumeral l
      | l => ([], l)
    let (exponent, l) ← takeExponent l
    if (numerator = [] ∧ decimals = []) ∨ l.dropWhile isBlank ≠ [] then none
    else
      let n ← if numerator = [] then some 0 else intOfDigits numerator
      let f ← if decimals = [] then some 0 else intOfDigits decimals
      some (sign * (n + f / 10 ^ decimals.length) * 10 ^ exponent)

section Numerals

variable {l : List Char} {n : ℕ}

theorem moreDigits_of_isDigit (h : ∀ c ∈ l, c.isDigit = true) : moreDigits l = (l, []) := by
  induction l with
  | nil => rfl
  | cons c l ih =>
    have hc : isDecimal c = true := isDecimal_of_isDigit (h c List.mem_cons_self)
    have hl := ih fun c' hc' => h c' (List.mem_cons_of_mem _ hc')
    cases l with
    | nil => simp [moreDigits, hc]
    | cons c' l => simp only [moreDigits, hc, if_true, hl]

theorem intOfDigits_toDigits (h : n < 10 ^ maxStrDigits) : intOfDigits (Nat.toDigits 10 n) = some n := by
  have hlength : (Nat.toDigits 10 n).length ≤ maxStrDigits :=
    (Nat.length_toDigits_le_iff (by omega) (by decide)).mpr h
  unfold intOfDigits
  rw [if_pos hlength, readDigits_toDigits]

theorem not_isBlank (h : ∀ c ∈ l, c.isDigit = true) : l.dropWhile isBlank = l := by
  cases l with
  | nil => rfl
  | cons c l =>
    obtain ⟨hlow, hhigh⟩ := isDigit_iff.mp (h c List.mem_cons_self)
    have hblank : isBlank c = false := by
      simp only [isBlank, Bool.or_eq_false_iff, decide_eq_false_iff_not, List.contains_eq_mem, List.mem_cons,
        List.not_mem_nil, or_false]
      omega
    rw [List.dropWhile_cons_of_neg (by rw [hblank]; exact Bool.false_ne_true)]

theorem takeSign_of_isDigit (h : ∀ c ∈ l, c.isDigit = true) : takeSign l = (1, l) := by
  unfold takeSign
  split
  · exact absurd (h '-' List.mem_cons_self) (by decide)
  · exact absurd (h '+' List.mem_cons_self) (by decide)
  · rfl

theorem takeNumeral_of_isDigit (h : ∀ c ∈ l, c.isDigit = true) : takeNumeral l = (l, []) := by
  cases l with
  | nil => rfl
  | cons c l =>
    have hmore := moreDigits_of_isDigit fun c' hc' => h c' (List.mem_cons_of_mem _ hc')
    simp only [takeNumeral, isDecimal_of_isDigit (h c List.mem_cons_self), if_true, hmore]

/-- **A number is read from its numeral.** -/
theorem readFraction_toDigits (h : n < 10 ^ maxStrDigits) : readFraction (Nat.toDigits 10 n) = some (n : ℚ) := by
  have hread := intOfDigits_toDigits h
  have hne : Nat.toDigits 10 n ≠ [] := Nat.toDigits_ne_nil
  have hdigits : ∀ c ∈ Nat.toDigits 10 n, c.isDigit = true := isDigit_toDigits
  obtain ⟨l, hl⟩ : ∃ l, l = Nat.toDigits 10 n := ⟨_, rfl⟩
  rw [← hl] at hread hne hdigits ⊢
  unfold readFraction
  rw [not_isBlank hdigits, takeSign_of_isDigit hdigits]
  simp only [takeNumeral_of_isDigit hdigits, List.dropWhile_nil, takeExponent, hread]
  have hvalue : ((1 : ℤ) : ℚ) * ((n : ℚ) + ((0 : ℕ) : ℚ) / 10 ^ ([] : List Char).length) * 10 ^ (0 : ℤ) = n := by
    rw [Int.cast_one, Nat.cast_zero, zero_div, add_zero, one_mul, zpow_zero, mul_one]
  have hrest : ¬ (l = [] ∧ True ∨ ([] : List Char) ≠ []) := by
    rintro (⟨hnil, -⟩ | hnil)
    · exact hne hnil
    · exact hnil rfl
  show (if l = [] ∧ True ∨ ([] : List Char) ≠ [] then none else _) = some (n : ℚ)
  rw [if_neg hrest, if_neg hne]
  exact congrArg some hvalue

end Numerals

end PythonText
