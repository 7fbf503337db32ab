import Mathlib

/-!
# Lib.PythonDigits — decimal digits of any script

The class `\d` of a pattern, `int(text)` on a run of such digits, `str(n)` and `f"{n:0kd}"` for numbers that are not
negative.  A run of digits is the numeral of what it reads as (`decimal_readDigits`, `zeroPadded_readDigits`).
-/

namespace PythonText

/-! ## Digits -/

/-- The code points of the digits zero, one for each script (category `Nd` of Unicode 15.1). -/
def zeros : List ℕ :=
  [0x30, 0x660, 0x6F0, 0x7C0, 0x966, 0x9E6, 0xA66, 0xAE6, 0xB66, 0xBE6, 0xC66, 0xCE6, 0xD66, 0xDE6, 0xE50, 0xED0, 0xF20,
    0x1040, 0x1090, 0x17E0, 0x1810, 0x1946, 0x19D0, 0x1A80, 0x1A90, 0x1B50, 0x1BB0, 0x1C40, 0x1C50, 0xA620, 0xA8D0, 0xA900,
    0xA9D0, 0xA9F0, 0xAA50, 0xABF0, 0xFF10, 0x104A0, 0x10D30, 0x11066, 0x110F0, 0x11136, 0x111D0, 0x112F0, 0x11450,
    0x114D0, 0x11650, 0x116C0, 0x11730, 0x118E0, 0x11950, 0x11C50, 0x11D50, 0x11DA0, 0x11F50, 0x16A60, 0x16AC0, 0x16B50,
    0x1D7CE, 0x1D7D8, 0x1D7E2, 0x1D7EC, 0x1D7F6, 0x1E140, 0x1E2F0, 0x1E4F0, 0x1E950, 0x1FBF0]

/-- The value of a decimal digit. -/
def decimalValue (c : Char) : Option ℕ :=
  (zeros.find? fun z => decide (z ≤ c.toNat ∧ c.toNat < z + 10)).map (c.toNat - ·)

/-- `\d`. -/
def isDecimal (c : Char) : Bool := (decimalValue c).isSome

/-- A decimal digit as the digit of ASCII that has its value. -/
def asciiDigit (c : Char) : Char := (decimalValue c).elim c Nat.digitChar

/-- `int(text)` of decimal digits; `int` reads the digits of every script as those of ASCII. -/
def readDigits (l : List Char) : ℕ := Nat.ofDigitChars 10 (l.map asciiDigit) 0

/-- `f"{n:0kd}"`. -/
def zeroPadded (k n : ℕ) : List Char := (Nat.toDigits 10 n).leftpad k '0'

/-- The number of digits above which `int` and `str` raise a `ValueError`. -/
def maxStrDigits : ℕ := 4300

/-- `int(text)` of decimal digits; `none` is a `ValueError`. -/
def intOfDigits (l : List Char) : Option ℕ := if l.length ≤ maxStrDigits then some (readDigits l) else none

/-- `str(n)`; `none` is a `ValueError`. -/
def strOfNat (n : ℕ) : Option (List Char) :=
  if (Nat.toDigits 10 n).length ≤ maxStrDigits then some (Nat.toDigits 10 n) else none

section Digits

variable {c : Char} {l l' : List Char} {k n d : ℕ}

theorem decimalValue_lt (h : decimalValue c = some d) : d < 10 := by
  obtain ⟨z, hz, rfl⟩ := Option.map_eq_some_iff.mp h
  have hrange : z ≤ c.toNat ∧ c.toNat < z + 10 := of_decide_eq_true (List.find?_some hz :)
  omega

theorem isDigit_iff : c.isDigit = true ↔ 48 ≤ c.toNat ∧ c.toNat < 58 := by
  rw [Char.isDigit, Bool.and_eq_true, decide_eq_true_iff, decide_eq_true_iff, ge_iff_le, UInt32.le_iff_toNat_le,
    UInt32.le_iff_toNat_le]
  exact ⟨fun h => ⟨h.1, Nat.lt_succ_of_le h.2⟩, fun h => ⟨h.1, Nat.le_of_lt_succ h.2⟩⟩

theorem decimalValue_ascii (h : c.isDigit = true) : decimalValue c = some (c.toNat - 48) := by
  have hrange : decide (48 ≤ c.toNat ∧ c.toNat < 48 + 10) = true := decide_eq_true (isDigit_iff.mp h)
  have hfind : zeros.find? (fun z => decide (z ≤ c.toNat ∧ c.toNat < z + 10)) = some 48 :=
    List.find?_cons_of_pos hrange
  unfold decimalValue
  rw [hfind, Option.map_some]

theorem digitChar_isDigit (h : d < 10) : (Nat.digitChar d).isDigit = true := by
  interval_cases d <;> rfl

theorem digitChar_value (h : d < 10) : (Nat.digitChar d).toNat - 48 = d := by
  interval_cases d <;> rfl

theorem digitChar_of_isDigit (h : c.isDigit = true) : Nat.digitChar (c.toNat - 48) = c := by
  obtain ⟨hlow, hhigh⟩ := isDigit_iff.mp h
  have hd : c.toNat - 48 < 10 := by omega
  have hchar : (Nat.digitChar (c.toNat - 48)).toNat = c.toNat := by
    have h48 := (isDigit_iff.mp (digitChar_isDigit hd)).1
    have hvalue := digitChar_value hd
    omega
  exact Char.toNat_inj.mp hchar

theorem isDecimal_of_isDigit (h : c.isDigit = true) : isDecimal c = true := by
  unfold isDecimal
  rw [decimalValue_ascii h]
  rfl

@[simp]
theorem asciiDigit_of_isDigit (h : c.isDigit = true) : asciiDigit c = c := by
  unfold asciiDigit
  rw [decimalValue_ascii h]
  exact digitChar_of_isDigit h

theorem asciiDigit_isDigit (h : isDecimal c = true) : (asciiDigit c).isDigit = true := by
  obtain ⟨d, hd⟩ := Option.isSome_iff_exists.mp h
  unfold asciiDigit
  rw [hd]
  exact digitChar_isDigit (decimalValue_lt hd)

theorem asciiDigit_of_not_isDecimal (h : isDecimal c = false) : asciiDigit c = c := by
  have hnone : decimalValue c = none := Option.not_isSome_iff_eq_none.mp (Bool.eq_false_iff.mp h)
  unfold asciiDigit
  rw [hnone]
  rfl

theorem isDecimal_asciiDigit : isDecimal (asciiDigit c) = isDecimal c := by
  cases h : isDecimal c with
  | true => exact isDecimal_of_isDigit (asciiDigit_isDigit h)
  | false => rw [asciiDigit_of_not_isDecimal h, h]

@[simp]
theorem asciiDigit_asciiDigit : asciiDigit (asciiDigit c) = asciiDigit c := by
  cases h : isDecimal c with
  | true => exact asciiDigit_of_isDigit (asciiDigit_isDigit h)
  | false => rw [asciiDigit_of_not_isDecimal h, asciiDigit_of_not_isDecimal h]

theorem map_asciiDigit (h : ∀ c ∈ l, c.isDigit = true) : l.map asciiDigit = l := by
  rw [List.map_congr_left fun c hc => asciiDigit_of_isDigit (h c hc), List.map_id']

@[simp]
theorem readDigits_map : readDigits (l.map asciiDigit) = readDigits l := by
  unfold readDigits
  rw [List.map_map]
  exact congrArg (fun l => Nat.ofDigitChars 10 l 0) (List.map_congr_left fun c _ => asciiDigit_asciiDigit)

theorem readDigits_concat (h : c.isDigit = true) : readDigits (l ++ [c]) = 10 * readDigits l + (c.toNat - 48) := by
  unfold readDigits
  rw [List.map_append, Nat.ofDigitChars_append, List.map_singleton, asciiDigit_of_isDigit h, Nat.ofDigitChars_cons,
    Nat.ofDigitChars_nil]
  rfl

theorem readDigits_lt (h : ∀ c ∈ l, c.isDigit = true) : readDigits l < 10 ^ l.length := by
  induction l using List.reverseRecOn with
  | nil => exact Nat.one_pos
  | append_singleton l c ih =>
    have hc : c.isDigit = true := h c (List.mem_append_right _ List.mem_cons_self)
    have hl := ih fun c' hc' => h c' (List.mem_append_left _ hc')
    have hd := (isDigit_iff.mp hc).2
    rw [readDigits_concat hc, List.length_append, List.length_singleton, pow_succ]
    omega

/-- Runs of digits of one length that read as one number are the same. -/
theorem readDigits_inj (hlength : l.length = l'.length) (h : ∀ c ∈ l, c.isDigit = true)
    (h' : ∀ c ∈ l', c.isDigit = true) (heq : readDigits l = readDigits l') : l = l' := by
  induction l using List.reverseRecOn generalizing l' with
  | nil => exact (List.eq_nil_of_length_eq_zero hlength.symm).symm
  | append_singleton l c ih =>
    rcases List.eq_nil_or_concat' l' with rfl | ⟨l', c', rfl⟩
    · rw [List.length_append, List.length_singleton, List.length_nil] at hlength
      omega
    · have hc : c.isDigit = true := h c (List.mem_append_right _ List.mem_cons_self)
      have hc' : c'.isDigit = true := h' c' (List.mem_append_right _ List.mem_cons_self)
      obtain ⟨hlow, hhigh⟩ := isDigit_iff.mp hc
      obtain ⟨hlow', hhigh'⟩ := isDigit_iff.mp hc'
      rw [readDigits_concat hc, readDigits_concat hc'] at heq
      have hlast : c = c' := Char.toNat_inj.mp (by omega)
      have hfirst : l = l' := by
        refine ih ?_ (fun c hc => h c (List.mem_append_left _ hc)) (fun c hc => h' c (List.mem_append_left _ hc))
            (by omega)
        rw [List.length_append, List.length_append, List.length_singleton, List.length_singleton] at hlength
        omega
      rw [hlast, hfirst]

end Digits

/-! ## Numerals -/

section Numerals

variable {l : List Char} {k n : ℕ}

theorem isDigit_toDigits : ∀ c ∈ Nat.toDigits 10 n, c.isDigit = true :=
  fun _ hc => Nat.isDigit_of_mem_toDigits (by omega) (by omega) hc

@[simp]
theorem readDigits_toDigits : readDigits (Nat.toDigits 10 n) = n := by
  unfold readDigits
  rw [map_asciiDigit isDigit_toDigits]
  exact Nat.ofDigitChars_ten_toDigits

/-- A run of digits that does not start with a zero is the numeral of what it reads as. -/
theorem decimal_readDigits (h : ∀ c ∈ l, c.isDigit = true) (hl : l ≠ []) (hzero : l.head? ≠ some '0') :
    Nat.toDigits 10 (readDigits l) = l := by
  have hpos : ∀ l : List Char, (∀ c ∈ l, c.isDigit = true) → l ≠ [] → l.head? ≠ some '0' →
      0 < readDigits l ∧ Nat.toDigits 10 (readDigits l) = l := by
    intro l h hl hzero
    induction l using List.reverseRecOn with
    | nil => exact absurd rfl hl
    | append_singleton l c ih =>
      have hc : c.isDigit = true := h c (List.mem_append_right _ List.mem_cons_self)
      obtain ⟨hlow, hhigh⟩ := isDigit_iff.mp hc
      have hd : c.toNat - 48 < 10 := by omega
      rw [readDigits_concat hc]
      by_cases hnil : l = []
      · subst hnil
        have hne : c.toNat ≠ 48 := fun heq => hzero (congrArg some (Char.toNat_inj.mp heq))
        have hvalue : 10 * readDigits [] + (c.toNat - 48) = c.toNat - 48 := Nat.zero_add _
        rw [hvalue, Nat.toDigits_of_lt_base hd, digitChar_of_isDigit hc]
        exact ⟨by omega, rfl⟩
      · have hhead : l.head? ≠ some '0' := by
          rwa [List.head?_append_of_ne_nil l hnil] at hzero
        obtain ⟨hpos, hdigits⟩ := ih (fun c hc => h c (List.mem_append_left _ hc)) hnil hhead
        refine ⟨by omega, ?_⟩
        rw [← Nat.toDigits_append_toDigits (by omega) hpos hd, hdigits, Nat.toDigits_of_lt_base hd,
          digitChar_of_isDigit hc]
  exact (hpos l h hl hzero).2

/-- A numeral does not start with a zero. -/
theorem head?_toDigits (hn : 0 < n) : (Nat.toDigits 10 n).head? ≠ some '0' := by
  induction n using Nat.strongRecOn with
  | _ n ih =>
    by_cases hsmall : n < 10
    · rw [Nat.toDigits_of_lt_base hsmall]
      interval_cases n <;> decide
    · rw [Nat.toDigits_of_base_le (by omega) (by omega), List.head?_append_of_ne_nil _ Nat.toDigits_ne_nil]
      exact ih (n / 10) (by omega) (by omega)

theorem isDigit_zeroPadded : ∀ c ∈ zeroPadded k n, c.isDigit = true := by
  intro c hc
  rcases List.mem_append.mp hc with hzero | hdigit
  · rw [List.eq_of_mem_replicate hzero]
    rfl
  · exact isDigit_toDigits c hdigit

theorem length_zeroPadded (hk : 0 < k) (hn : n < 10 ^ k) : (zeroPadded k n).length = k := by
  unfold zeroPadded
  rw [List.length_leftpad, Nat.max_eq_left ((Nat.length_toDigits_le_iff (by omega) hk).mpr hn)]

@[simp]
theorem readDigits_zeroPadded : readDigits (zeroPadded k n) = n := by
  unfold readDigits
  rw [map_asciiDigit isDigit_zeroPadded]
  unfold zeroPadded List.leftpad
  rw [Nat.ofDigitChars_append, Nat.ofDigitChars_replicate_zero, Nat.mul_zero]
  exact Nat.ofDigitChars_ten_toDigits

/-- A run of `k` digits is the padded numeral of what it reads as. -/
theorem zeroPadded_readDigits (hk : 0 < k) (h : ∀ c ∈ l, c.isDigit = true) (hl : l.length = k) :
    zeroPadded k (readDigits l) = l := by
  have hsmall : readDigits l < 10 ^ k := hl ▸ readDigits_lt h
  exact readDigits_inj ((length_zeroPadded hk hsmall).trans hl.symm) isDigit_zeroPadded h readDigits_zeroPadded

/-- Numbers of at most `maxStrDigits` digits have a text. -/
theorem strOfNat_isSome : (strOfNat n).isSome = true ↔ n < 10 ^ maxStrDigits := by
  unfold strOfNat
  rw [← Nat.length_toDigits_le_iff (by omega : 1 < 10) (by decide : 0 < maxStrDigits)]
  split_ifs with h
  · exact ⟨fun _ => h, fun _ => rfl⟩
  · exact ⟨fun hsome => absurd hsome Bool.false_ne_true, fun hle => absurd hle h⟩

end Numerals

/-! ## The order of the text -/

section Order

variable {c : Char} {l l' : List Char}

theorem readDigits_cons (hc : c.isDigit = true) (hl : ∀ c ∈ l, c.isDigit = true) :
    readDigits (c :: l) = (c.toNat - 48) * 10 ^ l.length + readDigits l := by
  induction l using List.reverseRecOn with
  | nil =>
    have hread := readDigits_concat (l := []) hc
    rw [List.nil_append] at hread
    rw [hread]
    simp only [List.length_nil, pow_zero, mul_one]
    exact Nat.add_comm _ _
  | append_singleton l d ih =>
    have hd : d.isDigit = true := hl d (List.mem_append_right _ List.mem_cons_self)
    rw [← List.cons_append, readDigits_concat hd, ih fun c hc => hl c (List.mem_append_left _ hc),
      readDigits_concat hd, List.length_append, List.length_singleton, pow_succ]
    ring

/-- **Digits of one length are ordered as text as they are as numbers.** -/
theorem digits_lt_iff (hlength : l.length = l'.length) (hl : ∀ c ∈ l, c.isDigit = true)
    (hl' : ∀ c ∈ l', c.isDigit = true) : l < l' ↔ readDigits l < readDigits l' := by
  induction l generalizing l' with
  | nil =>
    obtain rfl := List.eq_nil_of_length_eq_zero hlength.symm
    exact iff_of_false (lt_irrefl _) (lt_irrefl _)
  | cons c l ih =>
    cases l' with
    | nil => exact nomatch hlength
    | cons c' l' =>
      have hc := hl c List.mem_cons_self
      have hc' := hl' c' List.mem_cons_self
      have hrest := fun d hd => hl d (List.mem_cons_of_mem _ hd)
      have hrest' := fun d hd => hl' d (List.mem_cons_of_mem _ hd)
      have hlength' : l.length = l'.length := Nat.succ.inj hlength
      have hbound := readDigits_lt hrest
      have hbound' := readDigits_lt hrest'
      obtain ⟨hlow, -⟩ := isDigit_iff.mp hc
      obtain ⟨hlow', -⟩ := isDigit_iff.mp hc'
      rw [List.cons_lt_cons_iff, readDigits_cons hc hrest, readDigits_cons hc' hrest', ih hlength' hrest hrest',
        hlength']
      rw [hlength'] at hbound
      have hchar : c < c' ↔ c.toNat - 48 < c'.toNat - 48 := by
        rw [Char.lt_def, UInt32.lt_iff_toNat_lt]
        change c.toNat < c'.toNat ↔ _
        omega
      rcases lt_trichotomy (c.toNat - 48) (c'.toNat - 48) with h | h | h
      · refine iff_of_true (Or.inl (hchar.mpr h)) ?_
        have hstep : (c.toNat - 48 + 1) * 10 ^ l'.length ≤ (c'.toNat - 48) * 10 ^ l'.length := Nat.mul_le_mul_right _ h
        rw [Nat.add_mul, Nat.one_mul] at hstep
        omega
      · have heq : c = c' := Char.toNat_inj.mp (by omega)
        rw [heq, or_iff_right (lt_irrefl c'), and_iff_right rfl, Nat.add_lt_add_iff_left]
      · refine iff_of_false (fun hor => ?_) ?_
        · rcases hor with hlt | ⟨heq, -⟩
          · exact absurd (hchar.mp hlt) (Nat.lt_asymm h)
          · rw [heq] at h
            exact lt_irrefl _ h
        · have hstep : (c'.toNat - 48 + 1) * 10 ^ l'.length ≤ (c.toNat - 48) * 10 ^ l'.length :=
            Nat.mul_le_mul_right _ h
          rw [Nat.add_mul, Nat.one_mul] at hstep
          omega

end Order

end PythonText
