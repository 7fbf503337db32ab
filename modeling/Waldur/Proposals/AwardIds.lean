import Mathlib
import Waldur.Lib.PythonDigits

/-!
# Proposals.AwardIds — award identifiers

`format_award_id` and `parse_award_id`: a scrambled sequence number under a Luhn check digit, and the pattern that reads
it back.  An identifier is read back as its award; the pattern also takes digits of other scripts and a newline at the
end (`Respelt`).
-/

namespace Waldur.Proposals

open PythonText

/-! ## The format -/

def schemeVersion : ℕ := 1

def maxSequence : ℤ := 9999999

def modulus : ℤ := 10000000

def multiplier : ℤ := 2743019

def increment : ℤ := 4788887

/-- `pow(_MULTIPLIER, -1, _MODULUS)`. -/
def inverse : ℤ := Nat.gcdA multiplier.toNat modulus.toNat % modulus

def scramble (sequence : ℤ) : ℤ := (multiplier * sequence + increment) % modulus

def unscramble (scrambled : ℤ) : ℤ := (inverse * (scrambled - increment)) % modulus

/-- A digit in the sum of Luhn; the positions are counted from the right. -/
def luhnValue (position value : ℕ) : ℕ :=
  if position % 2 = 1 then (if 2 * value > 9 then 2 * value - 9 else 2 * value) else value

/-- `_luhn`, of decimal digits. -/
def luhn (digits : List Char) : ℕ :=
  let total := (digits.reverse.zipIdx.map fun x => luhnValue x.2 (readDigits [x.1])).sum
  (10 - total % 10) % 10

/-- The `ValueError`s of the two functions. -/
inductive ValueError
  /-- "sequence must be 0..9999999, not ...". -/
  | sequenceOutOfRange (sequence : ℤ)
  /-- "version must be at least 1, not ...". -/
  | versionTooSmall (version : ℤ)
  /-- "... is not an award ID". -/
  | notAnAwardId (value : String)
  /-- "... uses unknown scheme ...". -/
  | unknownScheme (value : String) (scheme : List Char)
  /-- "... fails its check digit". -/
  | failsCheckDigit (value : String)
  /-- "Exceeds the limit (4300 digits) for integer string conversion". -/
  | tooManyDigits

/-- `format_award_id`. -/
def formatAwardId (sequence year version : ℤ) : Except ValueError String :=
  if ¬ (0 ≤ sequence ∧ sequence ≤ maxSequence) then .error (.sequenceOutOfRange sequence)
  else if version < 1 then .error (.versionTooSmall version)
  else
    let yearPart := zeroPadded 3 (year % 1000).toNat
    let scheme := Nat.toDigits 10 schemeVersion
    let scrambled := zeroPadded 7 (scramble sequence).toNat
    let check := Nat.toDigits 10 (luhn (yearPart ++ scheme ++ scrambled))
    match strOfNat version.toNat with
    | none => .error .tooManyDigits
    | some version => .ok (String.ofList (yearPart ++ (scheme ++ '-' :: (scrambled.take 4 ++ '-' ::
        (scrambled.drop 4 ++ (check ++ '-' :: version))))))

/-! ## The pattern -/

/-- The groups of `_AWARD_ID`. -/
structure Groups where
  year : List Char
  scheme : List Char
  head : List Char
  tail : List Char
  check : List Char
  version : List Char

/-- `(\d{n})`, and what follows. -/
def takeDigits (n : ℕ) (l : List Char) : Option (List Char × List Char) :=
  if (l.take n).length = n ∧ (l.take n).all isDecimal then some (l.take n, l.drop n) else none

/-- What follows a dash. -/
def afterDash : List Char → Option (List Char)
  | [] => none
  | c :: l => if c = '-' then some l else none

/-- `([1-9]\d*)`, and what follows. -/
def takeVersion : List Char → Option (List Char × List Char)
  | [] => none
  | c :: l => if '1' ≤ c ∧ c ≤ '9' then some (c :: l.takeWhile isDecimal, l.dropWhile isDecimal) else none

/-- `_AWARD_ID.match`; the end anchor also matches before a last newline. -/
def awardIdGroups (l : List Char) : Option Groups := do
  let (year, l) ← takeDigits 3 l
  let (scheme, l) ← takeDigits 1 l
  let l ← afterDash l
  let (head, l) ← takeDigits 4 l
  let l ← afterDash l
  let (tail, l) ← takeDigits 3 l
  let (check, l) ← takeDigits 1 l
  let l ← afterDash l
  let (version, l) ← takeVersion l
  if l = [] ∨ l = ['\n'] then
    some { year := year, scheme := scheme, head := head, tail := tail, check := check, version := version }
  else none

/-- `parse_award_id`: the year, the sequence and the version. -/
def parseAwardId (value : String) : Except ValueError (ℤ × ℤ × ℤ) :=
  match awardIdGroups value.toList with
  | none => .error (.notAnAwardId value)
  | some g =>
    if readDigits g.scheme ≠ schemeVersion then .error (.unknownScheme value g.scheme)
    else if luhn (g.year ++ g.scheme ++ (g.head ++ g.tail)) ≠ readDigits g.check then .error (.failsCheckDigit value)
    else match intOfDigits g.version with
      | none => .error .tooManyDigits
      | some version => .ok (2000 + readDigits g.year, unscramble (readDigits (g.head ++ g.tail)), version)

/-! ## The scramble -/

section Scramble

variable {n : ℤ}

theorem multiplier_inverse : multiplier * inverse ≡ 1 [ZMOD modulus] := by
  have hgcd : Nat.gcd multiplier.toNat modulus.toNat = 1 := by decide
  have hbezout := Nat.gcd_eq_gcd_ab multiplier.toNat modulus.toNat
  have hmultiplier : (multiplier.toNat : ℤ) = multiplier := rfl
  have hmodulus : (modulus.toNat : ℤ) = modulus := rfl
  rw [hgcd, hmultiplier, hmodulus] at hbezout
  have hmod : inverse ≡ Nat.gcdA multiplier.toNat modulus.toNat [ZMOD modulus] := Int.mod_modEq _ _
  have hproduct := hmod.mul_left multiplier
  refine hproduct.trans (Int.modEq_iff_dvd.mpr ⟨Nat.gcdB multiplier.toNat modulus.toNat, ?_⟩)
  rw [Nat.cast_one] at hbezout
  rw [hbezout]
  ring

theorem modulus_pos : 0 < modulus := by decide

theorem scramble_range : 0 ≤ scramble n ∧ scramble n < modulus :=
  ⟨Int.emod_nonneg _ modulus_pos.ne', Int.emod_lt_of_pos _ modulus_pos⟩

theorem unscramble_range : 0 ≤ unscramble n ∧ unscramble n < modulus :=
  ⟨Int.emod_nonneg _ modulus_pos.ne', Int.emod_lt_of_pos _ modulus_pos⟩

theorem unscramble_scramble (h : 0 ≤ n ∧ n < modulus) : unscramble (scramble n) = n := by
  have hscramble : scramble n ≡ multiplier * n + increment [ZMOD modulus] := Int.mod_modEq _ _
  have hback : inverse * (scramble n - increment) ≡ n [ZMOD modulus] := by
    calc inverse * (scramble n - increment)
        ≡ inverse * (multiplier * n + increment - increment) [ZMOD modulus] :=
          (hscramble.sub_right increment).mul_left inverse
      _ = multiplier * inverse * n := by ring
      _ ≡ 1 * n [ZMOD modulus] := multiplier_inverse.mul_right n
      _ = n := one_mul n
  exact hback.eq.trans (Int.emod_eq_of_lt h.1 h.2)

theorem scramble_unscramble (h : 0 ≤ n ∧ n < modulus) : scramble (unscramble n) = n := by
  have hunscramble : unscramble n ≡ inverse * (n - increment) [ZMOD modulus] := Int.mod_modEq _ _
  have hback : multiplier * unscramble n + increment ≡ n [ZMOD modulus] := by
    calc multiplier * unscramble n + increment
        ≡ multiplier * (inverse * (n - increment)) + increment [ZMOD modulus] :=
          (hunscramble.mul_left multiplier).add_right increment
      _ = multiplier * inverse * (n - increment) + increment := by ring
      _ ≡ 1 * (n - increment) + increment [ZMOD modulus] :=
          (multiplier_inverse.mul_right (n - increment)).add_right increment
      _ = n := by ring
  exact hback.eq.trans (Int.emod_eq_of_lt h.1 h.2)

end Scramble

/-! ## What the pattern takes -/

section Pattern

variable {n : ℕ} {l rest d : List Char} {g g' : Groups}

/-- A run of `n` decimal digits. -/
def Run (n : ℕ) (l : List Char) : Prop := l.length = n ∧ ∀ c ∈ l, isDecimal c = true

/-- The groups as the text that they were read from. -/
def Groups.text (g : Groups) : List Char :=
  g.year ++ (g.scheme ++ '-' :: (g.head ++ '-' :: (g.tail ++ (g.check ++ '-' :: g.version))))

/-- Groups that the pattern reads. -/
structure Groups.Matched (g : Groups) : Prop where
  year : Run 3 g.year
  scheme : Run 1 g.scheme
  head : Run 4 g.head
  tail : Run 3 g.tail
  check : Run 1 g.check
  version : ∃ c l, g.version = c :: l ∧ ('1' ≤ c ∧ c ≤ '9') ∧ ∀ c' ∈ l, isDecimal c' = true

theorem takeDigits_eq_some : takeDigits n l = some (d, rest) ↔ Run n d ∧ l = d ++ rest := by
  unfold takeDigits Run
  constructor
  · intro h
    split_ifs at h with hrun
    obtain ⟨rfl, rfl⟩ := Prod.mk.inj (Option.some.inj h)
    exact ⟨⟨hrun.1, List.all_eq_true.mp hrun.2⟩, (List.take_append_drop n l).symm⟩
  · rintro ⟨⟨rfl, hdigits⟩, rfl⟩
    rw [List.take_left, List.drop_left, if_pos ⟨rfl, List.all_eq_true.mpr hdigits⟩]

theorem afterDash_eq_some : afterDash l = some rest ↔ l = '-' :: rest := by
  cases l with
  | nil => simp [afterDash]
  | cons c l =>
    unfold afterDash
    by_cases hc : c = '-'
    · simp [hc]
    · simp [hc]

theorem not_isDecimal_newline : isDecimal '\n' = false := by decide

theorem not_isDecimal_dash : isDecimal '-' = false := by decide

theorem takeVersion_eq_some (hrest : rest = [] ∨ rest = ['\n']) : takeVersion l = some (d, rest) ↔
    (∃ c l', d = c :: l' ∧ ('1' ≤ c ∧ c ≤ '9') ∧ ∀ c' ∈ l', isDecimal c' = true) ∧ l = d ++ rest := by
  constructor
  · intro h
    cases l with
    | nil => cases h
    | cons c l =>
      simp only [takeVersion] at h
      split_ifs at h with hc
      obtain ⟨rfl, rfl⟩ := Prod.mk.inj (Option.some.inj h)
      refine ⟨⟨c, _, rfl, hc, fun c' hc' => List.mem_takeWhile_imp hc'⟩, ?_⟩
      rw [List.cons_append, List.takeWhile_append_dropWhile]
  · rintro ⟨⟨c, l', rfl, hc, hdigits⟩, rfl⟩
    have htake : (l' ++ rest).takeWhile isDecimal = l' := by
      rw [List.takeWhile_append_of_pos hdigits]
      rcases hrest with rfl | rfl
      · rw [List.takeWhile_nil, List.append_nil]
      · rw [List.takeWhile_cons_of_neg (by rw [not_isDecimal_newline]; exact Bool.false_ne_true), List.append_nil]
    have hdrop : (l' ++ rest).dropWhile isDecimal = rest := by
      have hparts := List.takeWhile_append_dropWhile (p := isDecimal) (l := l' ++ rest)
      rw [htake] at hparts
      exact List.append_cancel_left hparts
    unfold takeVersion
    rw [List.cons_append]
    simp only
    rw [if_pos hc, htake, hdrop]

/-- **What the pattern takes**: the text of its groups, with a newline after it or without. -/
theorem awardIdGroups_eq_some : awardIdGroups l = some g ↔ g.Matched ∧ (l = g.text ∨ l = g.text ++ ['\n']) := by
  have hends : (l = g.text ∨ l = g.text ++ ['\n']) ↔ ∃ rest, (rest = [] ∨ rest = ['\n']) ∧ l = g.text ++ rest := by
    constructor
    · rintro (h | h)
      · exact ⟨[], Or.inl rfl, by rw [h, List.append_nil]⟩
      · exact ⟨['\n'], Or.inr rfl, h⟩
    · rintro ⟨rest, rfl | rfl, h⟩
      · exact Or.inl (by rw [h, List.append_nil])
      · exact Or.inr h
  rw [hends]
  unfold awardIdGroups
  simp only [bind, Option.bind_eq_some_iff, Prod.exists, takeDigits_eq_some, afterDash_eq_some]
  constructor
  · rintro ⟨year, _, ⟨hyear, rfl⟩, scheme, _, ⟨hscheme, rfl⟩, _, rfl, head, _, ⟨hhead, rfl⟩, _, rfl, tail, _,
      ⟨htail, rfl⟩, check, _, ⟨hcheck, rfl⟩, rest, rfl, version, l', hversion, h⟩
    split_ifs at h with hrest
    obtain rfl := Option.some.inj h
    obtain ⟨hstart, rfl⟩ := (takeVersion_eq_some hrest).mp hversion
    refine ⟨⟨hyear, hscheme, hhead, htail, hcheck, hstart⟩, l', hrest, ?_⟩
    simp [Groups.text]
  · rintro ⟨hg, rest, hrest, rfl⟩
    refine ⟨g.year, _, ⟨hg.year, ?_⟩, g.scheme, _, ⟨hg.scheme, rfl⟩, _, rfl, g.head, _, ⟨hg.head, rfl⟩, _, rfl, g.tail, _,
      ⟨hg.tail, rfl⟩, g.check, _, ⟨hg.check, rfl⟩, g.version ++ rest, rfl, g.version, rest,
      (takeVersion_eq_some hrest).mpr ⟨hg.version, rfl⟩, ?_⟩
    · simp [Groups.text]
    · rw [if_pos hrest]

end Pattern

/-! ## Awards and their groups -/

section Awards

variable {n : ℕ} {c : Char} {l : List Char} {g : Groups} {s : String}

/-- What an identifier is about. -/
@[ext]
structure Award where
  sequence : ℤ
  year : ℤ
  version : ℤ
  sequence_range : 0 ≤ sequence ∧ sequence ≤ maxSequence
  year_range : 2000 ≤ year ∧ year ≤ 2999
  version_pos : 1 ≤ version

/-- The identifier of an award. -/
def Award.id (a : Award) : Except ValueError String := formatAwardId a.sequence a.year a.version

/-- The groups of the identifier of an award. -/
def Award.groups (a : Award) : Groups :=
  let yearPart := zeroPadded 3 (a.year % 1000).toNat
  let scheme := Nat.toDigits 10 schemeVersion
  let scrambled := zeroPadded 7 (scramble a.sequence).toNat
  { year := yearPart
    scheme := scheme
    head := scrambled.take 4
    tail := scrambled.drop 4
    check := Nat.toDigits 10 (luhn (yearPart ++ scheme ++ scrambled))
    version := Nat.toDigits 10 a.version.toNat }

/-- The groups in digits of ASCII. -/
def Groups.ascii (g : Groups) : Groups where
  year := g.year.map asciiDigit
  scheme := g.scheme.map asciiDigit
  head := g.head.map asciiDigit
  tail := g.tail.map asciiDigit
  check := g.check.map asciiDigit
  version := g.version.map asciiDigit

/-- What is checked of the groups. -/
structure Groups.Valid (g : Groups) : Prop where
  scheme : readDigits g.scheme = schemeVersion
  check : luhn (g.year ++ g.scheme ++ (g.head ++ g.tail)) = readDigits g.check
  version : g.version.length ≤ maxStrDigits

theorem luhn_map (l : List Char) : luhn (l.map asciiDigit) = luhn l := by
  have hread : ∀ c, readDigits [asciiDigit c] = readDigits [c] := fun c => readDigits_map (l := [c])
  unfold luhn
  rw [← List.map_reverse, List.zipIdx_map, List.map_map]
  simp only [Function.comp_def, Prod.map_fst, Prod.map_snd, id_eq, hread]

theorem luhn_lt (l : List Char) : luhn l < 10 := Nat.mod_lt _ (by omega)

theorem Run.map (h : Run n l) : Run n (l.map asciiDigit) := by
  refine ⟨(List.length_map _).trans h.1, fun c hc => ?_⟩
  obtain ⟨c', hc', rfl⟩ := List.mem_map.mp hc
  rw [isDecimal_asciiDigit]
  exact h.2 c' hc'

theorem Run.isDigit (h : Run n l) : ∀ c ∈ l.map asciiDigit, c.isDigit = true := by
  intro c hc
  obtain ⟨c', hc', rfl⟩ := List.mem_map.mp hc
  exact asciiDigit_isDigit (h.2 c' hc')

theorem Run.readDigits_lt (h : Run n l) : readDigits l < 10 ^ n := by
  rw [← readDigits_map]
  exact lt_of_lt_of_eq (PythonText.readDigits_lt h.isDigit) (by rw [List.length_map, h.1])

theorem Run.append {m : ℕ} {l' : List Char} (h : Run n l) (h' : Run m l') : Run (n + m) (l ++ l') := by
  refine ⟨by rw [List.length_append, h.1, h'.1], fun c hc => ?_⟩
  rcases List.mem_append.mp hc with hc | hc
  · exact h.2 c hc
  · exact h'.2 c hc

theorem isDigit_of_range (h : '1' ≤ c ∧ c ≤ '9') : c.isDigit = true := by
  have hlow : ('1' : Char).toNat ≤ c.toNat := UInt32.le_iff_toNat_le.mp h.1
  have hhigh : c.toNat ≤ ('9' : Char).toNat := UInt32.le_iff_toNat_le.mp h.2
  have h1 : ('1' : Char).toNat = 49 := rfl
  have h9 : ('9' : Char).toNat = 57 := rfl
  exact isDigit_iff.mpr ⟨by omega, by omega⟩

theorem Groups.Matched.ascii (h : g.Matched) : g.ascii.Matched := by
  obtain ⟨c, l, hversion, hc, hl⟩ := h.version
  refine ⟨h.year.map, h.scheme.map, h.head.map, h.tail.map, h.check.map, c, l.map asciiDigit, ?_, hc, fun c' hc' => ?_⟩
  · show g.version.map asciiDigit = _
    rw [hversion, List.map_cons, asciiDigit_of_isDigit (isDigit_of_range hc)]
  · obtain ⟨c'', hc'', rfl⟩ := List.mem_map.mp hc'
    rw [isDecimal_asciiDigit]
    exact hl c'' hc''

theorem Groups.valid_ascii : g.ascii.Valid ↔ g.Valid := by
  have hluhn : luhn (g.ascii.year ++ g.ascii.scheme ++ (g.ascii.head ++ g.ascii.tail)) =
      luhn (g.year ++ g.scheme ++ (g.head ++ g.tail)) := by
    rw [← luhn_map (g.year ++ g.scheme ++ (g.head ++ g.tail))]
    simp only [List.map_append]
    rfl
  have hscheme : readDigits g.ascii.scheme = readDigits g.scheme := readDigits_map
  have hcheck : readDigits g.ascii.check = readDigits g.check := readDigits_map
  have hlength : g.ascii.version.length = g.version.length := List.length_map _
  constructor
  · rintro ⟨h₁, h₂, h₃⟩
    exact ⟨hscheme ▸ h₁, hluhn ▸ hcheck ▸ h₂, hlength ▸ h₃⟩
  · rintro ⟨h₁, h₂, h₃⟩
    exact ⟨hscheme.trans h₁, hluhn.trans (h₂.trans hcheck.symm), hlength.le.trans h₃⟩

theorem Groups.text_ascii : g.ascii.text = g.text.map asciiDigit := by
  have hdash : asciiDigit '-' = '-' := asciiDigit_of_not_isDecimal not_isDecimal_dash
  simp only [Groups.text, Groups.ascii, List.map_append, List.map_cons, hdash]

theorem Groups.Matched.version_digits (h : g.Matched) : ∀ c ∈ g.version.map asciiDigit, c.isDigit = true := by
  obtain ⟨c, l, hversion, hc, hl⟩ := h.version
  intro c' hc'
  obtain ⟨c'', hc'', rfl⟩ := List.mem_map.mp hc'
  rw [hversion] at hc''
  rcases List.mem_cons.mp hc'' with rfl | hmem
  · exact asciiDigit_isDigit (isDecimal_of_isDigit (isDigit_of_range hc))
  · exact asciiDigit_isDigit (hl c'' hmem)

/-- The version as the numeral of a number. -/
theorem Groups.Matched.toDigits_version (h : g.Matched) :
    Nat.toDigits 10 (readDigits g.version) = g.version.map asciiDigit := by
  obtain ⟨c, l, hversion, hc, -⟩ := h.version
  have hhead : (g.version.map asciiDigit).head? = some c := by
    rw [hversion, List.map_cons, asciiDigit_of_isDigit (isDigit_of_range hc)]
    rfl
  rw [← readDigits_map]
  refine decimal_readDigits h.version_digits ?_ ?_
  · rw [hversion]
    exact List.cons_ne_nil _ _
  · rw [hhead]
    rintro heq
    obtain rfl := Option.some.inj heq
    exact absurd hc.1 (by decide)

theorem Groups.Matched.version_pos (h : g.Matched) : 1 ≤ readDigits g.version := by
  obtain ⟨c, l, hversion, hc, -⟩ := h.version
  by_contra hzero
  have hdigits := h.toDigits_version
  rw [show readDigits g.version = 0 by omega, hversion, List.map_cons, asciiDigit_of_isDigit (isDigit_of_range hc)] at hdigits
  obtain ⟨rfl, -⟩ := List.cons_eq_cons.mp hdigits
  exact absurd hc.1 (by decide)

/-- The award that groups are read as. -/
def Groups.award (g : Groups) (h : g.Matched) : Award where
  sequence := unscramble (readDigits (g.head ++ g.tail))
  year := 2000 + readDigits g.year
  version := readDigits g.version
  sequence_range := ⟨unscramble_range.1, Int.le_of_lt_add_one unscramble_range.2⟩
  year_range := by
    have hyear := h.year.readDigits_lt
    omega
  version_pos := by exact_mod_cast h.version_pos

/-- A digit is the numeral of what it reads as. -/
theorem toDigits_single (h : c.isDigit = true) : Nat.toDigits 10 (readDigits [c]) = [c] := by
  have hvalue : readDigits [c] = c.toNat - 48 := (readDigits_concat (l := []) h).trans (Nat.zero_add _)
  rw [hvalue, Nat.toDigits_of_lt_base (by have := (isDigit_iff.mp h).2; omega), digitChar_of_isDigit h]

theorem Run.toDigits (h : Run 1 l) : Nat.toDigits 10 (readDigits l) = l.map asciiDigit := by
  obtain ⟨c, rfl⟩ := List.length_eq_one_iff.mp h.1
  rw [← readDigits_map]
  exact toDigits_single (h.isDigit _ (List.mem_map_of_mem List.mem_cons_self))

/-- **Groups are those of the award that they are read as**, in digits of ASCII. -/
theorem Groups.groups_award (h : g.Matched) (hvalid : g.Valid) : (g.award h).groups = g.ascii := by
  have hyear : zeroPadded 3 ((2000 + (readDigits g.year : ℤ)) % 1000).toNat = g.year.map asciiDigit := by
    have hlt := h.year.readDigits_lt
    have hmod : ((2000 + (readDigits g.year : ℤ)) % 1000).toNat = readDigits g.year := by omega
    rw [hmod, ← readDigits_map]
    exact zeroPadded_readDigits (by omega) h.year.isDigit h.year.map.1
  have hrun : Run 7 (g.head ++ g.tail) := h.head.append h.tail
  have hscrambled : zeroPadded 7 (scramble (unscramble (readDigits (g.head ++ g.tail)))).toNat =
      g.head.map asciiDigit ++ g.tail.map asciiDigit := by
    have hlt : ((readDigits (g.head ++ g.tail) : ℕ) : ℤ) < ((10 ^ 7 : ℕ) : ℤ) := Int.ofNat_lt.mpr hrun.readDigits_lt
    rw [scramble_unscramble ⟨Int.natCast_nonneg _, hlt⟩, Int.toNat_natCast, ← readDigits_map, ← List.map_append]
    exact zeroPadded_readDigits (by omega) hrun.isDigit hrun.map.1
  have hscheme : Nat.toDigits 10 schemeVersion = g.scheme.map asciiDigit := by
    rw [← hvalid.scheme]
    exact h.scheme.toDigits
  have hcheck : Nat.toDigits 10 (luhn (g.year.map asciiDigit ++ g.scheme.map asciiDigit ++
      (g.head.map asciiDigit ++ g.tail.map asciiDigit))) = g.check.map asciiDigit := by
    rw [← List.map_append, ← List.map_append, ← List.map_append, luhn_map, hvalid.check]
    exact h.check.toDigits
  have hfour : (g.head.map asciiDigit).length = 4 := h.head.map.1
  have hhead : (g.head.map asciiDigit ++ g.tail.map asciiDigit).take 4 = g.head.map asciiDigit := by
    rw [← hfour, List.take_left]
  have htail : (g.head.map asciiDigit ++ g.tail.map asciiDigit).drop 4 = g.tail.map asciiDigit := by
    rw [← hfour, List.drop_left]
  unfold Award.groups Groups.award Groups.ascii
  simp only [Int.toNat_natCast]
  rw [hyear, hscrambled, hscheme, hcheck, hhead, htail, h.toDigits_version]

end Awards

/-! ## Identifiers read back -/

section Reading

variable {l t : List Char} {g : Groups} {s : String}

/-- An identifier as a text: the digits of ASCII of valid groups. -/
def AwardText (l : List Char) : Prop := ∃ g : Groups, g.Matched ∧ g.Valid ∧ g.ascii = g ∧ l = g.text

/-- Another spelling: a newline may follow, and any digit but the first of the version may be of another script. -/
def Spells (l t : List Char) : Prop :=
  ∃ body, (l = body ∨ l = body ++ ['\n']) ∧ body.map asciiDigit = t ∧ body[15]? = t[15]?

theorem Award.groups_matched (a : Award) : a.groups.Matched := by
  have hscramble := scramble_range (n := a.sequence)
  have hyear : (a.year % 1000).toNat < 10 ^ 3 := by omega
  have hsmall : (scramble a.sequence).toNat < 10 ^ 7 := by
    have hmodulus : modulus = 10000000 := rfl
    omega
  have hlength : (zeroPadded 7 (scramble a.sequence).toNat).length = 7 := length_zeroPadded (by omega) hsmall
  have hdecimal : ∀ {l : List Char}, (∀ c ∈ l, c.isDigit = true) → ∀ c ∈ l, isDecimal c = true :=
    fun h c hc => isDecimal_of_isDigit (h c hc)
  have hone : ∀ d < 10, Run 1 (Nat.toDigits 10 d) := by
    intro d hd
    refine ⟨?_, hdecimal isDigit_toDigits⟩
    rw [Nat.toDigits_of_lt_base hd]
    rfl
  refine ⟨⟨length_zeroPadded (by omega) hyear, hdecimal isDigit_zeroPadded⟩, hone schemeVersion (by decide), ⟨?_, ?_⟩, ⟨?_, ?_⟩,
    hone (luhn _) (luhn_lt _), ?_⟩
  · show (List.take 4 _).length = 4
    rw [List.length_take, hlength]
    rfl
  · exact fun c hc => isDecimal_of_isDigit (isDigit_zeroPadded c (List.mem_of_mem_take hc))
  · show (List.drop 4 _).length = 3
    rw [List.length_drop, hlength]
  · exact fun c hc => isDecimal_of_isDigit (isDigit_zeroPadded c (List.mem_of_mem_drop hc))
  · obtain ⟨c, l, hversion⟩ := List.exists_cons_of_ne_nil (Nat.toDigits_ne_nil (n := a.version.toNat) (b := 10))
    have hdigit : ∀ c' ∈ c :: l, c'.isDigit = true := hversion ▸ isDigit_toDigits
    refine ⟨c, l, hversion, ?_, fun c' hc' => isDecimal_of_isDigit (hdigit c' (List.mem_cons_of_mem _ hc'))⟩
    have hpos : 0 < a.version.toNat := by
      have hversion := a.version_pos
      omega
    have hzero : c ≠ '0' := fun heq => head?_toDigits hpos (by rw [hversion, heq]; rfl)
    have hc := isDigit_iff.mp (hdigit c List.mem_cons_self)
    have hne : c.toNat ≠ ('0' : Char).toNat := fun heq => hzero (Char.toNat_inj.mp heq)
    have h0 : ('0' : Char).toNat = 48 := rfl
    exact ⟨UInt32.le_iff_toNat_le.mpr (show 49 ≤ c.toNat by omega), UInt32.le_iff_toNat_le.mpr (show c.toNat ≤ 57 by omega)⟩

theorem Award.groups_ascii (a : Award) : a.groups.ascii = a.groups := by
  have htake : ∀ {n k : ℕ}, ∀ c ∈ (zeroPadded k n).take 4, c.isDigit = true :=
    fun c hc => isDigit_zeroPadded c (List.mem_of_mem_take hc)
  have hdrop : ∀ {n k : ℕ}, ∀ c ∈ (zeroPadded k n).drop 4, c.isDigit = true :=
    fun c hc => isDigit_zeroPadded c (List.mem_of_mem_drop hc)
  unfold Groups.ascii Award.groups
  simp only [map_asciiDigit isDigit_zeroPadded, map_asciiDigit isDigit_toDigits, map_asciiDigit htake,
    map_asciiDigit hdrop]

theorem Award.groups_valid (a : Award) : a.groups.Valid ↔ a.version < 10 ^ maxStrDigits := by
  have hversion : a.groups.version.length ≤ maxStrDigits ↔ a.version < 10 ^ maxStrDigits := by
    have hpos := a.version_pos
    have hlength : a.groups.version.length ≤ maxStrDigits ↔ a.version.toNat < 10 ^ maxStrDigits :=
      Nat.length_toDigits_le_iff (by omega) (by decide)
    rw [hlength, ← Int.ofNat_lt, Int.toNat_of_nonneg (by omega), Nat.cast_pow]
    rfl
  rw [← hversion]
  refine ⟨fun h => h.version, fun h => ⟨readDigits_toDigits (n := schemeVersion), ?_, h⟩⟩
  show luhn (_ ++ (List.take 4 _ ++ List.drop 4 _)) = readDigits (Nat.toDigits 10 _)
  rw [List.take_append_drop, readDigits_toDigits]
  rfl

/-- The identifier of an award is the text of its groups. -/
theorem Award.id_eq_ok (a : Award) : a.id = .ok s ↔ a.version < 10 ^ maxStrDigits ∧ s = String.ofList a.groups.text := by
  have hpos := a.version_pos
  have hsome : (strOfNat a.version.toNat).isSome = true ↔ a.version < 10 ^ maxStrDigits := by
    rw [strOfNat_isSome, ← Int.ofNat_lt, Int.toNat_of_nonneg (by omega), Nat.cast_pow]
    rfl
  unfold Award.id formatAwardId
  rw [if_neg (not_not_intro a.sequence_range), if_neg (by omega), ← hsome]
  simp only
  unfold strOfNat
  split_ifs with hlength
  · simp only [Option.isSome_some, true_and, Except.ok.injEq]
    exact eq_comm
  · simp

/-- **Groups that are read from an identifier** give its award. -/
theorem Award.award_groups (a : Award) : a.groups.award a.groups_matched = a := by
  have hscramble := scramble_range (n := a.sequence)
  have hrange : 0 ≤ a.sequence ∧ a.sequence < modulus := ⟨a.sequence_range.1, Int.lt_of_le_sub_one a.sequence_range.2⟩
  have hyear := a.year_range
  have hversion := a.version_pos
  ext
  · show unscramble ((readDigits (List.take 4 _ ++ List.drop 4 _) : ℕ) : ℤ) = a.sequence
    rw [List.take_append_drop, readDigits_zeroPadded, Int.toNat_of_nonneg hscramble.1, unscramble_scramble hrange]
  · show 2000 + ((readDigits (zeroPadded 3 _) : ℕ) : ℤ) = a.year
    rw [readDigits_zeroPadded]
    omega
  · show ((readDigits (Nat.toDigits 10 _) : ℕ) : ℤ) = a.version
    rw [readDigits_toDigits]
    omega

theorem awardText_iff : AwardText s.toList ↔ ∃ a : Award, a.id = .ok s := by
  constructor
  · rintro ⟨g, hg, hvalid, hascii, htext⟩
    have hgroups : (g.award hg).groups = g := (Groups.groups_award hg hvalid).trans hascii
    refine ⟨g.award hg, (Award.id_eq_ok _).mpr ⟨(Award.groups_valid _).mp (hgroups.symm ▸ hvalid), ?_⟩⟩
    rw [hgroups, ← htext, String.ofList_toList]
  · rintro ⟨a, ha⟩
    obtain ⟨hversion, rfl⟩ := a.id_eq_ok.mp ha
    exact ⟨a.groups, a.groups_matched, a.groups_valid.mpr hversion, a.groups_ascii, String.toList_ofList⟩

/-- **What is read**: valid groups of the pattern, as their award. -/
theorem parseAwardId_eq_ok {year sequence version : ℤ} : parseAwardId s = .ok (year, sequence, version) ↔
    ∃ (g : Groups) (h : g.Matched), g.Valid ∧ (s.toList = g.text ∨ s.toList = g.text ++ ['\n']) ∧
      (g.award h).year = year ∧ (g.award h).sequence = sequence ∧ (g.award h).version = version := by
  unfold parseAwardId intOfDigits
  constructor
  · intro h
    cases hgroups : awardIdGroups s.toList with
    | none =>
      rw [hgroups] at h
      cases h
    | some g =>
      obtain ⟨hg, htext⟩ := awardIdGroups_eq_some.mp hgroups
      simp only [hgroups] at h
      split_ifs at h with hscheme hcheck hversion
      · refine ⟨g, hg, ⟨not_not.mp hscheme, not_not.mp hcheck, hversion⟩, htext, ?_⟩
        obtain ⟨rfl, hrest⟩ := Prod.mk.inj (Except.ok.inj h)
        obtain ⟨rfl, rfl⟩ := Prod.mk.inj hrest
        exact ⟨rfl, rfl, rfl⟩
  · rintro ⟨g, hg, hvalid, htext, rfl, rfl, rfl⟩
    have hgroups : awardIdGroups s.toList = some g := awardIdGroups_eq_some.mpr ⟨hg, htext⟩
    simp only [hgroups]
    rw [if_neg (not_not_intro hvalid.scheme), if_neg (not_not_intro hvalid.check), if_pos hvalid.version]
    rfl

/-- The first digit of the version is the sixteenth character. -/
theorem Groups.Matched.text_getElem? (h : g.Matched) : g.text[15]? = g.version.head? := by
  obtain ⟨start, hstart⟩ : ∃ start, start = g.year ++ (g.scheme ++ '-' :: (g.head ++ '-' :: (g.tail ++ (g.check ++ ['-'])))) :=
    ⟨_, rfl⟩
  have htext : g.text = start ++ g.version := by
    rw [hstart]
    simp [Groups.text]
  have hlength : start.length = 15 := by
    rw [hstart]
    simp [h.year.1, h.scheme.1, h.head.1, h.tail.1, h.check.1]
  rw [htext, List.getElem?_append_right hlength.le, hlength, List.head?_eq_getElem?]

theorem Groups.Matched.head?_version (h : g.Matched) : (g.version.map asciiDigit).head? = g.version.head? := by
  obtain ⟨c, l, hversion, hc, -⟩ := h.version
  rw [hversion, List.map_cons, asciiDigit_of_isDigit (isDigit_of_range hc)]
  rfl

theorem Groups.ascii_ascii : g.ascii.ascii = g.ascii := by
  have htwice : ∀ l : List Char, (l.map asciiDigit).map asciiDigit = l.map asciiDigit := by
    intro l
    rw [List.map_map]
    exact List.map_congr_left fun c _ => asciiDigit_asciiDigit
  simp only [Groups.ascii, htwice]

theorem eq_dash {c : Char} (h : asciiDigit c = '-') : c = '-' := by
  cases hc : isDecimal c with
  | true =>
    have hdigit := asciiDigit_isDigit hc
    rw [h] at hdigit
    exact absurd hdigit (by decide)
  | false => rwa [asciiDigit_of_not_isDecimal hc] at h

/-- A text whose digits read as groups has groups of its own. -/
theorem exists_groups {body : List Char} (h : body.map asciiDigit = g.text) : ∃ g' : Groups, g'.ascii = g ∧ body = g'.text := by
  obtain ⟨year, body, rfl, hyear, h⟩ := List.map_eq_append_iff.mp h
  obtain ⟨scheme, body, rfl, hscheme, h⟩ := List.map_eq_append_iff.mp h
  obtain ⟨dash₁, body, rfl, hdash₁, h⟩ := List.map_eq_cons_iff.mp h
  obtain ⟨head, body, rfl, hhead, h⟩ := List.map_eq_append_iff.mp h
  obtain ⟨dash₂, body, rfl, hdash₂, h⟩ := List.map_eq_cons_iff.mp h
  obtain ⟨tail, body, rfl, htail, h⟩ := List.map_eq_append_iff.mp h
  obtain ⟨check, body, rfl, hcheck, h⟩ := List.map_eq_append_iff.mp h
  obtain ⟨dash₃, version, rfl, hdash₃, hversion⟩ := List.map_eq_cons_iff.mp h
  obtain rfl := eq_dash hdash₁
  obtain rfl := eq_dash hdash₂
  obtain rfl := eq_dash hdash₃
  refine ⟨{ year := year, scheme := scheme, head := head, tail := tail, check := check, version := version }, ?_, rfl⟩
  unfold Groups.ascii
  rw [hyear, hscheme, hhead, htail, hcheck, hversion]

theorem Run.of_map {n : ℕ} (h : Run n (l.map asciiDigit)) : Run n l := by
  refine ⟨(List.length_map _).symm.trans h.1, fun c hc => ?_⟩
  rw [← isDecimal_asciiDigit]
  exact h.2 _ (List.mem_map_of_mem hc)

/-- **The spellings that are read** are those of an identifier. -/
theorem parseAwardId_isOk : (∃ r, parseAwardId s = .ok r) ↔ ∃ t, AwardText t ∧ Spells s.toList t := by
  constructor
  · rintro ⟨⟨year, sequence, version⟩, hparse⟩
    obtain ⟨g, hg, hvalid, htext, -⟩ := parseAwardId_eq_ok.mp hparse
    refine ⟨g.ascii.text, ⟨g.ascii, hg.ascii, Groups.valid_ascii.mpr hvalid, Groups.ascii_ascii, rfl⟩, g.text, htext,
      Groups.text_ascii.symm, ?_⟩
    rw [hg.text_getElem?, hg.ascii.text_getElem?]
    exact hg.head?_version.symm
  · rintro ⟨t, ⟨g, hg, hvalid, -, rfl⟩, body, htext, hbody, hfirst⟩
    obtain ⟨g', rfl, rfl⟩ := exists_groups hbody
    have hversion : ∃ c l, g'.version = c :: l ∧ ('1' ≤ c ∧ c ≤ '9') ∧ ∀ c' ∈ l, isDecimal c' = true := by
      obtain ⟨c, l, hc, hrange, hl⟩ := hg.version
      obtain ⟨c', l', hversion, hc', hl'⟩ := List.map_eq_cons_iff.mp (show g'.version.map asciiDigit = c :: l from hc)
      have hsame : c' = c := by
        obtain ⟨start, hstart⟩ : ∃ start, start = g'.year ++ (g'.scheme ++ '-' :: (g'.head ++ '-' ::
            (g'.tail ++ (g'.check ++ ['-'])))) := ⟨_, rfl⟩
        have hwhole : g'.text = start ++ g'.version := by
          rw [hstart]
          simp [Groups.text]
        have hlength : start.length = 15 := by
          rw [hstart]
          simp [(Run.of_map hg.year).1, (Run.of_map hg.scheme).1, (Run.of_map hg.head).1, (Run.of_map hg.tail).1,
            (Run.of_map hg.check).1]
        rw [hg.text_getElem?, hc, hwhole, List.getElem?_append_right hlength.le, hlength, hversion] at hfirst
        exact Option.some.inj hfirst
      refine ⟨c', l', hversion, hsame ▸ hrange, fun c'' hc'' => ?_⟩
      rw [← isDecimal_asciiDigit]
      exact hl _ (hl' ▸ List.mem_map_of_mem hc'')
    have hg' : g'.Matched := ⟨.of_map hg.year, .of_map hg.scheme, .of_map hg.head, .of_map hg.tail, .of_map hg.check, hversion⟩
    exact ⟨_, parseAwardId_eq_ok.mpr ⟨g', hg', Groups.valid_ascii.mp hvalid, htext, rfl, rfl, rfl⟩⟩

end Reading

/-! ## Faithful identifiers -/

section Faithful

variable {l t : List Char} {s : String}

/-- The identifier of an award is read back as it. -/
def Award.RoundTrips (a : Award) : Prop := ∃ s, a.id = .ok s ∧ parseAwardId s = .ok (a.year, a.sequence, a.version)

/-- A text is read exactly if it is an identifier, which is what it is then written as. -/
def Recognised (s : String) : Prop :=
  ((∃ r, parseAwardId s = .ok r) ↔ ∃ a : Award, a.id = .ok s) ∧
    ∀ year sequence version, parseAwardId s = .ok (year, sequence, version) → formatAwardId sequence year version = .ok s

/-- A text that spells an identifier in another way. -/
def Respelt (s : String) : Prop := ∃ t, AwardText t ∧ Spells s.toList t ∧ s.toList ≠ t

theorem AwardText.spells (h : AwardText l) : Spells l l := by
  obtain ⟨g, -, -, hascii, rfl⟩ := h
  exact ⟨g.text, Or.inl rfl, by rw [← Groups.text_ascii, hascii], rfl⟩

/-- An identifier spells no other. -/
theorem AwardText.eq_of_spells (h : AwardText l) (hspells : Spells l t) : l = t := by
  obtain ⟨g, hg, -, hascii, rfl⟩ := h
  obtain ⟨body, hbody | hbody, rfl, -⟩ := hspells
  · rw [← hbody, ← Groups.text_ascii, hascii]
  · obtain ⟨c, l', hversion, hc, hl'⟩ := hg.version
    have hlast : g.text.getLast? = some '\n' := by rw [hbody, List.getLast?_concat]
    have hmem : '\n' ∈ g.version := by
      have hne : g.version ≠ [] := by
        rw [hversion]
        exact List.cons_ne_nil _ _
      have hwhole : g.text.getLast? = g.version.getLast? := by
        simp [Groups.text, List.getLast?_append, List.getLast?_cons, List.getLast?_eq_some_getLast hne]
      exact List.mem_of_getLast? (hwhole ▸ hlast)
    have hdigit : isDecimal '\n' = true := by
      rw [hversion] at hmem
      rcases List.mem_cons.mp hmem with heq | hmem
      · exact isDecimal_of_isDigit (isDigit_of_range (heq ▸ hc))
      · exact hl' _ hmem
    rw [not_isDecimal_newline] at hdigit
    cases hdigit

theorem roundTrips_iff (a : Award) : a.RoundTrips ↔ a.version < 10 ^ maxStrDigits := by
  constructor
  · rintro ⟨s, hs, -⟩
    exact (a.id_eq_ok.mp hs).1
  · intro hversion
    refine ⟨_, a.id_eq_ok.mpr ⟨hversion, rfl⟩, parseAwardId_eq_ok.mpr ⟨a.groups, a.groups_matched,
      a.groups_valid.mpr hversion, Or.inl String.toList_ofList, ?_⟩⟩
    rw [a.award_groups]
    exact ⟨rfl, rfl, rfl⟩

theorem recognised_iff (s : String) : Recognised s ↔ ¬ Respelt s := by
  constructor
  · rintro ⟨hread, -⟩ ⟨t, ht, hspells, hne⟩
    exact hne ((awardText_iff.mpr (hread.mp (parseAwardId_isOk.mpr ⟨t, ht, hspells⟩))).eq_of_spells hspells)
  · intro hplain
    have htext : ∀ t, AwardText t → Spells s.toList t → s.toList = t :=
      fun t ht hspells => by_contra fun hne => hplain ⟨t, ht, hspells, hne⟩
    refine ⟨⟨fun hread => ?_, fun hid => ?_⟩, fun year sequence version hparse => ?_⟩
    · obtain ⟨t, ht, hspells⟩ := parseAwardId_isOk.mp hread
      exact awardText_iff.mp (htext t ht hspells ▸ ht)
    · have haward := awardText_iff.mpr hid
      exact parseAwardId_isOk.mpr ⟨s.toList, haward, haward.spells⟩
    · obtain ⟨t, ht, hspells⟩ := parseAwardId_isOk.mp ⟨_, hparse⟩
      obtain ⟨a, ha⟩ := awardText_iff.mp (htext t ht hspells ▸ ht)
      obtain ⟨s', hs', hback⟩ := (roundTrips_iff a).mpr (a.id_eq_ok.mp ha).1
      obtain rfl : s' = s := Except.ok.inj (hs'.symm.trans ha)
      obtain ⟨rfl, hrest⟩ := Prod.mk.inj (Except.ok.inj (hparse.symm.trans hback))
      obtain ⟨rfl, rfl⟩ := Prod.mk.inj hrest
      exact ha

/-- **When award identifiers are faithful**: an award is read back exactly if its version can be written, no two awards
share an identifier, and a text is recognised exactly if it does not spell an identifier in another way. -/
theorem faithful_iff (a : Award) (s : String) : (a.RoundTrips ↔ a.version < 10 ^ maxStrDigits) ∧
    (∀ b : Award, a.id = .ok s → b.id = .ok s → a = b) ∧ (Recognised s ↔ ¬ Respelt s) := by
  refine ⟨roundTrips_iff a, fun b ha hb => ?_, recognised_iff s⟩
  have hread : ∀ a : Award, a.id = .ok s → parseAwardId s = .ok (a.year, a.sequence, a.version) := by
    intro a ha
    obtain ⟨s', hs', hback⟩ := (roundTrips_iff a).mpr (a.id_eq_ok.mp ha).1
    obtain rfl : s' = s := Except.ok.inj (hs'.symm.trans ha)
    exact hback
  obtain ⟨hyear, hrest⟩ := Prod.mk.inj (Except.ok.inj ((hread a ha).symm.trans (hread b hb)))
  obtain ⟨hsequence, hversion⟩ := Prod.mk.inj hrest
  exact Award.ext hsequence hyear hversion

/-- The groups of the identifier `0251-4064-4677-1`. -/
def firstIssued : Groups where
  year := ['0', '2', '5']
  scheme := ['1']
  head := ['4', '0', '6', '4']
  tail := ['4', '6', '7']
  check := ['7']
  version := ['1']

theorem firstIssued_text : AwardText firstIssued.text := by
  have hdigits : ∀ l : List Char, l.all Char.isDigit = true → ∀ c ∈ l, isDecimal c = true :=
    fun l h c hc => isDecimal_of_isDigit (List.all_eq_true.mp h c hc)
  refine ⟨firstIssued, ⟨?_, ?_, ?_, ?_, ?_, ?_⟩, ⟨?_, ?_, ?_⟩, ?_, rfl⟩
  · exact ⟨rfl, hdigits _ rfl⟩
  · exact ⟨rfl, hdigits _ rfl⟩
  · exact ⟨rfl, hdigits _ rfl⟩
  · exact ⟨rfl, hdigits _ rfl⟩
  · exact ⟨rfl, hdigits _ rfl⟩
  · exact ⟨'1', [], rfl, by decide, fun _ hc => absurd hc List.not_mem_nil⟩
  · decide
  · decide
  · decide
  · rfl

/-- An identifier with a newline after it is read as the identifier. -/
theorem newline_read : ¬ ((∀ a : Award, a.RoundTrips) ∧ ∀ s, Recognised s) := by
  rintro ⟨-, hall⟩
  refine (recognised_iff (String.ofList (firstIssued.text ++ ['\n']))).mp (hall _) ⟨firstIssued.text, firstIssued_text, ?_, ?_⟩
  · rw [String.toList_ofList]
    exact ⟨firstIssued.text, Or.inr rfl, by decide, rfl⟩
  · rw [String.toList_ofList]
    decide

end Faithful

end Waldur.Proposals
