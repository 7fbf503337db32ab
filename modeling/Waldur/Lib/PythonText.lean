import Mathlib

/-!
# Lib.PythonText — numbers and uuids read from text

`uuid.UUID(text)` and `uuid.hex`, `int(text)` and `str(n)` on their usual spellings: hexadecimal digits of either case
with dashes, braces and the prefixes `urn:` and `uuid:`, decimal digits with a sign, blanks around and underscores
between.  What a uuid or a number prints is read back as it (`readUuid_hex`, `readInt_repr`).
-/

namespace PythonText

/-- A uuid, as its number. -/
abbrev Uuid := Fin (2 ^ 128)

/-! ## Hexadecimal -/

def hexDigit (n : ℕ) : Char :=
  ['0', '1', '2', '3', '4', '5', '6', '7', '8', '9', 'a', 'b', 'c', 'd', 'e', 'f'].getD n '0'

def hexValue (c : Char) : Option ℕ :=
  if '0' ≤ c ∧ c ≤ '9' then some (c.toNat - 48)
  else if 'a' ≤ c ∧ c ≤ 'f' then some (c.toNat - 87)
  else if 'A' ≤ c ∧ c ≤ 'F' then some (c.toNat - 55)
  else none

/-- The last `k` digits of `n`. -/
def hexDigits : ℕ → ℕ → List Char
  | 0, _ => []
  | k + 1, n => hexDigits k (n / 16) ++ [hexDigit (n % 16)]

/-- `int(text, 16)`. -/
def readHex (l : List Char) : Option ℕ := l.foldl (fun acc c => acc.bind fun n => (hexValue c).map (16 * n + ·)) (some 0)

theorem hexValue_hexDigit {n : ℕ} (h : n < 16) : hexValue (hexDigit n) = some n := by
  interval_cases n <;> decide

theorem length_hexDigits (k n : ℕ) : (hexDigits k n).length = k := by
  induction k generalizing n with
  | zero => rfl
  | succ k ih => simp [hexDigits, ih]

theorem readHex_hexDigits (k n : ℕ) : readHex (hexDigits k n) = some (n % 16 ^ k) := by
  induction k generalizing n with
  | zero =>
    rw [pow_zero, Nat.mod_one]
    rfl
  | succ k ih =>
    have hfold : readHex (hexDigits (k + 1) n) =
        (readHex (hexDigits k (n / 16))).bind fun x => (hexValue (hexDigit (n % 16))).map (16 * x + ·) := by
      simp only [readHex, hexDigits, List.foldl_append, List.foldl_cons, List.foldl_nil]
    rw [hfold, ih, hexValue_hexDigit (Nat.mod_lt n (by omega)), Option.bind_some, Option.map_some]
    rw [pow_succ', Nat.mod_mul, add_comm]

/-! ## Uuids -/

/-- `text.replace(pattern, '')`; the counter is what is left of an occurrence. -/
def without (pattern : List Char) : ℕ → List Char → List Char
  | _, [] => []
  | n + 1, _ :: l => without pattern n l
  | 0, c :: l => if pattern.isPrefixOf (c :: l) then without pattern (pattern.length - 1) l else c :: without pattern 0 l

/-- `text.strip(chars)`. -/
def strip (p : Char → Bool) (l : List Char) : List Char := ((l.dropWhile p).reverse.dropWhile p).reverse

/-- `uuid.UUID(text)`; `none` is a `ValueError`. -/
def readUuid (s : String) : Option Uuid :=
  let digits := (strip ("{}".toList.contains ·) (without "uuid:".toList 0 (without "urn:".toList 0 s.toList))).filter (· ≠ '-')
  if digits.length = 32 then (readHex digits).bind fun n => if h : n < 2 ^ 128 then some ⟨n, h⟩ else none else none

/-- `uuid.hex`. -/
def hex (u : Uuid) : String := String.ofList (hexDigits 32 u)

theorem mem_hexDigits {k n : ℕ} {c : Char} (h : c ∈ hexDigits k n) : ∃ d < 16, c = hexDigit d := by
  induction k generalizing n with
  | zero => exact absurd h List.not_mem_nil
  | succ k ih =>
    rcases List.mem_append.mp h with h | h
    · exact ih h
    · exact ⟨n % 16, Nat.mod_lt n (by omega), List.mem_singleton.mp h⟩

theorem without_eq_self {pattern : List Char} {x : Char} {l : List Char} (h : ∀ c ∈ l, c ≠ x) :
    without (x :: pattern) 0 l = l := by
  induction l with
  | nil => rfl
  | cons c l ih =>
    have hne : (x :: pattern).isPrefixOf (c :: l) = false := by
      have hx : (x == c) = false := beq_eq_false_iff_ne.mpr fun heq => h c List.mem_cons_self heq.symm
      simp [List.isPrefixOf, hx]
    rw [without, hne, ih fun c' hc' => h c' (List.mem_cons_of_mem _ hc')]
    rfl

theorem strip_eq_self {p : Char → Bool} {l : List Char} (h : ∀ c ∈ l, p c = false) : strip p l = l := by
  have hdrop : ∀ l : List Char, (∀ c ∈ l, p c = false) → l.dropWhile p = l := by
    intro l hl
    cases l with
    | nil => rfl
    | cons c l => rw [List.dropWhile_cons_of_neg (by rw [hl c List.mem_cons_self]; exact Bool.false_ne_true)]
  unfold strip
  rw [hdrop l h, hdrop l.reverse fun c hc => h c (List.mem_reverse.mp hc), List.reverse_reverse]

/-- A text is cut at the last separator in one way. -/
theorem last_separator {x : Char} {l l' r r' : List Char} (h : l ++ x :: r = l' ++ x :: r') (hr : x ∉ r)
    (hr' : x ∉ r') : l = l' ∧ r = r' := by
  have htake : ∀ l r : List Char, x ∉ r → (l ++ x :: r).rtakeWhile (fun c => decide (c ≠ x)) = r := by
    intro l r hr
    have hall : ∀ c ∈ r.reverse, decide (c ≠ x) = true := by
      intro c hc
      refine decide_eq_true ?_
      rintro rfl
      exact hr (List.mem_reverse.mp hc)
    unfold List.rtakeWhile
    rw [List.reverse_append, List.reverse_cons, List.append_assoc, List.takeWhile_append_of_pos hall]
    simp
  have hsame : r = r' := by
    rw [← htake l r hr, h, htake l' r' hr']
  subst hsame
  exact ⟨List.append_cancel_right h, rfl⟩

/-- **A uuid is read from what it prints.** -/
theorem readUuid_hex (u : Uuid) : readUuid (hex u) = some u := by
  have hchar : ∀ c ∈ hexDigits 32 u, c ≠ 'u' ∧ "{}".toList.contains c = false ∧ c ≠ '-' := by
    intro c hc
    obtain ⟨d, hd, rfl⟩ := mem_hexDigits hc
    interval_cases d <;> decide
  have hdigits : (strip ("{}".toList.contains ·)
      (without "uuid:".toList 0 (without "urn:".toList 0 (hexDigits 32 u)))).filter (· ≠ '-') = hexDigits 32 u := by
    have hu : ∀ c ∈ hexDigits 32 u, c ≠ 'u' := fun c hc => (hchar c hc).1
    have hurn : without "urn:".toList 0 (hexDigits 32 u) = hexDigits 32 u := without_eq_self hu
    have huuid : without "uuid:".toList 0 (hexDigits 32 u) = hexDigits 32 u := without_eq_self hu
    rw [hurn, huuid, strip_eq_self fun c hc => (hchar c hc).2.1]
    exact List.filter_eq_self.mpr fun c hc => decide_eq_true (hchar c hc).2.2
  have hsmall : (u : ℕ) % 16 ^ 32 = u := Nat.mod_eq_of_lt (lt_of_lt_of_eq u.isLt (by norm_num))
  unfold readUuid hex
  simp only [String.toList_ofList]
  rw [hdigits, if_pos (length_hexDigits 32 u), readHex_hexDigits, hsmall, Option.bind_some, dif_pos u.isLt]

/-! ## Integers -/

/-- `int(text)`; `none` is a `ValueError`. -/
def readInt (s : String) : Option ℤ :=
  match strip Char.isWhitespace s.toList with
  | '-' :: l => (String.ofList l).toNat?.map fun n => -(n : ℤ)
  | '+' :: l => (String.ofList l).toNat?.map Int.ofNat
  | l => (String.ofList l).toNat?.map Int.ofNat

theorem of_isDigit {c : Char} (h : c.isDigit = true) : c.isWhitespace = false ∧ c ≠ '-' ∧ c ≠ '+' := by
  refine ⟨Bool.eq_false_iff.mpr fun hspace => ?_, ?_, ?_⟩
  · simp only [Char.isWhitespace, Bool.or_eq_true, decide_eq_true_eq] at hspace
    rcases hspace with ((rfl | rfl) | rfl) | rfl <;> exact absurd h (by decide)
  · rintro rfl
    exact absurd h (by decide)
  · rintro rfl
    exact absurd h (by decide)

/-- **A number is read from what it prints.** -/
theorem readInt_repr (n : ℕ) : readInt n.repr = some n := by
  have hdigit : ∀ c ∈ n.repr.toList, c.isDigit = true := fun c hc =>
    Nat.isDigit_of_mem_toDigits (by omega) (by omega) (Nat.toList_repr ▸ hc)
  have hstrip : strip Char.isWhitespace n.repr.toList = n.repr.toList :=
    strip_eq_self fun c hc => (of_isDigit (hdigit c hc)).1
  have hread : (String.ofList n.repr.toList).toNat?.map Int.ofNat = some (n : ℤ) := by
    rw [String.ofList_toList, Nat.toNat?_repr]
    rfl
  unfold readInt
  rw [hstrip]
  split
  · next l hl => exact absurd rfl (of_isDigit (hdigit '-' (hl ▸ List.mem_cons_self))).2.1
  · next l hl => exact absurd rfl (of_isDigit (hdigit '+' (hl ▸ List.mem_cons_self))).2.2
  · exact hread

end PythonText
