import Mathlib

/-!
# Lib.UnicodeEscape — `bytes(text, "utf-8").decode("unicode_escape")`

Texts of Python are lists of code points.  The decoder reads one byte at a time: a byte of the encoding of a character
outside of ASCII is a character of its own, and a backslash starts an escape of Python.  What a text decodes to is put
together from what its parts decode to (`decodeText_cons`, `decodeText_escape`).
-/

namespace UnicodeEscape

/-- A text, by its code points. -/
abbrev Str := List ℕ

/-- The code points of a text of Lean. -/
def codes (s : String) : Str := s.toList.map Char.toNat

/-- `UnicodeEncodeError` and `UnicodeDecodeError`. -/
inductive UnicodeError
  | encode
  | decode
deriving DecidableEq, Repr

/-! ## UTF-8 -/

/-- A character in UTF-8; a surrogate has no encoding. -/
def utf8Char (c : ℕ) : Except UnicodeError (List ℕ) :=
  if c < 0x80 then .ok [c]
  else if c < 0x800 then .ok [0xC0 + c / 64, 0x80 + c % 64]
  else if 0xD800 ≤ c ∧ c < 0xE000 then .error .encode
  else if c < 0x10000 then .ok [0xE0 + c / 4096, 0x80 + c / 64 % 64, 0x80 + c % 64]
  else .ok [0xF0 + c / 262144, 0x80 + c / 4096 % 64, 0x80 + c / 64 % 64, 0x80 + c % 64]

/-- `bytes(text, "utf-8")`. -/
def utf8 : Str → Except UnicodeError (List ℕ)
  | [] => .ok []
  | c :: l =>
    match utf8Char c with
    | .error e => .error e
    | .ok bytes => (utf8 l).map (bytes ++ ·)

/-! ## Escapes -/

def backslash : ℕ := 92

def hexValue (c : ℕ) : Option ℕ :=
  if 48 ≤ c ∧ c ≤ 57 then some (c - 48)
  else if 97 ≤ c ∧ c ≤ 102 then some (c - 87)
  else if 65 ≤ c ∧ c ≤ 70 then some (c - 55)
  else none

/-- The number of the next hexadecimal digits. -/
def readHex : ℕ → ℕ → List ℕ → Option (ℕ × List ℕ)
  | 0, acc, l => some (acc, l)
  | _ + 1, _, [] => none
  | k + 1, acc, c :: l => (hexValue c).bind fun d => readHex k (16 * acc + d) l

def isOctal (c : ℕ) : Bool := decide (48 ≤ c ∧ c ≤ 55)

/-- The number of the next octal digits, at most so many. -/
def readOctal : ℕ → ℕ → List ℕ → ℕ × List ℕ
  | 0, acc, l => (acc, l)
  | _ + 1, acc, [] => (acc, [])
  | k + 1, acc, c :: l => if isOctal c then readOctal k (8 * acc + (c - 48)) l else (acc, c :: l)

/-- The escapes of one letter; a newline is left out. -/
def letterEscapes : List (ℕ × List ℕ) :=
  [(10, []), (92, [92]), (39, [39]), (34, [34]), (98, [8]), (102, [12]), (116, [9]), (110, [10]), (114, [13]),
    (118, [11]), (97, [7])]

/-- `\N{name}`, by the names of the character database. -/
def readName (names : List ℕ → Option ℕ) : List ℕ → Except UnicodeError (List ℕ × List ℕ)
  | 123 :: l =>
    match l.span (· != 125) with
    | (name, _ :: rest) =>
      match names name with
      | some c => if name = [] then .error .decode else .ok ([c], rest)
      | none => .error .decode
    | (_, []) => .error .decode
  | _ => .error .decode

/-- A number of hexadecimal digits. -/
def readCode (k : ℕ) (l : List ℕ) : Except UnicodeError (List ℕ × List ℕ) :=
  match readHex k 0 l with
  | some (c, rest) => if c ≤ 0x10FFFF then .ok ([c], rest) else .error .decode
  | none => .error .decode

/-- What follows a backslash: the characters it stands for, and the bytes after it.  An escape that Python does not know
stands for itself. -/
def unescape (names : List ℕ → Option ℕ) : List ℕ → Except UnicodeError (List ℕ × List ℕ)
  | [] => .error .decode
  | c :: l =>
    match letterEscapes.lookup c with
    | some chars => .ok (chars, l)
    | none =>
      if isOctal c then .ok ([(readOctal 2 (c - 48) l).1], (readOctal 2 (c - 48) l).2)
      else if c = 120 then readCode 2 l
      else if c = 117 then readCode 4 l
      else if c = 85 then readCode 8 l
      else if c = 78 then readName names l
      else .ok ([backslash, c], l)

/-- The loop of the decoder; each round takes a byte at least. -/
def decodeFrom (names : List ℕ → Option ℕ) : ℕ → List ℕ → Except UnicodeError Str
  | _, [] => .ok []
  | 0, _ :: _ => .error .decode
  | n + 1, c :: l =>
    if c = backslash then
      match unescape names l with
      | .error e => .error e
      | .ok (chars, rest) => (decodeFrom names n rest).map (chars ++ ·)
    else (decodeFrom names n l).map (c :: ·)

/-- `data.decode("unicode_escape")`. -/
def decode (names : List ℕ → Option ℕ) (data : List ℕ) : Except UnicodeError Str := decodeFrom names data.length data

/-- `bytes(text, "utf-8").decode("unicode_escape")`. -/
def decodeText (names : List ℕ → Option ℕ) (text : Str) : Except UnicodeError Str := (utf8 text).bind (decode names)

section Decode

variable {names : List ℕ → Option ℕ} {c k n m acc v : ℕ} {l l' r bytes chars : List ℕ} {s : Str}

theorem readHex_length {x : ℕ × List ℕ} (h : readHex k acc l = some x) : x.2.length ≤ l.length := by
  induction k generalizing acc l with
  | zero => exact (Option.some.inj h) ▸ le_rfl
  | succ k ih =>
    cases l with
    | nil => cases h
    | cons c l =>
      unfold readHex at h
      obtain ⟨d, -, h⟩ := Option.bind_eq_some_iff.mp h
      exact (ih h).trans (Nat.le_succ _)

theorem readOctal_length : (readOctal k acc l).2.length ≤ l.length := by
  induction k generalizing acc l with
  | zero => exact le_rfl
  | succ k ih =>
    cases l with
    | nil => exact le_rfl
    | cons c l =>
      unfold readOctal
      split_ifs
      · exact ih.trans (Nat.le_succ _)
      · exact le_rfl

theorem readCode_length {x : List ℕ × List ℕ} (h : readCode k l = .ok x) : x.2.length ≤ l.length := by
  unfold readCode at h
  cases hread : readHex k 0 l with
  | none =>
    rw [hread] at h
    cases h
  | some y =>
    rw [hread] at h
    simp only at h
    split_ifs at h
    exact (Except.ok.inj h) ▸ readHex_length hread

theorem readName_length {x : List ℕ × List ℕ} (h : readName names l = .ok x) : x.2.length ≤ l.length := by
  unfold readName at h
  split at h
  · rename_i l'
    split at h
    · rename_i name d rest hspan
      split at h
      · split_ifs at h
        rw [← Except.ok.inj h]
        rw [List.span_eq_takeWhile_dropWhile] at hspan
        have hdrop := congrArg List.length (Prod.mk.inj hspan).2
        have hle := (List.dropWhile_sublist (fun x : ℕ => x != 125) (l := l')).length_le
        simp only [List.length_cons] at *
        omega
      · cases h
    · cases h
  · cases h

/-- An escape takes a byte at least. -/
theorem unescape_length {x : List ℕ × List ℕ} (h : unescape names l = .ok x) : x.2.length < l.length := by
  cases l with
  | nil => cases h
  | cons c l =>
    unfold unescape at h
    rw [List.length_cons, Nat.lt_succ_iff]
    cases hletter : letterEscapes.lookup c with
    | some chars =>
      simp only [hletter] at h
      exact (Except.ok.inj h) ▸ le_rfl
    | none =>
      simp only [hletter] at h
      split_ifs at h
      · exact (Except.ok.inj h) ▸ readOctal_length
      · exact readCode_length h
      · exact readCode_length h
      · exact readCode_length h
      · exact readName_length h
      · exact (Except.ok.inj h) ▸ le_rfl

/-- As many rounds as there are bytes are enough. -/
theorem decodeFrom_eq (hn : l.length ≤ n) : decodeFrom names n l = decode names l := by
  have hsame : ∀ (n m : ℕ) (l : List ℕ), l.length ≤ n → l.length ≤ m →
      decodeFrom names n l = decodeFrom names m l := by
    intro n
    induction n with
    | zero =>
      intro m l hn hm
      rw [List.length_eq_zero_iff.mp (Nat.le_zero.mp hn)]
      unfold decodeFrom
      rfl
    | succ n ih =>
      intro m l hn hm
      cases l with
      | nil =>
        unfold decodeFrom
        rfl
      | cons c l =>
        rw [List.length_cons] at hn hm
        obtain ⟨m, rfl⟩ : ∃ m', m = m' + 1 := ⟨m - 1, by omega⟩
        unfold decodeFrom
        rw [ih m l (by omega) (by omega)]
        cases hunescape : unescape names l with
        | error e => rfl
        | ok x =>
          have hlength := unescape_length hunescape
          simp only
          rw [ih m x.2 (by omega) (by omega)]
  exact hsame n l.length l hn le_rfl

theorem decode_cons (hc : c ≠ backslash) : decode names (c :: l) = (decode names l).map (c :: ·) := if_neg hc

theorem decode_escape (h : unescape names l = .ok (chars, r)) :
    decode names (backslash :: l) = (decode names r).map (chars ++ ·) := by
  have hlength : r.length < l.length := unescape_length h
  unfold decode
  rw [List.length_cons]
  conv_lhs => unfold decodeFrom
  rw [if_pos rfl, h]
  simp only
  rw [decodeFrom_eq hlength.le]
  rfl

theorem decode_append (h : ∀ c ∈ bytes, c ≠ backslash) :
    decode names (bytes ++ l) = (decode names l).map (bytes ++ ·) := by
  induction bytes with
  | nil =>
    rw [List.nil_append]
    cases decode names l <;> rfl
  | cons c bytes ih =>
    rw [List.cons_append, decode_cons (h c List.mem_cons_self), ih fun d hd => h d (List.mem_cons_of_mem c hd)]
    cases decode names l <;> rfl

/-! ### Texts -/

theorem utf8Char_ascii (hc : c < 128) : utf8Char c = .ok [c] := if_pos hc

/-- A character outside of ASCII has two bytes or more, and none is a backslash. -/
theorem utf8Char_large (hc : 128 ≤ c) (h : utf8Char c = .ok bytes) : 2 ≤ bytes.length ∧ ∀ b ∈ bytes, b ≠ backslash := by
  unfold utf8Char at h
  rw [if_neg (by omega)] at h
  split_ifs at h
  all_goals
    obtain rfl := Except.ok.inj h
    simp only [List.length_cons, List.length_nil, List.mem_cons, List.not_mem_nil, or_false, forall_eq_or_imp,
      forall_eq, backslash]
    omega

theorem utf8_append_ascii (h : ∀ c ∈ l, c < 128) : utf8 (l ++ s) = (utf8 s).map (l ++ ·) := by
  induction l with
  | nil =>
    rw [List.nil_append]
    cases utf8 s <;> rfl
  | cons c l ih =>
    rw [List.cons_append]
    conv_lhs => unfold utf8
    rw [utf8Char_ascii (h c List.mem_cons_self), ih fun d hd => h d (List.mem_cons_of_mem c hd)]
    cases utf8 s <;> rfl

theorem decodeText_cons (hc : c < 128) (hne : c ≠ backslash) :
    decodeText names (c :: s) = (decodeText names s).map (c :: ·) := by
  unfold decodeText
  rw [← List.singleton_append, utf8_append_ascii (by simpa using hc)]
  cases utf8 s with
  | error e => rfl
  | ok data => exact decode_cons hne

/-- An escape in ASCII decodes to what it stands for. -/
theorem decodeText_escape (l chars : List ℕ) (hl : ∀ c ∈ l, c < 128)
    (h : ∀ r, unescape names (l ++ r) = .ok (chars, r)) :
    decodeText names (backslash :: (l ++ s)) = (decodeText names s).map (chars ++ ·) := by
  have hascii : ∀ c ∈ backslash :: l, c < 128 := List.forall_mem_cons.mpr ⟨by decide, hl⟩
  unfold decodeText
  rw [← List.cons_append, utf8_append_ascii hascii]
  cases utf8 s with
  | error e => rfl
  | ok data => exact decode_escape (h data)

/-- The bytes of a character outside of ASCII. -/
theorem decodeText_large (hc : 128 ≤ c) (h : utf8Char c = .ok bytes) :
    decodeText names (c :: s) = (decodeText names s).map (bytes ++ ·) := by
  unfold decodeText
  conv_lhs => unfold utf8
  rw [h]
  cases utf8 s with
  | error e => rfl
  | ok data => exact decode_append (utf8Char_large hc h).2

theorem decodeText_surrogate (names : List ℕ → Option ℕ) (s : Str) {e : UnicodeError}
    (h : utf8Char c = .error e) : decodeText names (c :: s) = .error e := by
  unfold decodeText utf8
  rw [h]
  rfl

/-! ### Numbers in hexadecimal -/

theorem readHex_append (h : readHex k acc l = some (v, [])) : readHex k acc (l ++ r) = some (v, r) := by
  induction k generalizing acc l with
  | zero =>
    obtain ⟨rfl, rfl⟩ := Prod.mk.inj (Option.some.inj h)
    rfl
  | succ k ih =>
    cases l with
    | nil => cases h
    | cons c l =>
      unfold readHex at h
      obtain ⟨d, hd, h⟩ := Option.bind_eq_some_iff.mp h
      rw [List.cons_append]
      unfold readHex
      rw [hd]
      exact ih h

theorem hexValue_bounds {d : ℕ} (h : hexValue c = some d) : d < 16 ∧ c < 128 := by
  unfold hexValue at h
  split_ifs at h
  all_goals
    obtain rfl := Option.some.inj h
    omega

/-- Digits are ASCII, and there are as many as asked for. -/
theorem readHex_digits (h : readHex k acc l = some (v, [])) :
    (∀ c ∈ l, c < 128) ∧ l.length = k ∧ v < (acc + 1) * 16 ^ k := by
  induction k generalizing acc l with
  | zero =>
    obtain ⟨rfl, rfl⟩ := Prod.mk.inj (Option.some.inj h)
    exact ⟨by simp, rfl, by omega⟩
  | succ k ih =>
    cases l with
    | nil => cases h
    | cons c l =>
      unfold readHex at h
      obtain ⟨d, hd, h⟩ := Option.bind_eq_some_iff.mp h
      obtain ⟨hl, hlength, hv⟩ := ih h
      obtain ⟨hlt, hc⟩ := hexValue_bounds hd
      refine ⟨List.forall_mem_cons.mpr ⟨hc, hl⟩, by rw [List.length_cons, hlength], hv.trans_le ?_⟩
      rw [pow_succ', ← mul_assoc]
      exact Nat.mul_le_mul_right _ (by omega)

/-- `\uXXXX`. -/
theorem decodeText_unicode (h : readHex 4 0 l = some (v, [])) :
    decodeText names (backslash :: 117 :: (l ++ s)) = (decodeText names s).map (v :: ·) := by
  obtain ⟨hl, -, hv⟩ := readHex_digits h
  refine decodeText_escape (117 :: l) [v] (List.forall_mem_cons.mpr ⟨by decide, hl⟩) fun r => ?_
  show readCode 4 (l ++ r) = .ok ([v], r)
  unfold readCode
  rw [readHex_append h]
  exact if_pos (by omega)

end Decode

end UnicodeEscape
