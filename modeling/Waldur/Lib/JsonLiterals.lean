import Mathlib
import Waldur.Lib.UnicodeEscape

/-!
# Lib.JsonLiterals — string literals of JSON, read by the wrong decoder

What the body of a literal encodes, by the rules of JSON: characters of any script, the escapes of one letter, `\uXXXX`
and surrogate pairs.  `unicode_escape` agrees with JSON on `Plain` literals only (`decodeText_iff`): elsewhere it makes
more characters than there are.
-/

namespace JsonLiterals

open UnicodeEscape

def quote : ℕ := 34

/-- The escapes of one letter. -/
def escapes : List (ℕ × ℕ) := [(34, 34), (92, 92), (47, 47), (98, 8), (102, 12), (110, 10), (114, 13), (116, 9)]

def IsHigh (v : ℕ) : Prop := 0xD800 ≤ v ∧ v < 0xDC00

def IsLow (v : ℕ) : Prop := 0xDC00 ≤ v ∧ v < 0xE000

/-- The character of a surrogate pair. -/
def combine (high low : ℕ) : ℕ := 0x10000 + (high - 0xD800) * 0x400 + (low - 0xDC00)

/-- The text goes on with the escape of a low surrogate. -/
def StartsLow (l : Str) : Prop :=
  ∃ digits v r, l = backslash :: 117 :: (digits ++ r) ∧ readHex 4 0 digits = some (v, []) ∧ IsLow v

/-- The body of a literal encodes a string. -/
inductive Encodes : Str → Str → Prop
  | nil : Encodes [] []
  | raw {c : ℕ} {l s : Str} (hcontrol : 0x20 ≤ c) (hquote : c ≠ quote) (hbackslash : c ≠ backslash)
      (h : Encodes l s) : Encodes (c :: l) (c :: s)
  | escape {e c : ℕ} {l s : Str} (hescape : (e, c) ∈ escapes) (h : Encodes l s) :
      Encodes (backslash :: e :: l) (c :: s)
  | unicode {digits l s : Str} {v : ℕ} (hdigits : readHex 4 0 digits = some (v, []))
      (halone : ¬ (IsHigh v ∧ StartsLow l)) (h : Encodes l s) : Encodes (backslash :: 117 :: (digits ++ l)) (v :: s)
  | pair {digits digits' l s : Str} {v w : ℕ} (hdigits : readHex 4 0 digits = some (v, []))
      (hdigits' : readHex 4 0 digits' = some (w, [])) (hhigh : IsHigh v) (hlow : IsLow w) (h : Encodes l s) :
      Encodes (backslash :: 117 :: (digits ++ backslash :: 117 :: (digits' ++ l))) (combine v w :: s)

/-- A literal in ASCII, without `\/` and without surrogate pairs. -/
inductive Plain : Str → Prop
  | nil : Plain []
  | raw {c : ℕ} {l : Str} (hascii : c < 128) (hbackslash : c ≠ backslash) (h : Plain l) : Plain (c :: l)
  | escape {e : ℕ} {l : Str} (hslash : e ≠ 47) (hunicode : e ≠ 117) (h : Plain l) : Plain (backslash :: e :: l)
  | unicode {digits l : Str} {v : ℕ} (hdigits : readHex 4 0 digits = some (v, []))
      (halone : ¬ (IsHigh v ∧ StartsLow l)) (h : Plain l) : Plain (backslash :: 117 :: (digits ++ l))

section Plain

variable {c e v w : ℕ} {l digits digits' : Str}

theorem plain_raw (hbackslash : c ≠ backslash) : Plain (c :: l) ↔ c < 128 ∧ Plain l := by
  refine ⟨fun h => ?_, fun h => .raw h.1 hbackslash h.2⟩
  cases h with
  | raw hascii _ h => exact ⟨hascii, h⟩
  | escape => exact absurd rfl hbackslash
  | unicode => exact absurd rfl hbackslash

theorem plain_escape (hunicode : e ≠ 117) : Plain (backslash :: e :: l) ↔ e ≠ 47 ∧ Plain l := by
  refine ⟨fun h => ?_, fun h => .escape h.1 hunicode h.2⟩
  cases h with
  | raw _ hbackslash => exact absurd rfl hbackslash
  | escape hslash _ h => exact ⟨hslash, h⟩
  | unicode => exact absurd rfl hunicode

theorem append_inj_of_digits {l' : Str} (hdigits : readHex 4 0 digits = some (v, []))
    (hdigits' : readHex 4 0 digits' = some (w, [])) (h : digits ++ l = digits' ++ l') :
    digits = digits' ∧ v = w ∧ l = l' := by
  obtain ⟨rfl, rfl⟩ := List.append_inj h ((readHex_digits hdigits).2.1.trans (readHex_digits hdigits').2.1.symm)
  rw [hdigits] at hdigits'
  exact ⟨rfl, (Prod.mk.inj (Option.some.inj hdigits')).1, rfl⟩

theorem plain_unicode (hdigits : readHex 4 0 digits = some (v, [])) :
    Plain (backslash :: 117 :: (digits ++ l)) ↔ ¬ (IsHigh v ∧ StartsLow l) ∧ Plain l := by
  refine ⟨fun h => ?_, fun h => .unicode hdigits h.1 h.2⟩
  generalize htext : backslash :: 117 :: (digits ++ l) = text at h
  cases h with
  | nil => cases htext
  | raw _ hbackslash => exact absurd (List.cons.inj htext).1.symm hbackslash
  | escape _ hunicode => exact absurd (List.cons.inj (List.cons.inj htext).2).1.symm hunicode
  | unicode hdigits' halone h =>
    obtain ⟨-, rfl, rfl⟩ := append_inj_of_digits hdigits hdigits' (List.cons.inj (List.cons.inj htext).2).2
    exact ⟨halone, h⟩

end Plain

section Decode

variable {names : List ℕ → Option ℕ} {c e n : ℕ} {l s chars : Str} {result : Except UnicodeError Str}

/-- A literal decodes to its string if it is plain, and to no shorter one in any case. -/
def Agrees (names : List ℕ → Option ℕ) (l s : Str) : Prop :=
  (decodeText names l = .ok s ↔ Plain l) ∧ ∀ s', decodeText names l = .ok s' → s.length ≤ s'.length

theorem map_append_length (h : result.map (chars ++ ·) = .ok s) : ∃ s', result = .ok s' ∧ s = chars ++ s' := by
  cases result with
  | error e => cases h
  | ok s' => exact ⟨s', rfl, (Except.ok.inj h).symm⟩

/-- An element that stands for its character. -/
theorem agrees_good {text : Str} (h : Agrees names l s)
    (htext : decodeText names text = (decodeText names l).map ([c] ++ ·)) (hplain : Plain text ↔ Plain l) :
    Agrees names text (c :: s) := by
  refine ⟨?_, fun s' hs' => ?_⟩
  · rw [htext, hplain, ← h.1]
    constructor
    · intro heq
      obtain ⟨s', hs', hcons⟩ := map_append_length heq
      rw [hs']
      exact congrArg Except.ok (List.cons.inj hcons).2.symm
    · intro heq
      rw [heq]
      rfl
  · rw [htext] at hs'
    obtain ⟨t, ht, rfl⟩ := map_append_length hs'
    exact Nat.succ_le_succ (h.2 t ht)

/-- An element that stands for two characters or more. -/
theorem agrees_bad {text : Str} (h : Agrees names l s)
    (htext : decodeText names text = (decodeText names l).map (chars ++ ·)) (hchars : 2 ≤ chars.length)
    (hplain : ¬ Plain text) : Agrees names text (c :: s) := by
  have hlonger : ∀ s', decodeText names text = .ok s' → (c :: s).length < s'.length := by
    intro s' hs'
    rw [htext] at hs'
    obtain ⟨t, ht, rfl⟩ := map_append_length hs'
    have hle := h.2 t ht
    rw [List.length_append, List.length_cons]
    omega
  exact ⟨iff_of_false (fun heq => absurd (hlonger _ heq) (lt_irrefl _)) hplain, fun s' hs' => (hlonger s' hs').le⟩

theorem agrees_raw (hbackslash : c ≠ backslash) (h : Agrees names l s) : Agrees names (c :: l) (c :: s) := by
  by_cases hascii : c < 128
  · refine agrees_good h (decodeText_cons hascii hbackslash) ?_
    rw [plain_raw hbackslash]
    exact and_iff_right hascii
  · have hplain : ¬ Plain (c :: l) := fun hplain => hascii ((plain_raw hbackslash).mp hplain).1
    cases hbytes : utf8Char c with
    | error e =>
      have herror := decodeText_surrogate names l hbytes
      refine ⟨iff_of_false (fun heq => ?_) hplain, fun s' hs' => ?_⟩
      · rw [herror] at heq
        cases heq
      · rw [herror] at hs'
        cases hs'
    | ok bytes =>
      have hlarge := not_lt.mp hascii
      exact agrees_bad h (decodeText_large hlarge hbytes) (utf8Char_large hlarge hbytes).1 hplain

/-- The escapes of JSON are escapes of Python, but for the slash. -/
theorem unescape_escape (h : (e, c) ∈ escapes) (hslash : e ≠ 47) (r : List ℕ) :
    unescape names (e :: r) = .ok ([c], r) := by
  unfold escapes at h
  simp only [List.mem_cons, Prod.mk.injEq, List.not_mem_nil, or_false] at h
  rcases h with ⟨rfl, rfl⟩ | ⟨rfl, rfl⟩ | ⟨rfl, rfl⟩ | ⟨rfl, rfl⟩ | ⟨rfl, rfl⟩ | ⟨rfl, rfl⟩ | ⟨rfl, rfl⟩ | ⟨rfl, rfl⟩
  case inr.inr.inl => exact absurd rfl hslash
  all_goals rfl

theorem escape_ascii (h : (e, c) ∈ escapes) : e < 128 ∧ e ≠ 117 := by
  have hall : ∀ x ∈ escapes, x.1 < 128 ∧ x.1 ≠ 117 := by decide
  exact hall _ h

theorem agrees_escape (hescape : (e, c) ∈ escapes) (h : Agrees names l s) :
    Agrees names (backslash :: e :: l) (c :: s) := by
  obtain ⟨hascii, hunicode⟩ := escape_ascii hescape
  have hall : ∀ d ∈ [e], d < 128 := by simpa using hascii
  by_cases hslash : e = 47
  · subst hslash
    refine agrees_bad h (decodeText_escape [47] [backslash, 47] hall fun r => rfl) le_rfl ?_
    rw [plain_escape hunicode]
    exact fun hplain => hplain.1 rfl
  · refine agrees_good h (decodeText_escape [e] [c] hall fun r => unescape_escape hescape hslash r) ?_
    rw [plain_escape hunicode]
    exact and_iff_right hslash

theorem agrees_of_encodes (h : Encodes l s) : Agrees names l s := by
  induction h with
  | nil => exact ⟨iff_of_true rfl .nil, fun s' _ => Nat.zero_le _⟩
  | raw _ _ hbackslash _ ih => exact agrees_raw hbackslash ih
  | escape hescape _ ih => exact agrees_escape hescape ih
  | unicode hdigits halone _ ih =>
    refine agrees_good ih (decodeText_unicode hdigits) ?_
    rw [plain_unicode hdigits]
    exact and_iff_right halone
  | @pair digits digits' l s v w hdigits hdigits' hhigh hlow _ ih =>
    have hpair : decodeText names (backslash :: 117 :: (digits ++ backslash :: 117 :: (digits' ++ l))) =
        (decodeText names l).map ([v, w] ++ ·) := by
      rw [decodeText_unicode hdigits, decodeText_unicode hdigits']
      cases decodeText names l <;> rfl
    refine agrees_bad ih hpair le_rfl ?_
    rw [plain_unicode hdigits]
    exact fun hplain => hplain.1 ⟨hhigh, digits', w, l, rfl, hdigits', hlow⟩

/-- **Where `unicode_escape` reads what JSON encodes**: exactly in plain literals. -/
theorem decodeText_iff (names : List ℕ → Option ℕ) (h : Encodes l s) : decodeText names l = .ok s ↔ Plain l :=
  (agrees_of_encodes h).1

end Decode

end JsonLiterals
