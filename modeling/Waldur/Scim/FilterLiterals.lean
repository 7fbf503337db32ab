import Mathlib
import Waldur.Lib.JsonLiterals
import Waldur.Scim.Filters

/-!
# Scim.FilterLiterals — what a filter compares with

The literal of a filter is a string of JSON, and it is decoded as one of Python: the escapes are nearly the same, and a
name with an accent is not.  `compares_iff` has the exact condition on the literal.
-/

namespace Waldur.Scim.Filters

open UnicodeEscape JsonLiterals

/-- A literal, by its body. -/
def literal (body : Str) : Str := doubleQuote :: (body ++ [doubleQuote])

/-- The filter `path op token`. -/
def filterText (path op token : Str) : Str := path ++ 32 :: (op ++ 32 :: token)

/-- One token, as an attribute path or word. -/
structure IsPath (db : CharacterDatabase) (token : Str) : Prop where
  number : scanNumber token = none
  word : scanWord db token = some (token, [])

/-- The path of a supported text attribute. -/
structure IsTextAttribute (db : CharacterDatabase) (fields : Fields) (path : Str) (field : FilterField) : Prop where
  isPath : IsPath db path
  resolves : fields.entries.lookup (lower path) = some field
  text : field.boolean = false

section Scanning

variable {db : CharacterDatabase} {c d n : ℕ} {l r body s token op : Str}

theorem isPathChar_ascii (hc : c < 128) : isPathChar db c =
    (decide (48 ≤ c ∧ c ≤ 57 ∨ 65 ≤ c ∧ c ≤ 90 ∨ c = 95 ∨ 97 ≤ c ∧ c ≤ 122) || c == 45 || c == 58) := by
  unfold isPathChar
  rw [db.isWord_ascii c hc]

theorem isSpace_of_isPathChar (h : isPathChar db c = true) : isSpace c = false := by
  by_contra hspace
  rw [Bool.not_eq_false] at hspace
  unfold isPathChar at h
  rw [db.isWord_space c hspace, Bool.false_or, Bool.or_eq_true, beq_iff_eq, beq_iff_eq] at h
  rcases h with rfl | rfl
  · exact absurd hspace (by decide)
  · exact absurd hspace (by decide)

theorem isPathChar_space : isPathChar db 32 = false := by
  rw [isPathChar_ascii (by omega)]
  decide

theorem ne_of_isPathChar (h : isPathChar db c = true) : c ≠ doubleQuote ∧ c ≠ 40 ∧ c ≠ 41 := by
  refine ⟨?_, ?_, ?_⟩
  all_goals
    rintro rfl
    rw [isPathChar_ascii (by decide)] at h
    revert h
    decide

theorem scanQuoted_cons :
    scanQuoted (c :: l) = if c = doubleQuote then (scanString l).map fun x => (c :: x.1, x.2) else none := rfl

theorem scanNumber_cons : scanNumber (c :: l) =
    if c = 45 then (scanDecimal l).map fun x => (c :: x.1, x.2) else scanDecimal (c :: l) := rfl

theorem scanWord_cons : scanWord db (c :: l) =
    if isPathChar db c then some (c :: (scanPath db l).1, (scanPath db l).2) else none := rfl

theorem scanPath_cons_cons : scanPath db (c :: d :: l) =
    if isPathChar db c || (c == 46 && isPathChar db d) then
      (c :: (scanPath db (d :: l)).1, (scanPath db (d :: l)).2)
    else ([], c :: d :: l) := rfl

theorem scanPath_space : scanPath db (32 :: r) = ([], 32 :: r) := by
  cases r with
  | nil => exact if_neg (by rw [isPathChar_space]; exact Bool.false_ne_true)
  | cons d r =>
    rw [scanPath_cons_cons, isPathChar_space]
    rfl

/-! ### Strings -/

theorem scanString_raw (hquote : c ≠ doubleQuote) (hbackslash : c ≠ backslash) (hl : l ≠ []) :
    scanString (c :: l) = (scanString l).map fun x => (c :: x.1, x.2) := by
  cases l with
  | nil => exact absurd rfl hl
  | cons d l =>
    conv_lhs => unfold scanString
    rw [if_neg hquote, if_neg hbackslash]

theorem scanString_escape (hd : d ≠ 10) :
    scanString (backslash :: d :: l) = (scanString l).map fun x => (backslash :: d :: x.1, x.2) := by
  conv_lhs => unfold scanString
  rw [if_neg (by decide), if_pos rfl, if_neg hd]

theorem scanString_append (h : ∀ c ∈ l, c ≠ doubleQuote ∧ c ≠ backslash) (hr : r ≠ []) :
    scanString (l ++ r) = (scanString r).map fun x => (l ++ x.1, x.2) := by
  induction l with
  | nil =>
    rw [List.nil_append]
    cases scanString r <;> rfl
  | cons c l ih =>
    obtain ⟨hquote, hbackslash⟩ := h c List.mem_cons_self
    rw [List.cons_append, scanString_raw hquote hbackslash (by simp [hr]),
      ih fun d hd => h d (List.mem_cons_of_mem c hd)]
    cases scanString r <;> rfl

theorem digits_ordinary {k acc v : ℕ} {digits : Str} (h : readHex k acc digits = some (v, [])) :
    ∀ c ∈ digits, c ≠ doubleQuote ∧ c ≠ backslash := by
  induction k generalizing acc digits with
  | zero =>
    obtain ⟨-, rfl⟩ := Prod.mk.inj (Option.some.inj h)
    exact fun c hc => absurd hc List.not_mem_nil
  | succ k ih =>
    cases digits with
    | nil => cases h
    | cons c digits =>
      unfold readHex at h
      obtain ⟨d, hd, h⟩ := Option.bind_eq_some_iff.mp h
      refine List.forall_mem_cons.mpr ⟨⟨?_, ?_⟩, ih h⟩
      all_goals
        rintro rfl
        cases hd

theorem scanString_unicode {digits : Str} {k acc v : ℕ} (h : readHex k acc digits = some (v, [])) (hr : r ≠ [])
    (hscan : scanString r = some (r, [])) :
    scanString (backslash :: 117 :: (digits ++ r)) = some (backslash :: 117 :: (digits ++ r), []) := by
  rw [scanString_escape (by decide), scanString_append (digits_ordinary h) hr, hscan]
  rfl

/-- A literal of JSON is one string for the tokenizer. -/
theorem scanString_of_encodes (h : Encodes body s) :
    scanString (body ++ [doubleQuote]) = some (body ++ [doubleQuote], []) := by
  have hne : ∀ l : Str, l ++ [doubleQuote] ≠ [] := fun l => by simp
  induction h with
  | nil => rfl
  | raw _ hquote hbackslash _ ih =>
    rw [List.cons_append, scanString_raw hquote hbackslash (hne _), ih]
    rfl
  | @escape e c l s hescape _ ih =>
    have hnewline : e ≠ 10 := by
      have hall : ∀ x ∈ escapes, x.1 ≠ 10 := by decide
      exact hall _ hescape
    rw [List.cons_append, List.cons_append, scanString_escape hnewline, ih]
    rfl
  | unicode hdigits _ _ ih =>
    rw [List.cons_append, List.cons_append, List.append_assoc]
    exact scanString_unicode hdigits (hne _) ih
  | pair hdigits hdigits' _ _ _ ih =>
    rw [List.cons_append, List.cons_append, List.append_assoc, List.cons_append, List.cons_append, List.append_assoc]
    exact scanString_unicode hdigits (by simp) (scanString_unicode hdigits' (hne _) ih)

theorem scanToken_literal (h : Encodes body s) : scanToken db (literal body) = some (literal body, []) := by
  have hquoted : scanQuoted (literal body) = some (literal body, []) := by
    unfold literal
    rw [scanQuoted_cons, if_pos rfl, scanString_of_encodes h]
    rfl
  unfold scanToken
  rw [hquoted]
  rfl

/-! ### Paths -/

theorem takeWhile_append_space (h : l.takeWhile isDigit = []) : (l ++ 32 :: r).takeWhile isDigit = [] := by
  cases l with
  | nil => exact List.takeWhile_cons_of_neg (by decide)
  | cons c l =>
    have hc : ¬ isDigit c = true := fun hc => by
      rw [List.takeWhile_cons_of_pos hc] at h
      cases h
    exact List.takeWhile_cons_of_neg hc

theorem scanDecimal_eq_none : scanDecimal l = none ↔ l.takeWhile isDigit = [] := by
  unfold scanDecimal
  constructor
  · intro h
    simp only at h
    split_ifs at h with hdigits
    exact hdigits
  · exact fun h => if_pos h

theorem scanNumber_append (h : scanNumber token = none) (hne : token ≠ []) : scanNumber (token ++ 32 :: r) = none := by
  cases token with
  | nil => exact absurd rfl hne
  | cons c l =>
    rw [List.cons_append]
    rw [scanNumber_cons] at h ⊢
    split_ifs at h ⊢
    · rw [Option.map_eq_none_iff, scanDecimal_eq_none] at h ⊢
      exact takeWhile_append_space h
    · rw [scanDecimal_eq_none] at h ⊢
      exact takeWhile_append_space (l := c :: l) h

theorem scanPath_append (h : scanPath db l = (l, [])) : scanPath db (l ++ 32 :: r) = (l, 32 :: r) := by
  fun_induction scanPath db l with
  | case1 => exact scanPath_space
  | case2 c hc =>
    rw [List.singleton_append, scanPath_cons_cons, hc, scanPath_space]
    rfl
  | case3 c hc => cases (Prod.mk.inj h).1
  | case4 c d l hc ih =>
    obtain ⟨hfst, hsnd⟩ := Prod.mk.inj h
    have htail := ih (Prod.ext (List.cons.inj hfst).2 hsnd)
    rw [List.cons_append] at htail
    rw [List.cons_append, List.cons_append, scanPath_cons_cons, if_pos hc, htail]
  | case5 c d l hc => cases (Prod.mk.inj h).1

theorem IsPath.cons (h : IsPath db token) : ∃ c l, token = c :: l ∧ isPathChar db c = true := by
  cases token with
  | nil => cases h.word
  | cons c l =>
    refine ⟨c, l, rfl, ?_⟩
    have hword := h.word
    rw [scanWord_cons] at hword
    split_ifs at hword with hc
    exact hc

/-- A path ends at the next blank. -/
theorem IsPath.scanToken (h : IsPath db token) : scanToken db (token ++ 32 :: r) = some (token, 32 :: r) := by
  obtain ⟨c, l, rfl, hc⟩ := h.cons
  obtain ⟨hquote, hleft, hright⟩ := ne_of_isPathChar hc
  have hquoted : scanQuoted (c :: l ++ 32 :: r) = none := by
    rw [List.cons_append]
    exact if_neg hquote
  have hparen : scanParen (c :: l ++ 32 :: r) = none := by
    rw [List.cons_append]
    refine if_neg ?_
    rintro (heq | heq)
    · exact hleft (List.cons.inj heq).1
    · exact hright (List.cons.inj heq).1
  have hword : scanWord db (c :: l ++ 32 :: r) = some (c :: l, 32 :: r) := by
    have hpath := h.word
    rw [scanWord_cons, if_pos hc] at hpath
    rw [List.cons_append, scanWord_cons, if_pos hc]
    obtain ⟨hfst, hsnd⟩ := Prod.mk.inj (Option.some.inj hpath)
    rw [scanPath_append (Prod.ext (List.cons.inj hfst).2 hsnd)]
  unfold Filters.scanToken
  rw [hquoted, scanNumber_append h.number (List.cons_ne_nil c l), hparen, hword]
  rfl

/-! ### Operators -/

/-- A letter of ASCII. -/
def IsLetter (c : ℕ) : Prop := 65 ≤ c ∧ c ≤ 90 ∨ 97 ≤ c ∧ c ≤ 122

theorem IsLetter.isPathChar (db : CharacterDatabase) (h : IsLetter c) : isPathChar db c = true := by
  have hascii : c < 128 := by
    unfold IsLetter at h
    omega
  rw [isPathChar_ascii hascii, Bool.or_eq_true, Bool.or_eq_true, decide_eq_true_eq]
  unfold IsLetter at h
  omega

theorem isDigit_letter (h : IsLetter c) : isDigit c = false := by
  have hall : ∀ z ∈ PythonText.zeros, z = 48 ∨ 123 ≤ z := by decide
  unfold isDigit
  rw [List.any_eq_false]
  intro z hz
  rw [decide_eq_true_eq]
  rcases hall z hz with rfl | hlarge
  · unfold IsLetter at h
    omega
  · unfold IsLetter at h
    omega

/-- The characters of an operator in any letter case are letters. -/
theorem isLetter_of_comparisonOp (hop : lower op ∈ comparisonOps) : op ≠ [] ∧ ∀ c ∈ op, IsLetter c := by
  have hletters : ∀ c ∈ lower op, 97 ≤ c ∧ c ≤ 122 ∧ c ≠ 107 := by
    have hall : ∀ o ∈ comparisonOps, ∀ c ∈ o, 97 ≤ c ∧ c ≤ 122 ∧ c ≠ 107 := by decide
    exact hall _ hop
  refine ⟨?_, fun c hc => ?_⟩
  · rintro rfl
    revert hop
    decide
  · have hmem : ∀ d, d ∈ (if 65 ≤ c ∧ c ≤ 90 then [c + 32] else if c = 0x130 then [105, 0x307]
        else if c = 0x212A then [107] else [c]) → 97 ≤ d ∧ d ≤ 122 ∧ d ≠ 107 := fun d hd =>
      hletters d (List.mem_flatMap.mpr ⟨c, hc, hd⟩)
    unfold IsLetter
    split_ifs at hmem with hupper hdotted hkelvin
    · exact .inl hupper
    · have hdot := hmem 0x307 (by simp)
      omega
    · have hk := hmem 107 (by simp)
      omega
    · have hself := hmem c (by simp)
      omega

theorem scanPath_letters (h : ∀ c ∈ l, IsLetter c) : scanPath db l = (l, []) := by
  induction l with
  | nil => rfl
  | cons c l ih =>
    have hc := (h c List.mem_cons_self).isPathChar db
    have htail := ih fun d hd => h d (List.mem_cons_of_mem c hd)
    cases l with
    | nil => exact if_pos hc
    | cons d l =>
      rw [scanPath_cons_cons, hc, htail]
      rfl

theorem isPath_of_letters (hne : token ≠ []) (h : ∀ c ∈ token, IsLetter c) : IsPath db token := by
  cases token with
  | nil => exact absurd rfl hne
  | cons c l =>
    have hc := h c List.mem_cons_self
    refine ⟨?_, ?_⟩
    · have hminus : c ≠ 45 := by
        rintro rfl
        unfold IsLetter at hc
        omega
      rw [scanNumber_cons, if_neg hminus, scanDecimal_eq_none]
      exact List.takeWhile_cons_of_neg (by rw [isDigit_letter hc]; exact Bool.false_ne_true)
    · rw [scanWord_cons, if_pos (hc.isPathChar db), scanPath_letters fun d hd => h d (List.mem_cons_of_mem c hd)]

end Scanning

/-! ## The filter -/

section Parse

variable {db : CharacterDatabase} {fields : Fields} {field : FilterField} {n : ℕ} {path op token body s l rest : Str}

theorem tokenizeFrom_succ (hl : l ≠ []) (h : scanToken db (l.dropWhile isSpace) = some (token, rest)) :
    tokenizeFrom db (n + 1) l = (tokenizeFrom db n rest).map (token :: ·) := by
  cases l with
  | nil => exact absurd rfl hl
  | cons c l =>
    conv_lhs => unfold tokenizeFrom
    rw [h]

theorem IsPath.dropWhile (h : IsPath db token) : (token ++ 32 :: l).dropWhile isSpace = token ++ 32 :: l := by
  obtain ⟨c, r, rfl, hc⟩ := h.cons
  rw [List.cons_append]
  exact List.dropWhile_cons_of_neg (by rw [isSpace_of_isPathChar hc]; exact Bool.false_ne_true)

theorem tokenize_filterText (hpath : IsPath db path) (hop : IsPath db op) (h : Encodes body s) :
    tokenize db (filterText path op (literal body)) = .ok [path, op, literal body] := by
  have hliteral : (32 :: literal body).dropWhile isSpace = literal body := by
    unfold literal
    rw [List.dropWhile_cons_of_pos (by decide), List.dropWhile_cons_of_neg (by decide)]
  have hblank : (32 :: (op ++ 32 :: literal body)).dropWhile isSpace = op ++ 32 :: literal body := by
    rw [List.dropWhile_cons_of_pos (by decide), hop.dropWhile]
  obtain ⟨n, hn⟩ : ∃ n, (filterText path op (literal body)).length = n + 1 + 1 + 1 := by
    refine ⟨(filterText path op (literal body)).length - 3, ?_⟩
    unfold filterText literal
    simp only [List.length_append, List.length_cons]
    omega
  unfold tokenize
  rw [hn]
  unfold filterText
  have hfirst : scanToken db ((path ++ 32 :: (op ++ 32 :: literal body)).dropWhile isSpace) =
      some (path, 32 :: (op ++ 32 :: literal body)) := by
    rw [hpath.dropWhile]
    exact hpath.scanToken
  have hsecond : scanToken db ((32 :: (op ++ 32 :: literal body)).dropWhile isSpace) =
      some (op, 32 :: literal body) := by
    rw [hblank]
    exact hop.scanToken
  have hthird : scanToken db ((32 :: literal body).dropWhile isSpace) = some (literal body, []) := by
    rw [hliteral]
    exact scanToken_literal h
  rw [tokenizeFrom_succ (by simp) hfirst, tokenizeFrom_succ (by simp) hsecond, tokenizeFrom_succ (by simp) hthird]
  unfold tokenizeFrom
  rfl

/-- One comparison is parsed to what it builds. -/
theorem parse_comparison (hpath : IsPath db path) (hfield : fields.entries.lookup (lower path) = some field)
    (hop : lower op ∈ comparisonOps) {expression : Str} (htokens : tokenize db expression = .ok [path, op, token]) :
    parse db fields expression = buildComparison db fields path (lower op) token := by
  obtain ⟨c, l, rfl, hc⟩ := hpath.cons
  obtain ⟨hquote, hleft, hright⟩ := ne_of_isPathChar hc
  have hkeyword : lower (c :: l) ≠ codes "not" := fun heq => by
    rw [heq, fields.reserved] at hfield
    cases hfield
  have hlparen : c :: l ≠ lparen := fun heq => hleft (List.cons.inj heq).1
  have hattribute : ¬ NoPath (c :: l) := by
    rintro (heq | heq | hstring | hnumber)
    · exact hlparen heq
    · exact hright (List.cons.inj heq).1
    · unfold isString at hstring
      rw [List.head?_cons, Bool.and_eq_true, beq_iff_eq] at hstring
      exact hquote (Option.some.inj hstring.1)
    · unfold isNumber at hnumber
      rw [hpath.number] at hnumber
      cases hnumber
  have hatom : parseAtom db fields [c :: l, op, token] =
      (buildComparison db fields (c :: l) (lower op) token).map (·, []) := parseAtom_comparison hattribute hop
  have hnot : ∀ inner, parseNot db fields inner [c :: l, op, token] = parseAtom db fields [c :: l, op, token] := by
    intro inner
    unfold parseNot
    simp only
    rw [if_neg hkeyword]
    unfold parsePrimary
    simp only
    rw [if_neg hlparen]
  unfold parse
  rw [htokens]
  simp only [List.length_cons, List.length_nil]
  unfold parseOr parseChain parseAnd parseChain
  rw [hnot, hatom]
  cases buildComparison db fields (c :: l) (lower op) token with
  | error e => rfl
  | ok q => rfl

theorem comparisonQ_inj {s s' : Str} : comparisonQ field op s = comparisonQ field op s' ↔ s = s' := by
  refine ⟨fun h => ?_, fun h => h ▸ rfl⟩
  unfold comparisonQ at h
  split_ifs at h
  all_goals
    simpa using h

theorem unquote_literal : unquote db (literal body) = (decodeText db.names body).mapError .unicode := by
  have hstring : isString (literal body) = true := by
    unfold isString literal
    rw [List.head?_cons, ← List.cons_append, List.getLast?_append]
    rfl
  unfold unquote
  rw [if_pos hstring]
  unfold literal
  rw [List.drop_one, List.tail_cons, List.dropLast_concat]
  cases decodeText db.names body <;> rfl

/-- **When a filter compares with the string that its literal encodes**: exactly for plain literals. -/
theorem compares_iff (hpath : IsTextAttribute db fields path field) (hop : lower op ∈ comparisonOps)
    (h : Encodes body s) :
    parse db fields (filterText path op (literal body)) = .ok (comparisonQ field (lower op) s) ↔ Plain body := by
  obtain ⟨hne, hletters⟩ := isLetter_of_comparisonOp hop
  have htokens := tokenize_filterText hpath.isPath (isPath_of_letters hne hletters) h
  rw [parse_comparison hpath.isPath hpath.resolves hop htokens, ← decodeText_iff db.names h]
  unfold buildComparison resolve
  rw [hpath.resolves, unquote_literal]
  cases decodeText db.names body with
  | error e => exact iff_of_false (fun heq => by cases heq) fun heq => by cases heq
  | ok value =>
    show (if field.boolean then buildBoolean path (lower op) value field
      else .ok (comparisonQ field (lower op) value)) = _ ↔ _
    rw [hpath.text, if_neg Bool.false_ne_true, Except.ok.injEq, Except.ok.injEq, comparisonQ_inj]

end Parse

/-! ### Literals for a user name -/

theorem space_not_word : ∀ c, isSpace c = true →
    decide (48 ≤ c ∧ c ≤ 57 ∨ 65 ≤ c ∧ c ≤ 90 ∨ c = 95 ∨ 97 ≤ c ∧ c ≤ 122) = false := by
  intro c hc
  have hall : ∀ d ∈ [9, 10, 11, 12, 13, 28, 29, 30, 31, 32, 0x85, 0xA0, 0x1680, 0x2000, 0x2001, 0x2002, 0x2003, 0x2004,
      0x2005, 0x2006, 0x2007, 0x2008, 0x2009, 0x200A, 0x2028, 0x2029, 0x202F, 0x205F, 0x3000],
      decide (48 ≤ d ∧ d ≤ 57 ∨ 65 ≤ d ∧ d ≤ 90 ∨ d = 95 ∨ 97 ≤ d ∧ d ≤ 122) = false := by decide
  exact hall c (List.contains_iff_mem.mp hc)

/-- The words of ASCII, and no names. -/
def asciiDatabase : CharacterDatabase where
  isWord c := decide (48 ≤ c ∧ c ≤ 57 ∨ 65 ≤ c ∧ c ≤ 90 ∨ c = 95 ∨ 97 ≤ c ∧ c ≤ 122)
  names := fun _ => none
  isWord_ascii := fun _ _ => rfl
  isWord_space := space_not_word

def usernameField : FilterField := ⟨"username", true, false⟩

theorem userName_attribute : IsTextAttribute asciiDatabase userFilterFields (codes "userName") usernameField where
  isPath := ⟨by decide, by decide⟩
  resolves := by decide
  text := rfl

/-- A name without quotes and backslashes stands for itself. -/
theorem encodes_self {l : Str} (h : ∀ c ∈ l, 0x20 ≤ c ∧ c ≠ quote ∧ c ≠ backslash) : Encodes l l := by
  induction l with
  | nil => exact .nil
  | cons c l ih =>
    obtain ⟨hcontrol, hquote, hbackslash⟩ := h c List.mem_cons_self
    exact .raw hcontrol hquote hbackslash (ih fun d hd => h d (List.mem_cons_of_mem c hd))

theorem plain_self {l : Str} (h : ∀ c ∈ l, c < 128 ∧ c ≠ backslash) : Plain l := by
  induction l with
  | nil => exact .nil
  | cons c l ih =>
    obtain ⟨hascii, hbackslash⟩ := h c List.mem_cons_self
    exact .raw hascii hbackslash (ih fun d hd => h d (List.mem_cons_of_mem c hd))

/-- `userName eq "alice"`. -/
theorem alice_compared : parse asciiDatabase userFilterFields
    (filterText (codes "userName") (codes "eq") (literal (codes "alice"))) =
      .ok (comparisonQ usernameField (lower (codes "eq")) (codes "alice")) :=
  (compares_iff userName_attribute (by decide) (encodes_self (by decide))).mpr (plain_self (by decide))

/-- `userName eq "é"` is compared with the two bytes of the letter. -/
theorem accent_mangled : ¬ ∀ body s : Str, Encodes body s → parse asciiDatabase userFilterFields
    (filterText (codes "userName") (codes "eq") (literal body)) =
      .ok (comparisonQ usernameField (codes "eq") s) := by
  intro h
  have haccent := h [0xE9] [0xE9] (encodes_self (by decide))
  revert haccent
  decide

end Waldur.Scim.Filters
