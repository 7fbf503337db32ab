import Mathlib
import Waldur.Scim.FilterLiterals

/-!
# Scim.FilterGrammar — the filters that are accepted

The grammar of the supported filters, with the condition that each of its derivations stands for: `or` joins operands of
`and`, and these are negations, parentheses and comparisons.  The parser follows it but for two slips: a literal whose
escapes cannot be decoded raises a `UnicodeDecodeError`, and a parenthesis is taken for a value.  `Clean` is the exact
condition.
-/

namespace Waldur.Scim.Filters

open UnicodeEscape

/-! ## The grammar -/

inductive Connective
  | or
  | and
deriving DecidableEq

namespace Connective

def keyword : Connective → Str
  | .or => codes "or"
  | .and => codes "and"

def join : Connective → Q → Q → Q
  | .or => .or
  | .and => .and

end Connective

/-- What a derivation is of. -/
inductive Level
  /-- Operands of a connective. -/
  | chain (c : Connective)
  /-- More operands, after a condition for the ones before. -/
  | tail (c : Connective) (left : Q)
  | not
  | primary

/-- The operands of `or` are joined by `and`. -/
def Connective.operand : Connective → Level
  | .or => .chain .and
  | .and => .not

/-- A `ScimError` with status 400. -/
def IsScim (e : FilterError) : Prop := ∃ s, e = .scim s ∧ s.statusCode = 400

section Grammar

variable (db : CharacterDatabase) (fields : Fields) (value : Str → Prop)

/-- The tokens derive from the grammar, and stand for a condition; `value` says which tokens are values. -/
inductive Derives : Level → List Str → Q → Prop
  | chain {c : Connective} {ts ts' : List Str} {left q : Q} (first : Derives c.operand ts left)
      (rest : Derives (.tail c left) ts' q) : Derives (.chain c) (ts ++ ts') q
  | tailEnd {c : Connective} {left : Q} : Derives (.tail c left) [] left
  | tailNext {c : Connective} {token : Str} {ts ts' : List Str} {left right q : Q} (hkeyword : lower token = c.keyword)
      (next : Derives c.operand ts right) (rest : Derives (.tail c (c.join left right)) ts' q) :
      Derives (.tail c left) (token :: (ts ++ ts')) q
  | not {token : Str} {ts : List Str} {q : Q} (hkeyword : lower token = codes "not")
      (inner : Derives (.chain .or) ts q) : Derives .not (token :: lparen :: (ts ++ [rparen])) q.not
  | primary {ts : List Str} {q : Q} (inner : Derives .primary ts q) : Derives .not ts q
  | group {ts : List Str} {q : Q} (inner : Derives (.chain .or) ts q) : Derives .primary (lparen :: (ts ++ [rparen])) q
  | present {path op : Str} {field : FilterField} (hpath : ¬ NoPath path) (hop : lower op = codes "pr")
      (hfield : resolve fields path = .ok field) :
      Derives .primary [path, op] (presentQ field)
  | comparison {path op token : Str} {q : Q} (hpath : ¬ NoPath path) (hop : lower op ∈ comparisonOps)
      (hvalue : value token)
      (hbuild : buildComparison db fields path (lower op) token = .ok q) : Derives .primary [path, op, token] q

/-- The tokens after which an operand begins, in what derives at a level. -/
inductive Reaches : Level → List Str → Prop
  | first {c : Connective} {ts : List Str} (h : Reaches c.operand ts) : Reaches (.chain c) ts
  | later {c : Connective} {ts ts' : List Str} {left : Q} (first : Derives db fields (fun _ => True) c.operand ts left)
      (h : Reaches (.tail c left) ts') : Reaches (.chain c) (ts ++ ts')
  | next {c : Connective} {token : Str} {ts : List Str} {left : Q} (hkeyword : lower token = c.keyword)
      (h : Reaches c.operand ts) : Reaches (.tail c left) (token :: ts)
  | after {c : Connective} {token : Str} {ts ts' : List Str} {left right : Q} (hkeyword : lower token = c.keyword)
      (next : Derives db fields (fun _ => True) c.operand ts right) (h : Reaches (.tail c (c.join left right)) ts') :
      Reaches (.tail c left) (token :: (ts ++ ts'))
  | not {token : Str} {ts : List Str} (hkeyword : lower token = codes "not") (h : Reaches (.chain .or) ts) :
      Reaches .not (token :: lparen :: ts)
  | primary {ts : List Str} (h : Reaches .primary ts) : Reaches .not ts
  | group {ts : List Str} (h : Reaches (.chain .or) ts) : Reaches .primary (lparen :: ts)
  | here : Reaches .primary []

/-- A comparison of a supported attribute with a literal that cannot be decoded. -/
def Undecodable (path op token : Str) : Prop :=
  ¬ NoPath path ∧ lower op ∈ comparisonOps ∧ ∃ e, buildComparison db fields path (lower op) token = .error (.unicode e)

/-- Reading the tokens from the left, an operand begins with a comparison that cannot be decoded. -/
def Stuck (level : Level) (tokens : List Str) : Prop :=
  ∃ ts path op token rest, tokens = ts ++ path :: op :: token :: rest ∧ Reaches db fields level ts ∧
    Undecodable db fields path op token

/-- A value is any token but a parenthesis. -/
def IsValue (token : Str) : Prop := token ≠ lparen ∧ token ≠ rparen

/-- The filter derives from the grammar, and stands for a condition. -/
def Accepts (expression : Str) (q : Q) : Prop :=
  ∃ tokens, tokenize db expression = .ok tokens ∧ Derives db fields IsValue (.chain .or) tokens q

/-- The parser accepts its grammar: it raises nothing but a `ScimError` with status 400, and it returns the condition of
a derivation of all tokens. -/
def Exact (expression : Str) : Prop :=
  (∀ e, parse db fields expression = .error e → IsScim e) ∧
    ∀ q, parse db fields expression = .ok q ↔ Accepts db fields expression q

/-- **Where the parser accepts its grammar**: no operand that it comes to has a literal that cannot be decoded, and no
derivation needs a parenthesis for a value. -/
def Clean (expression : Str) : Prop :=
  ∀ tokens, tokenize db expression = .ok tokens → ¬ Stuck db fields (.chain .or) tokens ∧
    ∀ q, Derives db fields (fun _ => True) (.chain .or) tokens q → Derives db fields IsValue (.chain .or) tokens q

/-- What may come after the tokens of a level. -/
def Boundary : Level → List Str → Prop
  | .chain .or, ts | .tail .or _, ts => ∀ token ∈ ts.head?, lower token ≠ codes "or" ∧ lower token ≠ codes "and"
  | .chain .and, ts | .tail .and _, ts => ∀ token ∈ ts.head?, lower token ≠ codes "and"
  | .not, _ | .primary, _ => True

/-- A function reads the tokens of a level, of lists that are shorter than a bound. -/
structure Reads (level : Level) (n : ℕ) (parser : List Str → Result) : Prop where
  sound : ∀ ts q rest, parser ts = .ok (q, rest) →
    ∃ pre, ts = pre ++ rest ∧ Derives db fields (fun _ => True) level pre q ∧ Boundary level rest
  complete : ∀ pre q rest, Derives db fields (fun _ => True) level pre q → Boundary level rest →
    (pre ++ rest).length < n → parser (pre ++ rest) = .ok (q, rest)
  error : ∀ ts e, parser ts = .error e →
    IsScim e ∨ (e = .recursion ∧ n ≤ ts.length) ∨ (∃ u, e = .unicode u) ∧ Stuck db fields level ts
  stuck : ∀ ts, ts.length < n → Stuck db fields level ts → ∃ e, parser ts = .error (.unicode e)

end Grammar

section Chains

variable {db : CharacterDatabase} {fields : Fields} {value : Str → Prop} {c : Connective} {left q : Q} {n m : ℕ}
  {ts pre rest : List Str} {token : Str} {parser : List Str → Result}

/-- The next token is of a kind, or it is not. -/
theorem head_cases (p : Str → Prop) (ts : List Str) :
    (∀ token ∈ ts.head?, ¬ p token) ∨ ∃ token ts', ts = token :: ts' ∧ p token := by
  cases ts with
  | nil => exact .inl fun _ ht => by cases ht
  | cons token ts =>
    by_cases hp : p token
    · exact .inr ⟨token, ts, rfl, hp⟩
    · exact .inl fun t ht => Option.some.inj ht ▸ hp

theorem boundary_chain : Boundary (.chain c) ts ↔
    Boundary c.operand ts ∧ ∀ token ∈ ts.head?, lower token ≠ c.keyword := by
  cases c with
  | or =>
    show (∀ token ∈ ts.head?, lower token ≠ codes "or" ∧ lower token ≠ codes "and") ↔
      (∀ token ∈ ts.head?, lower token ≠ codes "and") ∧ ∀ token ∈ ts.head?, lower token ≠ codes "or"
    exact ⟨fun h => ⟨fun t ht => (h t ht).2, fun t ht => (h t ht).1⟩, fun h t ht => ⟨h.2 t ht, h.1 t ht⟩⟩
  | and =>
    show (∀ token ∈ ts.head?, lower token ≠ codes "and") ↔ True ∧ ∀ token ∈ ts.head?, lower token ≠ codes "and"
    exact (and_iff_right trivial).symm

/-- The keyword of a connective ends its operands. -/
theorem boundary_keyword (h : lower token = c.keyword) : Boundary c.operand (token :: ts) := by
  cases c with
  | or =>
    intro t ht
    obtain rfl := Option.some.inj ht
    rw [h]
    decide
  | and => trivial

theorem boundary_nil (level : Level) : Boundary level [] := by
  rcases level with (_ | _) | ⟨_ | _, _⟩ | _ | _ <;> simp [Boundary]

/-- More operands begin with the keyword. -/
theorem boundary_of_tail (h : Derives db fields value (.tail c left) pre q) (hrest : Boundary (.chain c) rest) :
    Boundary c.operand (pre ++ rest) := by
  cases h with
  | tailEnd => exact (boundary_chain.mp hrest).1
  | tailNext hkeyword => exact boundary_keyword hkeyword

theorem boundary_of_reaches (h : Reaches db fields (.tail c left) pre) : Boundary c.operand (pre ++ rest) := by
  cases h with
  | next hkeyword => exact boundary_keyword hkeyword
  | after hkeyword => exact boundary_keyword hkeyword

theorem parseTail_keyword (h : lower token = c.keyword) :
    parseTail c.keyword c.join parser (n + 1) left (token :: rest) =
      match parser rest with
      | .error e => .error e
      | .ok (right, rest) => parseTail c.keyword c.join parser n (c.join left right) rest := if_pos h

theorem parseTail_end (h : ∀ token ∈ rest.head?, lower token ≠ c.keyword) :
    parseTail c.keyword c.join parser n left rest = .ok (left, rest) := by
  cases rest with
  | nil => cases n <;> rfl
  | cons token rest =>
    cases n with
    | zero => rfl
    | succ n => exact if_neg (h token rfl)

theorem parseChain_ok (h : parser ts = .ok (left, rest)) :
    parseChain c.keyword c.join parser ts = parseTail c.keyword c.join parser rest.length left rest := by
  unfold parseChain
  rw [h]

theorem parseChain_error {e : FilterError} (h : parser ts = .error e) :
    parseChain c.keyword c.join parser ts = .error e := by
  unfold parseChain
  rw [h]

section Tail

variable (hp : Reads db fields c.operand n parser)
include hp

theorem tail_sound (hm : ts.length ≤ m) (hts : Boundary c.operand ts)
    (h : parseTail c.keyword c.join parser m left ts = .ok (q, rest)) :
    ∃ pre, ts = pre ++ rest ∧ Derives db fields (fun _ => True) (.tail c left) pre q ∧ Boundary (.chain c) rest := by
  induction m generalizing left ts with
  | zero =>
    rw [List.length_eq_zero_iff.mp (Nat.le_zero.mp hm)] at h ⊢
    obtain ⟨rfl, rfl⟩ := Prod.mk.inj (Except.ok.inj h)
    exact ⟨[], rfl, .tailEnd, boundary_nil _⟩
  | succ m ih =>
    rcases head_cases (lower · = c.keyword) ts with hend | ⟨token, ts, rfl, hkeyword⟩
    · rw [parseTail_end hend] at h
      obtain ⟨rfl, rfl⟩ := Prod.mk.inj (Except.ok.inj h)
      exact ⟨[], rfl, .tailEnd, boundary_chain.mpr ⟨hts, hend⟩⟩
    · rw [parseTail_keyword hkeyword] at h
      cases hparser : parser ts with
      | error e =>
        rw [hparser] at h
        cases h
      | ok x =>
        obtain ⟨right, rest'⟩ := x
        rw [hparser] at h
        obtain ⟨ts₁, rfl, hright, hboundary⟩ := hp.sound _ _ _ hparser
        rw [List.length_cons, List.length_append] at hm
        obtain ⟨ts₂, rfl, htail, hrest⟩ := ih (by omega) hboundary h
        exact ⟨token :: (ts₁ ++ ts₂), by simp, .tailNext hkeyword hright htail, hrest⟩

theorem tail_complete (h : Derives db fields (fun _ => True) (.tail c left) pre q) (hrest : Boundary (.chain c) rest)
    (hn : (pre ++ rest).length < n) (hm : (pre ++ rest).length ≤ m) :
    parseTail c.keyword c.join parser m left (pre ++ rest) = .ok (q, rest) := by
  induction m generalizing left pre with
  | zero =>
    have hnil := List.length_eq_zero_iff.mp (Nat.le_zero.mp hm)
    obtain ⟨rfl, rfl⟩ := List.append_eq_nil_iff.mp hnil
    cases h with
    | tailEnd => rfl
  | succ m ih =>
    cases h with
    | tailEnd => exact parseTail_end (boundary_chain.mp hrest).2
    | @tailNext _ token ts₁ ts₂ _ right _ hkeyword hnext htail =>
      rw [List.cons_append, List.length_cons] at hn hm
      rw [List.append_assoc] at hn hm
      have hparser := hp.complete _ _ (ts₂ ++ rest) hnext (boundary_of_tail htail hrest) (by omega)
      rw [List.cons_append, List.append_assoc, parseTail_keyword hkeyword, hparser]
      rw [List.length_append] at hn hm
      exact ih htail (by omega) (by omega)

/-- What a loop raises, an operand raises. -/
theorem tail_error {e : FilterError} (hm : ts.length ≤ m)
    (h : parseTail c.keyword c.join parser m left ts = .error e) :
    ∃ ts', ts'.length ≤ ts.length ∧ parser ts' = .error e ∧
      (Stuck db fields c.operand ts' → Stuck db fields (.tail c left) ts) := by
  induction m generalizing left ts with
  | zero =>
    rw [List.length_eq_zero_iff.mp (Nat.le_zero.mp hm)] at h
    cases h
  | succ m ih =>
    rcases head_cases (lower · = c.keyword) ts with hend | ⟨token, ts, rfl, hkeyword⟩
    · rw [parseTail_end hend] at h
      cases h
    · rw [parseTail_keyword hkeyword] at h
      cases hparser : parser ts with
      | error e' =>
        rw [hparser] at h
        obtain rfl := Except.error.inj h
        refine ⟨ts, by rw [List.length_cons]; omega, hparser, ?_⟩
        rintro ⟨pre, path, op, value, rest, rfl, hreaches, hbad⟩
        exact ⟨token :: pre, path, op, value, rest, rfl, .next hkeyword hreaches, hbad⟩
      | ok x =>
        obtain ⟨right, rest'⟩ := x
        rw [hparser] at h
        obtain ⟨ts₁, rfl, hright, -⟩ := hp.sound _ _ _ hparser
        rw [List.length_cons, List.length_append] at hm
        obtain ⟨ts', hlength, herror, hstuck⟩ := ih (by omega) h
        refine ⟨ts', by rw [List.length_cons, List.length_append]; omega, herror, fun hts' => ?_⟩
        obtain ⟨pre, path, op, value, rest, rfl, hreaches, hbad⟩ := hstuck hts'
        exact ⟨token :: (ts₁ ++ pre), path, op, value, rest, by simp, .after hkeyword hright hreaches, hbad⟩

theorem tail_stuck (hn : ts.length < n) (hm : ts.length ≤ m) (h : Stuck db fields (.tail c left) ts) :
    ∃ e, parseTail c.keyword c.join parser m left ts = .error (.unicode e) := by
  induction m generalizing left ts with
  | zero =>
    obtain ⟨pre, path, op, value, rest, rfl, -⟩ := h
    rw [List.length_append, List.length_cons] at hm
    omega
  | succ m ih =>
    obtain ⟨pre, path, op, value, rest, rfl, hreaches, hbad⟩ := h
    cases hreaches with
    | @next _ token ts₁ _ hkeyword hreaches =>
      rw [List.cons_append, List.length_cons] at hn
      obtain ⟨e, herror⟩ := hp.stuck (ts₁ ++ path :: op :: value :: rest) (by omega)
        ⟨ts₁, path, op, value, rest, rfl, hreaches, hbad⟩
      refine ⟨e, ?_⟩
      rw [List.cons_append, parseTail_keyword hkeyword, herror]
    | @after _ token ts₁ ts₂ _ right hkeyword hnext hreaches =>
      rw [List.cons_append, List.length_cons, List.append_assoc] at hn hm
      have hparser := hp.complete _ _ (ts₂ ++ path :: op :: value :: rest) hnext (boundary_of_reaches hreaches)
        (by omega)
      rw [List.cons_append, List.append_assoc, parseTail_keyword hkeyword, hparser]
      rw [List.length_append] at hn hm
      exact ih (by omega) (by omega) ⟨ts₂, path, op, value, rest, rfl, hreaches, hbad⟩

theorem chain_sound (h : parseChain c.keyword c.join parser ts = .ok (q, rest)) :
    ∃ pre, ts = pre ++ rest ∧ Derives db fields (fun _ => True) (.chain c) pre q ∧ Boundary (.chain c) rest := by
  cases hparser : parser ts with
  | error e =>
    rw [parseChain_error hparser] at h
    cases h
  | ok x =>
    obtain ⟨left, rest'⟩ := x
    rw [parseChain_ok hparser] at h
    obtain ⟨ts₁, rfl, hleft, hboundary⟩ := hp.sound _ _ _ hparser
    obtain ⟨ts₂, rfl, htail, hrest⟩ := tail_sound hp le_rfl hboundary h
    exact ⟨ts₁ ++ ts₂, by simp, .chain hleft htail, hrest⟩

theorem chain_complete (h : Derives db fields (fun _ => True) (.chain c) pre q) (hrest : Boundary (.chain c) rest)
    (hn : (pre ++ rest).length < n) : parseChain c.keyword c.join parser (pre ++ rest) = .ok (q, rest) := by
  cases h with
  | @chain _ ts₁ ts₂ left _ hfirst htail =>
    rw [List.append_assoc] at hn ⊢
    rw [parseChain_ok (hp.complete _ _ _ hfirst (boundary_of_tail htail hrest) hn)]
    rw [List.length_append] at hn
    exact tail_complete hp htail hrest (by omega) le_rfl

/-- What a chain raises, an operand raises. -/
theorem chain_error {e : FilterError} (h : parseChain c.keyword c.join parser ts = .error e) :
    ∃ ts', ts'.length ≤ ts.length ∧ parser ts' = .error e ∧
      (Stuck db fields c.operand ts' → Stuck db fields (.chain c) ts) := by
  cases hparser : parser ts with
  | error e' =>
    rw [parseChain_error hparser] at h
    obtain rfl := Except.error.inj h
    refine ⟨ts, le_rfl, hparser, ?_⟩
    rintro ⟨pre, path, op, value, rest, rfl, hreaches, hbad⟩
    exact ⟨pre, path, op, value, rest, rfl, .first hreaches, hbad⟩
  | ok x =>
    obtain ⟨left, rest⟩ := x
    rw [parseChain_ok hparser] at h
    obtain ⟨ts₁, rfl, hleft, -⟩ := hp.sound _ _ _ hparser
    obtain ⟨ts', hlength, herror, hstuck⟩ := tail_error hp le_rfl h
    refine ⟨ts', by rw [List.length_append]; omega, herror, fun hts' => ?_⟩
    obtain ⟨pre, path, op, value, rest, rfl, hreaches, hbad⟩ := hstuck hts'
    exact ⟨ts₁ ++ pre, path, op, value, rest, by simp, .later hleft hreaches, hbad⟩

theorem chain_stuck (hn : ts.length < n) (h : Stuck db fields (.chain c) ts) :
    ∃ e, parseChain c.keyword c.join parser ts = .error (.unicode e) := by
  obtain ⟨pre, path, op, value, rest, rfl, hreaches, hbad⟩ := h
  cases hreaches with
  | first hreaches =>
    obtain ⟨e, hparser⟩ := hp.stuck _ hn ⟨pre, path, op, value, rest, rfl, hreaches, hbad⟩
    exact ⟨e, parseChain_error hparser⟩
  | @later _ ts₁ ts₂ left hfirst hreaches =>
    rw [List.append_assoc] at hn ⊢
    rw [parseChain_ok (hp.complete _ _ _ hfirst (boundary_of_reaches hreaches) hn)]
    rw [List.length_append] at hn
    exact tail_stuck hp (by omega) le_rfl ⟨ts₂, path, op, value, rest, rfl, hreaches, hbad⟩

/-- **A chain of operands is read as its grammar says.** -/
theorem reads_chain : Reads db fields (.chain c) n (parseChain c.keyword c.join parser) where
  sound _ _ _ h := chain_sound hp h
  complete _ _ _ h hrest hn := chain_complete hp h hrest hn
  error ts e h := by
    obtain ⟨ts', hlength, hparser, hstuck⟩ := chain_error hp h
    rcases hp.error _ _ hparser with hscim | ⟨hrecursion, hn⟩ | ⟨hunicode, hts'⟩
    · exact .inl hscim
    · exact .inr (.inl ⟨hrecursion, hn.trans hlength⟩)
    · exact .inr (.inr ⟨hunicode, hstuck hts'⟩)
  stuck _ hn h := chain_stuck hp hn h

end Tail

end Chains

section Parser

variable {db : CharacterDatabase} {fields : Fields} {value : Str → Prop} {n : ℕ} {q : Q} {e : FilterError}
  {ts pre rest : List Str} {path op token : Str} {inner : List Str → Result}

theorem isScim_fail {α : Type} {detail : Detail} (h : (fail detail : Except FilterError α) = .error e) : IsScim e := by
  obtain rfl := Except.error.inj h
  exact ⟨_, rfl, rfl⟩

theorem resolve_error (h : resolve fields path = .error e) : IsScim e := by
  unfold resolve at h
  split at h
  · cases h
  · exact isScim_fail h

theorem buildPresent_ok (h : buildPresent fields path = .ok q) :
    ∃ field, resolve fields path = .ok field ∧ q = presentQ field := by
  unfold buildPresent at h
  cases hfield : resolve fields path with
  | error e =>
    rw [hfield] at h
    cases h
  | ok field =>
    rw [hfield] at h
    exact ⟨field, rfl, (Except.ok.inj h).symm⟩

theorem buildPresent_error (h : buildPresent fields path = .error e) : IsScim e := by
  unfold buildPresent at h
  cases hfield : resolve fields path with
  | error e' =>
    rw [hfield] at h
    obtain rfl := Except.error.inj h
    exact resolve_error hfield
  | ok field =>
    rw [hfield] at h
    cases h

theorem buildBoolean_error {field : FilterField} {v : Str} (h : buildBoolean path op v field = .error e) :
    IsScim e := by
  unfold buildBoolean at h
  split_ifs at h
  · exact isScim_fail h
  · exact isScim_fail h

/-- A comparison fails with a `ScimError`, or on its literal. -/
theorem buildComparison_error (h : buildComparison db fields path op token = .error e) :
    IsScim e ∨ ∃ u, e = .unicode u := by
  unfold buildComparison at h
  cases hfield : resolve fields path with
  | error e' =>
    rw [hfield] at h
    obtain rfl := Except.error.inj h
    exact .inl (resolve_error hfield)
  | ok field =>
    rw [hfield] at h
    cases hvalue : unquote db token with
    | error e' =>
      rw [hvalue] at h
      obtain rfl := Except.error.inj h
      unfold unquote at hvalue
      split_ifs at hvalue
      cases hdecode : decodeText db.names (token.drop 1).dropLast with
      | error u =>
        rw [hdecode] at hvalue
        exact .inr ⟨u, (Except.error.inj hvalue).symm⟩
      | ok v =>
        rw [hdecode] at hvalue
        cases hvalue
    | ok v =>
      rw [hvalue] at h
      by_cases hboolean : field.boolean = true
      · exact .inl (buildBoolean_error ((if_pos hboolean).symm.trans h))
      · cases (if_neg hboolean).symm.trans h

/-! ### Atoms -/

theorem atom_sound (h : parseAtom db fields ts = .ok (q, rest)) :
    ∃ pre, ts = pre ++ rest ∧ Derives db fields (fun _ => True) .primary pre q := by
  cases ts with
  | nil => cases h
  | cons path ts =>
    by_cases hpath : NoPath path
    · rw [parseAtom_refused hpath] at h
      cases h
    · cases ts with
      | nil =>
        rw [parseAtom_single hpath] at h
        cases h
      | cons op ts =>
        rw [parseAtom_cons hpath] at h
        split_ifs at h with hpresent hop
        · cases hbuild : buildPresent fields path with
          | error e =>
            rw [hbuild] at h
            cases h
          | ok q' =>
            rw [hbuild] at h
            obtain ⟨rfl, rfl⟩ := Prod.mk.inj (Except.ok.inj h)
            obtain ⟨field, hfield, rfl⟩ := buildPresent_ok hbuild
            exact ⟨[path, op], rfl, .present hpath hpresent hfield⟩
        · cases ts with
          | nil => cases h
          | cons token ts =>
            cases hbuild : buildComparison db fields path (lower op) token with
            | error e =>
              simp only [hbuild] at h
              cases h
            | ok q' =>
              simp only [hbuild] at h
              obtain ⟨rfl, rfl⟩ := Prod.mk.inj (Except.ok.inj h)
              exact ⟨[path, op, token], rfl, .comparison hpath hop trivial hbuild⟩
        · cases h

theorem atom_error (h : parseAtom db fields ts = .error e) :
    IsScim e ∨ (∃ u, e = .unicode u) ∧ ∃ path op token rest, ts = path :: op :: token :: rest ∧
      Undecodable db fields path op token := by
  cases ts with
  | nil => exact .inl (isScim_fail h)
  | cons path ts =>
    by_cases hpath : NoPath path
    · rw [parseAtom_refused hpath] at h
      exact .inl (isScim_fail h)
    · cases ts with
      | nil =>
        rw [parseAtom_single hpath] at h
        exact .inl (isScim_fail h)
      | cons op ts =>
        rw [parseAtom_cons hpath] at h
        split_ifs at h with hpresent hop
        · cases hbuild : buildPresent fields path with
          | error e' =>
            rw [hbuild] at h
            obtain rfl := Except.error.inj h
            exact .inl (buildPresent_error hbuild)
          | ok q' =>
            rw [hbuild] at h
            cases h
        · cases ts with
          | nil => exact .inl (isScim_fail h)
          | cons token ts =>
            cases hbuild : buildComparison db fields path (lower op) token with
            | error e' =>
              simp only [hbuild] at h
              obtain rfl := Except.error.inj h
              refine (buildComparison_error hbuild).imp_right fun ⟨u, hu⟩ => ⟨⟨u, hu⟩, path, op, token, ts, rfl, ?_⟩
              exact ⟨hpath, hop, u, hu ▸ hbuild⟩
            | ok q' =>
              simp only [hbuild] at h
              cases h
        · exact .inl (isScim_fail h)

theorem atom_undecodable (h : Undecodable db fields path op token) :
    ∃ u, parseAtom db fields (path :: op :: token :: rest) = .error (.unicode u) := by
  obtain ⟨hpath, hop, u, hbuild⟩ := h
  refine ⟨u, ?_⟩
  rw [parseAtom_comparison hpath hop, hbuild]
  rfl

theorem lparen_noPath : NoPath lparen := .inl rfl

theorem Undecodable.keyword (h : Undecodable db fields path op token) : lower path ≠ codes "not" := by
  intro heq
  obtain ⟨-, -, u, hbuild⟩ := h
  unfold buildComparison resolve at hbuild
  rw [heq, fields.reserved] at hbuild
  cases hbuild

/-! ### Parentheses -/

theorem parsePrimary_atom (h : ∀ token ∈ ts.head?, token ≠ lparen) :
    parsePrimary db fields inner ts = parseAtom db fields ts := by
  cases ts with
  | nil => rfl
  | cons token ts => exact if_neg (h token rfl)

theorem parsePrimary_cons (h : path ≠ lparen) :
    parsePrimary db fields inner (path :: ts) = parseAtom db fields (path :: ts) := if_neg h

theorem ne_lparen (h : ¬ NoPath path) : path ≠ lparen := fun heq => h (heq ▸ lparen_noPath)

theorem parsePrimary_group (h : inner ts = .ok (q, rparen :: rest)) :
    parsePrimary db fields inner (lparen :: ts) = .ok (q, rest) := by
  simp only [parsePrimary, if_true, h]

theorem parsePrimary_error (h : inner ts = .error e) : parsePrimary db fields inner (lparen :: ts) = .error e := by
  simp only [parsePrimary, if_true, h]

/-- Parentheses that are not closed. -/
theorem parsePrimary_open (h : inner ts = .ok (q, rest)) (hrest : rest.head? ≠ some rparen) :
    parsePrimary db fields inner (lparen :: ts) = fail .missingParen := by
  simp only [parsePrimary, if_true, h]
  cases rest with
  | nil => rfl
  | cons close rest => exact if_neg fun heq => hrest (congrArg some heq)

/-- After a parenthesis: what is inside fails, or it is closed, or it is not. -/
theorem parsePrimary_cases (db : CharacterDatabase) (fields : Fields) (inner : List Str → Result) (ts : List Str) :
    (∃ e, inner ts = .error e ∧ parsePrimary db fields inner (lparen :: ts) = .error e) ∨
      (∃ q rest, inner ts = .ok (q, rparen :: rest) ∧ parsePrimary db fields inner (lparen :: ts) = .ok (q, rest)) ∨
      parsePrimary db fields inner (lparen :: ts) = fail .missingParen := by
  cases hinner : inner ts with
  | error e => exact .inl ⟨e, rfl, parsePrimary_error hinner⟩
  | ok x =>
    obtain ⟨q, rest⟩ := x
    by_cases hclose : rest.head? = some rparen
    · cases rest with
      | nil => cases hclose
      | cons close rest =>
        obtain rfl := Option.some.inj hclose
        exact .inr (.inl ⟨q, rest, rfl, parsePrimary_group hinner⟩)
    · exact .inr (.inr (parsePrimary_open hinner hclose))

theorem lower_lparen : lower lparen ≠ codes "not" := by decide

theorem Reaches.here_head (h : Reaches db fields .primary pre) (hbad : Undecodable db fields path op token) :
    (pre = [] ∧ path ≠ lparen) ∨ ∃ pre', pre = lparen :: pre' ∧ Reaches db fields (.chain .or) pre' := by
  cases h with
  | here => exact .inl ⟨rfl, ne_lparen hbad.1⟩
  | @group pre' h => exact .inr ⟨pre', rfl, h⟩

/-- What a primary begins with. -/
theorem Derives.primary_head (h : Derives db fields value .primary pre q) :
    (∃ t l, pre = t :: l ∧ t ≠ lparen ∧ lower t ≠ codes "not") ∨
      ∃ ts, pre = lparen :: (ts ++ [rparen]) ∧ Derives db fields value (.chain .or) ts q := by
  have hpath : ∀ path field, ¬ NoPath path → resolve fields path = .ok field →
      path ≠ lparen ∧ lower path ≠ codes "not" := by
    intro path field hno hfield
    refine ⟨ne_lparen hno, fun heq => ?_⟩
    unfold resolve at hfield
    rw [heq, fields.reserved] at hfield
    cases hfield
  cases h with
  | @group ts _ inner => exact .inr ⟨ts, rfl, inner⟩
  | present hno hop hfield => exact .inl ⟨_, _, rfl, hpath _ _ hno hfield⟩
  | @comparison path op token _ hno hop hvalue hbuild =>
    unfold buildComparison at hbuild
    cases hfield : resolve fields path with
    | error e =>
      rw [hfield] at hbuild
      cases hbuild
    | ok field => exact .inl ⟨_, _, rfl, hpath _ _ hno hfield⟩

theorem boundary_rparen : Boundary (.chain .or) (rparen :: rest) := by
  intro token ht
  obtain rfl := Option.some.inj ht
  decide

section Primary

variable (hp : Reads db fields (.chain .or) n inner)

include hp

theorem primary_sound (h : parsePrimary db fields inner ts = .ok (q, rest)) :
    ∃ pre, ts = pre ++ rest ∧ Derives db fields (fun _ => True) .primary pre q := by
  rcases head_cases (· = lparen) ts with hhead | ⟨_, ts, rfl, rfl⟩
  · rw [parsePrimary_atom hhead] at h
    exact atom_sound h
  · rcases parsePrimary_cases db fields inner ts with ⟨e, -, heq⟩ | ⟨q', rest', hinner, heq⟩ | heq
    · rw [heq] at h
      cases h
    · rw [heq] at h
      obtain ⟨rfl, rfl⟩ := Prod.mk.inj (Except.ok.inj h)
      obtain ⟨pre, rfl, hderives, -⟩ := hp.sound _ _ _ hinner
      exact ⟨lparen :: (pre ++ [rparen]), by simp, .group hderives⟩
    · rw [heq] at h
      cases h

theorem primary_complete (h : Derives db fields (fun _ => True) .primary pre q) (hn : (pre ++ rest).length < n + 1) :
    parsePrimary db fields inner (pre ++ rest) = .ok (q, rest) := by
  cases h with
  | @group ts _ h =>
    rw [List.cons_append, List.append_assoc, List.length_cons] at hn
    rw [List.cons_append, List.append_assoc]
    exact parsePrimary_group (hp.complete _ _ _ h boundary_rparen (by omega))
  | present hno hop hfield =>
    rw [List.cons_append, List.cons_append, parsePrimary_cons (ne_lparen hno), parseAtom_cons hno, if_pos hop]
    unfold buildPresent
    rw [hfield]
    rfl
  | comparison hno hop _ hbuild =>
    rw [List.cons_append, List.cons_append, List.cons_append, parsePrimary_cons (ne_lparen hno),
      parseAtom_comparison hno hop, hbuild]
    rfl

theorem primary_error (h : parsePrimary db fields inner ts = .error e) :
    IsScim e ∨ (e = .recursion ∧ n + 1 ≤ ts.length) ∨ (∃ u, e = .unicode u) ∧ Stuck db fields .primary ts := by
  rcases head_cases (· = lparen) ts with hhead | ⟨_, ts, rfl, rfl⟩
  · rw [parsePrimary_atom hhead] at h
    refine (atom_error h).imp_right fun ⟨hunicode, path, op, token, rest, hts, hbad⟩ => .inr ⟨hunicode, ?_⟩
    exact ⟨[], path, op, token, rest, hts, .here, hbad⟩
  · rcases parsePrimary_cases db fields inner ts with ⟨e', hinner, heq⟩ | ⟨q', rest', -, heq⟩ | heq
    · rw [heq] at h
      obtain rfl := Except.error.inj h
      rcases hp.error _ _ hinner with
        hscim | ⟨hrecursion, hn⟩ | ⟨hunicode, pre, path, op, token, rest, rfl, hreaches, hbad⟩
      · exact .inl hscim
      · exact .inr (.inl ⟨hrecursion, Nat.succ_le_succ hn⟩)
      · exact .inr (.inr ⟨hunicode, lparen :: pre, path, op, token, rest, rfl, .group hreaches, hbad⟩)
    · rw [heq] at h
      cases h
    · rw [heq] at h
      exact .inl (isScim_fail h)

theorem primary_stuck (hn : ts.length < n + 1) (h : Stuck db fields .primary ts) :
    ∃ e, parsePrimary db fields inner ts = .error (.unicode e) := by
  obtain ⟨pre, path, op, token, rest, rfl, hreaches, hbad⟩ := h
  rcases hreaches.here_head hbad with ⟨rfl, hpath⟩ | ⟨pre, rfl, hinner⟩
  · rw [List.nil_append, parsePrimary_cons hpath]
    exact atom_undecodable hbad
  · rw [List.cons_append, List.length_cons] at hn
    obtain ⟨u, herror⟩ := hp.stuck _ (by omega) ⟨pre, path, op, token, rest, rfl, hinner, hbad⟩
    exact ⟨u, parsePrimary_error herror⟩

end Primary

/-! ### Negation -/

theorem parseNot_primary (h : ∀ t ∈ ts.head?, lower t ≠ codes "not") :
    parseNot db fields inner ts = parsePrimary db fields inner ts := by
  cases ts with
  | nil => rfl
  | cons token ts => exact if_neg (h token rfl)

theorem parseNot_group (h : lower token = codes "not") : parseNot db fields inner (token :: lparen :: ts) =
    (parsePrimary db fields inner (lparen :: ts)).map fun x => (x.1.not, x.2) := by
  simp only [parseNot, if_pos h, List.head?_cons, if_true]

theorem parseNot_expected (h : lower token = codes "not") (hrest : ts.head? ≠ some lparen) :
    parseNot db fields inner (token :: ts) = fail .expectedParen := by
  simp only [parseNot, if_pos h, if_neg hrest]

section Not

variable (hp : Reads db fields (.chain .or) n inner)

include hp

theorem not_sound (h : parseNot db fields inner ts = .ok (q, rest)) :
    ∃ pre, ts = pre ++ rest ∧ Derives db fields (fun _ => True) .not pre q := by
  rcases head_cases (lower · = codes "not") ts with hhead | ⟨token, ts, rfl, hkeyword⟩
  · rw [parseNot_primary hhead] at h
    obtain ⟨pre, hpre, hderives⟩ := primary_sound hp h
    exact ⟨pre, hpre, .primary hderives⟩
  · rcases head_cases (· = lparen) ts with hhead | ⟨_, ts, rfl, rfl⟩
    · rw [parseNot_expected hkeyword fun heq => hhead _ heq rfl] at h
      cases h
    · rw [parseNot_group hkeyword] at h
      cases hparser : parsePrimary db fields inner (lparen :: ts) with
      | error e =>
        rw [hparser] at h
        cases h
      | ok x =>
        obtain ⟨q', rest'⟩ := x
        rw [hparser] at h
        obtain ⟨rfl, rfl⟩ := Prod.mk.inj (Except.ok.inj h)
        obtain ⟨pre, hpre, hderives⟩ := primary_sound hp hparser
        rcases hderives.primary_head with ⟨t, l, rfl, ht, -⟩ | ⟨ts₁, rfl, hgroup⟩
        · exact absurd (List.cons.inj hpre).1.symm ht
        · exact ⟨token :: lparen :: (ts₁ ++ [rparen]), by rw [hpre]; rfl, .not hkeyword hgroup⟩

theorem not_complete (h : Derives db fields (fun _ => True) .not pre q) (hn : (pre ++ rest).length < n + 1) :
    parseNot db fields inner (pre ++ rest) = .ok (q, rest) := by
  cases h with
  | @not token ts q hkeyword h =>
    rw [List.cons_append, List.length_cons] at hn
    have hparser : parsePrimary db fields inner (lparen :: (ts ++ [rparen]) ++ rest) = .ok (q, rest) :=
      primary_complete hp (.group h) (by omega)
    rw [List.cons_append] at hparser
    rw [List.cons_append, List.cons_append, parseNot_group hkeyword, hparser]
    rfl
  | primary h =>
    have hparser := primary_complete hp h hn
    rw [parseNot_primary, hparser]
    intro t ht
    rcases h.primary_head with ⟨t', l, rfl, -, ht'⟩ | ⟨ts, rfl, -⟩
    · exact Option.some.inj ht ▸ ht'
    · exact Option.some.inj ht ▸ lower_lparen

theorem not_error (h : parseNot db fields inner ts = .error e) :
    IsScim e ∨ (e = .recursion ∧ n + 1 ≤ ts.length) ∨ (∃ u, e = .unicode u) ∧ Stuck db fields .not ts := by
  rcases head_cases (lower · = codes "not") ts with hhead | ⟨token, ts, rfl, hkeyword⟩
  · rw [parseNot_primary hhead] at h
    rcases primary_error hp h with hscim | hrecursion | ⟨hunicode, pre, path, op, value, rest, hts, hreaches, hbad⟩
    · exact .inl hscim
    · exact .inr (.inl hrecursion)
    · exact .inr (.inr ⟨hunicode, pre, path, op, value, rest, hts, .primary hreaches, hbad⟩)
  · rcases head_cases (· = lparen) ts with hhead | ⟨_, ts, rfl, rfl⟩
    · rw [parseNot_expected hkeyword fun heq => hhead _ heq rfl] at h
      exact .inl (isScim_fail h)
    · rw [parseNot_group hkeyword] at h
      cases hparser : parsePrimary db fields inner (lparen :: ts) with
      | ok x =>
        rw [hparser] at h
        cases h
      | error e' =>
        rw [hparser] at h
        obtain rfl := Except.error.inj h
        rcases primary_error hp hparser with
          hscim | ⟨hrecursion, hn⟩ | ⟨hunicode, pre, path, op, value, rest, hts, hreaches, hbad⟩
        · exact .inl hscim
        · exact .inr (.inl ⟨hrecursion, hn.trans (Nat.le_succ _)⟩)
        · rcases hreaches.here_head hbad with ⟨rfl, hpath⟩ | ⟨pre, rfl, hinner⟩
          · exact absurd (List.cons.inj hts).1.symm hpath
          · have htokens : token :: lparen :: ts = token :: lparen :: (pre ++ path :: op :: value :: rest) :=
              congrArg (token :: ·) hts
            exact .inr (.inr ⟨hunicode, _, path, op, value, rest, htokens, .not hkeyword hinner, hbad⟩)

theorem not_stuck (hn : ts.length < n + 1) (h : Stuck db fields .not ts) :
    ∃ e, parseNot db fields inner ts = .error (.unicode e) := by
  obtain ⟨pre, path, op, value, rest, rfl, hreaches, hbad⟩ := h
  cases hreaches with
  | @not token pre hkeyword hreaches =>
    rw [List.cons_append, List.length_cons] at hn
    have hshort : (lparen :: (pre ++ path :: op :: value :: rest)).length < n + 1 := by
      rw [List.cons_append] at hn
      omega
    obtain ⟨u, herror⟩ := primary_stuck hp hshort ⟨lparen :: pre, path, op, value, rest, rfl, .group hreaches, hbad⟩
    refine ⟨u, ?_⟩
    rw [List.cons_append, List.cons_append, parseNot_group hkeyword, herror]
    rfl
  | primary hreaches =>
    obtain ⟨u, herror⟩ := primary_stuck hp hn ⟨pre, path, op, value, rest, rfl, hreaches, hbad⟩
    refine ⟨u, ?_⟩
    rw [parseNot_primary, herror]
    intro t ht
    rcases hreaches.here_head hbad with ⟨rfl, -⟩ | ⟨pre, rfl, -⟩
    · exact Option.some.inj ht ▸ hbad.keyword
    · exact Option.some.inj ht ▸ lower_lparen

theorem reads_not : Reads db fields .not (n + 1) (parseNot db fields inner) where
  sound _ _ _ h :=
    have ⟨pre, hpre, hderives⟩ := not_sound hp h
    ⟨pre, hpre, hderives, trivial⟩
  complete _ _ _ h _ hn := not_complete hp h hn
  error _ _ h := not_error hp h
  stuck _ hn h := not_stuck hp hn h

end Not

/-! ### The parser -/

/-- **The parser reads its grammar**, as deep as it may go. -/
theorem reads_or (db : CharacterDatabase) (fields : Fields) (n : ℕ) :
    Reads db fields (.chain .or) n (parseOr db fields n) := by
  induction n with
  | zero =>
    refine ⟨fun _ _ _ h => ?_, fun _ _ _ _ _ h => absurd h (Nat.not_lt_zero _), fun ts e h => ?_, fun _ h =>
      absurd h (Nat.not_lt_zero _)⟩
    · cases h
    · obtain rfl := Except.error.inj h
      exact .inr (.inl ⟨rfl, Nat.zero_le _⟩)
  | succ n ih => exact reads_chain (reads_chain (c := .and) (reads_not ih))

/-- Values of any kind. -/
theorem Derives.mono {level : Level} (h : Derives db fields value level ts q) :
    Derives db fields (fun _ => True) level ts q := by
  induction h with
  | chain _ _ ih₁ ih₂ => exact .chain ih₁ ih₂
  | tailEnd => exact .tailEnd
  | tailNext hkeyword _ _ ih₁ ih₂ => exact .tailNext hkeyword ih₁ ih₂
  | not hkeyword _ ih => exact .not hkeyword ih
  | primary _ ih => exact .primary ih
  | group _ ih => exact .group ih
  | present hpath hop hfield => exact .present hpath hop hfield
  | comparison hpath hop _ hbuild => exact .comparison hpath hop trivial hbuild

end Parser

section Parse

variable {db : CharacterDatabase} {fields : Fields} {expression : Str} {q : Q} {e : FilterError} {n : ℕ}
  {tokens : List Str} {l : Str}

theorem tokenizeFrom_error (h : tokenizeFrom db n l = .error e) : IsScim e := by
  induction n generalizing l with
  | zero =>
    cases l with
    | nil => cases h
    | cons c l => exact isScim_fail h
  | succ n ih =>
    cases l with
    | nil => cases h
    | cons c l =>
      unfold tokenizeFrom at h
      split at h
      · rename_i token rest _
        cases hrest : tokenizeFrom db n rest with
        | error e' =>
          rw [hrest] at h
          obtain rfl := Except.error.inj h
          exact ih hrest
        | ok tokens =>
          rw [hrest] at h
          cases h
      · simp only at h
        split_ifs at h
        exact isScim_fail h

theorem not_derives_nil : ¬ Derives db fields (fun _ => True) (.chain .or) [] q := by
  intro h
  have hread := (reads_or db fields 1).complete [] q [] h (boundary_nil _) (by decide)
  cases hread

theorem not_stuck_nil {level : Level} : ¬ Stuck db fields level [] := by
  rintro ⟨ts, path, op, token, rest, heq, -⟩
  cases ts <;> cases heq

theorem parse_of_tokens (htokens : tokenize db expression = .ok tokens) (hne : tokens ≠ []) :
    parse db fields expression =
      match parseOr db fields (tokens.length + 1) tokens with
      | .error e => .error e
      | .ok (result, []) => .ok result
      | .ok (_, next :: _) => fail (.unexpectedToken next) := by
  cases tokens with
  | nil => exact absurd rfl hne
  | cons token rest =>
    unfold parse
    rw [htokens]
    rfl

/-- All tokens derive. -/
theorem parse_eq_ok (htokens : tokenize db expression = .ok tokens) (hne : tokens ≠ []) :
    parse db fields expression = .ok q ↔ Derives db fields (fun _ => True) (.chain .or) tokens q := by
  have hreads := reads_or db fields (tokens.length + 1)
  rw [parse_of_tokens htokens hne]
  constructor
  · intro h
    cases hparser : parseOr db fields (tokens.length + 1) tokens with
    | error e =>
      rw [hparser] at h
      cases h
    | ok x =>
      obtain ⟨q', rest⟩ := x
      rw [hparser] at h
      cases rest with
      | cons next rest => cases h
      | nil =>
        obtain rfl := Except.ok.inj h
        obtain ⟨pre, rfl, hderives, -⟩ := hreads.sound _ _ _ hparser
        rwa [List.append_nil]
  · intro h
    have hparser := hreads.complete tokens q [] h (boundary_nil _) (by
      rw [List.append_nil]
      omega)
    rw [List.append_nil] at hparser
    rw [hparser]

/-- What `parse` raises, and when it is no `ScimError`. -/
theorem parse_eq_error (htokens : tokenize db expression = .ok tokens) (hne : tokens ≠ [])
    (h : parse db fields expression = .error e) : IsScim e ∨ Stuck db fields (.chain .or) tokens := by
  have hreads := reads_or db fields (tokens.length + 1)
  rw [parse_of_tokens htokens hne] at h
  cases hparser : parseOr db fields (tokens.length + 1) tokens with
  | error e' =>
    rw [hparser] at h
    obtain rfl := Except.error.inj h
    rcases hreads.error _ _ hparser with hscim | ⟨-, hn⟩ | ⟨-, hstuck⟩
    · exact .inl hscim
    · omega
    · exact .inr hstuck
  | ok x =>
    obtain ⟨q', rest⟩ := x
    rw [hparser] at h
    cases rest with
    | nil => cases h
    | cons next rest => exact .inl (isScim_fail h)

/-- A literal that cannot be decoded is raised. -/
theorem parse_of_stuck (htokens : tokenize db expression = .ok tokens) (hstuck : Stuck db fields (.chain .or) tokens) :
    ∃ u, parse db fields expression = .error (.unicode u) := by
  have hne : tokens ≠ [] := by
    rintro rfl
    exact not_stuck_nil hstuck
  obtain ⟨u, hparser⟩ := (reads_or db fields (tokens.length + 1)).stuck tokens (Nat.lt_succ_self _) hstuck
  refine ⟨u, ?_⟩
  rw [parse_of_tokens htokens hne, hparser]

/-- The nesting that `parse` starts with is enough. -/
theorem parse_ne_recursion : parse db fields expression ≠ .error .recursion := by
  intro h
  cases htokens : tokenize db expression with
  | error e =>
    unfold parse at h
    rw [htokens] at h
    obtain rfl := Except.error.inj h
    obtain ⟨s, hs, -⟩ := tokenizeFrom_error htokens
    cases hs
  | ok tokens =>
    by_cases hnil : tokens = []
    · subst hnil
      unfold parse at h
      rw [htokens] at h
      cases h
    · rcases parse_eq_error htokens hnil h with ⟨s, hs, -⟩ | hstuck
      · cases hs
      · obtain ⟨u, hu⟩ := parse_of_stuck htokens hstuck
        rw [hu] at h
        cases h

/-- **When the parser accepts its grammar**: exactly where no literal is out of reach of the decoder and no parenthesis
is needed for a value. -/
theorem exact_iff (db : CharacterDatabase) (fields : Fields) (expression : Str) :
    Exact db fields expression ↔ Clean db fields expression := by
  cases htokens : tokenize db expression with
  | error e =>
    have hparse : parse db fields expression = .error e := by
      unfold parse
      rw [htokens]
    refine iff_of_true ⟨fun e' h => ?_, fun q => iff_of_false (fun h => ?_) ?_⟩ fun tokens h => ?_
    · rw [hparse] at h
      obtain rfl := Except.error.inj h
      exact tokenizeFrom_error htokens
    · rw [hparse] at h
      cases h
    · rintro ⟨tokens, h, -⟩
      rw [htokens] at h
      cases h
    · rw [htokens] at h
      cases h
  | ok tokens =>
    have hclean : Clean db fields expression ↔ ¬ Stuck db fields (.chain .or) tokens ∧
        ∀ q, Derives db fields (fun _ => True) (.chain .or) tokens q →
          Derives db fields IsValue (.chain .or) tokens q := by
      unfold Clean
      rw [htokens]
      simp only [Except.ok.injEq, forall_eq']
    have haccepts : ∀ q, Accepts db fields expression q ↔ Derives db fields IsValue (.chain .or) tokens q := by
      intro q
      unfold Accepts
      rw [htokens]
      simp only [Except.ok.injEq, exists_eq_left']
    unfold Exact
    simp only [haccepts]
    rw [hclean]
    by_cases hne : tokens = []
    · subst hne
      have hparse : parse db fields expression = fail .emptyFilter := by
        unfold parse
        rw [htokens]
      refine iff_of_true ⟨fun e h => isScim_fail (hparse.symm.trans h), fun q => iff_of_false (fun h => ?_) fun h => ?_⟩
        ⟨not_stuck_nil, fun q h => absurd h not_derives_nil⟩
      · rw [hparse] at h
        cases h
      · exact not_derives_nil h.mono
    · simp only [parse_eq_ok htokens hne]
      constructor
      · rintro ⟨herror, hderives⟩
        refine ⟨fun hstuck => ?_, fun q h => (hderives q).mp h⟩
        obtain ⟨u, hparse⟩ := parse_of_stuck htokens hstuck
        obtain ⟨s, hs, -⟩ := herror _ hparse
        cases hs
      · rintro ⟨hstuck, hvalues⟩
        exact ⟨fun e h => (parse_eq_error htokens hne h).resolve_right hstuck,
          fun q => ⟨hvalues q, fun h => h.mono⟩⟩

end Parse

/-- `userName eq (` is a condition. -/
example : parse asciiDatabase userFilterFields (codes "userName eq (") =
    .ok (.lookup "username__iexact" (.text (codes "("))) := by decide

/-- `userName eq "\x"` raises a `UnicodeDecodeError`. -/
theorem escape_raises : ¬ Exact asciiDatabase userFilterFields (codes "userName eq \"\\x\"") := by
  intro h
  have hparse : parse asciiDatabase userFilterFields (codes "userName eq \"\\x\"") =
      .error (.unicode .decode) := by decide
  obtain ⟨s, hs, -⟩ := h.1 _ hparse
  cases hs

end Waldur.Scim.Filters
