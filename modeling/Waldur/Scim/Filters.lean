import Mathlib
import Waldur.Lib.PythonDigits
import Waldur.Lib.UnicodeEscape

/-!
# Scim.Filters — the parser of SCIM filters

`parse`: a tokenizer by one pattern and a parser by recursive descent, which builds the condition of the ORM.  Texts are
lists of code points, and the recursion is bounded by the nesting it may go to (`parse_ne_recursion` in
`Scim.FilterGrammar`: the bound that `parse` starts with is never reached).
-/

namespace Waldur.Scim.Filters

open UnicodeEscape

/-! ## Characters -/

/-- `\s`. -/
def isSpace (c : ℕ) : Bool :=
  [9, 10, 11, 12, 13, 28, 29, 30, 31, 32, 0x85, 0xA0, 0x1680, 0x2000, 0x2001, 0x2002, 0x2003, 0x2004, 0x2005, 0x2006,
    0x2007, 0x2008, 0x2009, 0x200A, 0x2028, 0x2029, 0x202F, 0x205F, 0x3000].contains c

/-- What the interpreter knows of Unicode beyond digits and blanks: `\w`, and the names of characters. -/
structure CharacterDatabase where
  isWord : ℕ → Bool
  names : List ℕ → Option ℕ
  isWord_ascii : ∀ c < 128,
    isWord c = decide (48 ≤ c ∧ c ≤ 57 ∨ 65 ≤ c ∧ c ≤ 90 ∨ c = 95 ∨ 97 ≤ c ∧ c ≤ 122)
  isWord_space : ∀ c, isSpace c = true → isWord c = false

/-- `\d`. -/
def isDigit (c : ℕ) : Bool := PythonText.zeros.any fun z => decide (z ≤ c ∧ c < z + 10)

/-- `[\w\-:]`. -/
def isPathChar (db : CharacterDatabase) (c : ℕ) : Bool := db.isWord c || c == 45 || c == 58

/-- `str.lower`; of the characters outside of ASCII, two have one of ASCII in lower case, and the others are left as
they are. -/
def lower (s : Str) : Str :=
  s.flatMap fun c =>
    if 65 ≤ c ∧ c ≤ 90 then [c + 32] else if c = 0x130 then [105, 0x307] else if c = 0x212A then [107] else [c]

def doubleQuote : ℕ := 34

def lparen : Str := [40]

def rparen : Str := [41]

/-! ## Tokens -/

/-- What follows the quote of `"(?:\\.|[^"\\])*"`, with the closing quote; a point is not a newline. -/
def scanString : Str → Option (Str × Str)
  | [] => none
  | [c] => if c = doubleQuote then some ([c], []) else none
  | c :: d :: l =>
    if c = doubleQuote then some ([c], d :: l)
    else if c = backslash then
      if d = 10 then none else (scanString l).map fun x => (c :: d :: x.1, x.2)
    else (scanString (d :: l)).map fun x => (c :: x.1, x.2)

/-- `"(?:\\.|[^"\\])*"`. -/
def scanQuoted : Str → Option (Str × Str)
  | [] => none
  | c :: l => if c = doubleQuote then (scanString l).map fun x => (c :: x.1, x.2) else none

/-- `\d+(?:\.\d+)?`. -/
def scanDecimal (l : Str) : Option (Str × Str) :=
  let digits := l.takeWhile isDigit
  let rest := l.dropWhile isDigit
  let fraction := (rest.drop 1).takeWhile isDigit
  if digits = [] then none
  else if rest.head? = some 46 ∧ fraction ≠ [] then
    some (digits ++ 46 :: fraction, (rest.drop 1).dropWhile isDigit)
  else some (digits, rest)

/-- `-?\d+(?:\.\d+)?`. -/
def scanNumber : Str → Option (Str × Str)
  | [] => none
  | c :: l => if c = 45 then (scanDecimal l).map fun x => (c :: x.1, x.2) else scanDecimal (c :: l)

/-- `\(` and `\)`. -/
def scanParen : Str → Option (Str × Str)
  | [] => none
  | c :: l => if [c] = lparen ∨ [c] = rparen then some ([c], l) else none

/-- What follows a character of `(?:[\w\-:]+\.)*[\w\-:]+`: characters of a path, and points between two of them. -/
def scanPath (db : CharacterDatabase) : Str → Str × Str
  | [] => ([], [])
  | [c] => if isPathChar db c then ([c], []) else ([], [c])
  | c :: d :: l =>
    if isPathChar db c || (c == 46 && isPathChar db d) then
      (c :: (scanPath db (d :: l)).1, (scanPath db (d :: l)).2)
    else ([], c :: d :: l)

/-- `(?:[\w\-:]+\.)*[\w\-:]+`. -/
def scanWord (db : CharacterDatabase) : Str → Option (Str × Str)
  | [] => none
  | c :: l => if isPathChar db c then some (c :: (scanPath db l).1, (scanPath db l).2) else none

/-- The alternatives of `_TOKEN_RE`. -/
def scanToken (db : CharacterDatabase) (l : Str) : Option (Str × Str) :=
  scanQuoted l <|> scanNumber l <|> scanParen l <|> scanWord db l

/-! ## Errors and conditions -/

/-- The detail of a `ScimError` of the parser. -/
inductive Detail
  /-- "Empty filter expression." -/
  | emptyFilter
  /-- "Unexpected token ... at end of filter." -/
  | unexpectedToken (token : Str)
  /-- "Unable to tokenize filter near ...." -/
  | unableToTokenize (near : Str)
  /-- "Unexpected end of filter expression." -/
  | unexpectedEnd
  /-- "Expected '(' after 'not'." -/
  | expectedParen
  /-- "Missing closing ')'." -/
  | missingParen
  /-- "Expected attribute path, got ...." -/
  | expectedPath (token : Str)
  /-- "Unsupported operator ... Allowed: eq, ne, co, sw, ew, pr." -/
  | unsupportedOperator (op : Str)
  /-- "Unsupported filter attribute ...." -/
  | unsupportedAttribute (path : Str)
  /-- "Operator ... is not supported for boolean attribute ...." -/
  | booleanOperator (op path : Str)
  /-- "Boolean attribute ... requires a true/false value." -/
  | booleanValue (path : Str)
deriving DecidableEq

structure ScimError where
  statusCode : ℕ
  detail : Detail
  scimType : String
deriving DecidableEq

def invalidFilter (detail : Detail) : ScimError := ⟨400, detail, "invalidFilter"⟩

/-- What `parse` raises. -/
inductive FilterError
  | scim (e : ScimError)
  | unicode (e : UnicodeError)
  | recursion
deriving DecidableEq

def fail {α : Type} (detail : Detail) : Except FilterError α := .error (.scim (invalidFilter detail))

structure FilterField where
  ormField : String
  caseInsensitive : Bool := true
  boolean : Bool := false
deriving DecidableEq

/-- `fields`: attribute paths of SCIM, in lower case; `not` is no attribute. -/
structure Fields where
  entries : List (Str × FilterField)
  ascii : ∀ entry ∈ entries, ∀ c ∈ entry.1, c < 128
  reserved : entries.lookup (codes "not") = none

/-- A value that a condition compares with. -/
inductive Value
  | text (s : Str)
  | bool (b : Bool)
deriving DecidableEq

/-- A condition of the ORM. -/
inductive Q
  | lookup (key : String) (value : Value)
  | and (p q : Q)
  | or (p q : Q)
  | not (q : Q)
deriving DecidableEq

/-- The tokenizer: `match` from one position to the next, a character at least. -/
def tokenizeFrom (db : CharacterDatabase) : ℕ → Str → Except FilterError (List Str)
  | _, [] => .ok []
  | 0, l => fail (.unableToTokenize (l.take 20))
  | n + 1, c :: l =>
    match scanToken db ((c :: l).dropWhile isSpace) with
    | some (token, rest) => (tokenizeFrom db n rest).map (token :: ·)
    | none =>
      let stripped := (((c :: l).dropWhile isSpace).rdropWhile isSpace)
      if stripped = [] then .ok [] else fail (.unableToTokenize (stripped.take 20))

/-- `_tokenize`. -/
def tokenize (db : CharacterDatabase) (expression : Str) : Except FilterError (List Str) :=
  tokenizeFrom db expression.length expression

def isString (token : Str) : Bool := token.head? == some doubleQuote && token.getLast? == some doubleQuote

/-- `_is_number`: the number is the whole token. -/
def isNumber (token : Str) : Bool :=
  match scanNumber token with
  | some (_, rest) => rest.isEmpty
  | none => false

/-- `_unquote`. -/
def unquote (db : CharacterDatabase) (token : Str) : Except FilterError Str :=
  if isString token then
    match decodeText db.names (token.drop 1).dropLast with
    | .ok s => .ok s
    | .error e => .error (.unicode e)
  else if lower token = codes "true" then .ok (codes "true")
  else if lower token = codes "false" then .ok (codes "false")
  else if lower token = codes "null" then .ok []
  else .ok token

section Tokens

variable {db : CharacterDatabase} {c n m : ℕ} {l token rest : Str}

theorem scanString_eq (h : scanString l = some (token, rest)) : l = token ++ rest := by
  fun_induction scanString l generalizing token with
  | case1 => cases h
  | case2 | case4 =>
    obtain ⟨rfl, rfl⟩ := Prod.mk.inj (Option.some.inj h)
    rfl
  | case3 | case5 => cases h
  | case6 | case7 =>
    rename_i ih
    obtain ⟨x, hx, heq⟩ := Option.map_eq_some_iff.mp h
    obtain ⟨rfl, rfl⟩ := Prod.mk.inj heq
    rw [ih hx]
    rfl

theorem scanDecimal_eq (h : scanDecimal l = some (token, rest)) : l = token ++ rest ∧ token ≠ [] := by
  have hsplit : ∀ l : Str, l = l.takeWhile isDigit ++ l.dropWhile isDigit :=
    fun l => List.takeWhile_append_dropWhile.symm
  unfold scanDecimal at h
  simp only at h
  split_ifs at h with hdigits hfraction
  · obtain ⟨rfl, rfl⟩ := Prod.mk.inj (Option.some.inj h)
    refine ⟨?_, by simp⟩
    cases hrest : l.dropWhile isDigit with
    | nil =>
      rw [hrest] at hfraction
      cases hfraction.1
    | cons c r =>
      rw [hrest] at hfraction
      obtain rfl := Option.some.inj hfraction.1
      rw [List.append_assoc, List.cons_append, List.drop_one, List.tail_cons, ← hsplit r, ← hrest]
      exact hsplit l
  · obtain ⟨rfl, rfl⟩ := Prod.mk.inj (Option.some.inj h)
    exact ⟨hsplit l, hdigits⟩

theorem scanNumber_eq (h : scanNumber l = some (token, rest)) : l = token ++ rest ∧ token ≠ [] := by
  cases l with
  | nil => cases h
  | cons c l =>
    by_cases hc : c = 45
    · obtain ⟨x, hx, heq⟩ := Option.map_eq_some_iff.mp ((if_pos hc).symm.trans h)
      obtain ⟨rfl, rfl⟩ := Prod.mk.inj heq
      rw [(scanDecimal_eq hx).1]
      exact ⟨rfl, List.cons_ne_nil _ _⟩
    · exact scanDecimal_eq ((if_neg hc).symm.trans h)

theorem scanPath_eq (db : CharacterDatabase) (l : Str) : l = (scanPath db l).1 ++ (scanPath db l).2 := by
  fun_induction scanPath db l with
  | case1 => rfl
  | case2 => rfl
  | case3 => rfl
  | case4 c d l _ ih => exact congrArg (c :: ·) ih
  | case5 => rfl

/-- A token is what the text begins with, and takes a character at least. -/
theorem scanToken_eq (h : scanToken db l = some (token, rest)) : l = token ++ rest ∧ token ≠ [] := by
  unfold scanToken at h
  simp only [Option.orElse_eq_orElse, Option.orElse_eq_or, Option.or_eq_some_iff] at h
  rcases h with h | ⟨-, h | ⟨-, h | ⟨-, h⟩⟩⟩
  · cases l with
    | nil => cases h
    | cons c l =>
      simp only [scanQuoted] at h
      split_ifs at h
      obtain ⟨x, hx, heq⟩ := Option.map_eq_some_iff.mp h
      obtain ⟨rfl, rfl⟩ := Prod.mk.inj heq
      rw [scanString_eq hx]
      exact ⟨rfl, List.cons_ne_nil _ _⟩
  · exact scanNumber_eq h
  · cases l with
    | nil => cases h
    | cons c l =>
      simp only [scanParen] at h
      split_ifs at h
      obtain ⟨rfl, rfl⟩ := Prod.mk.inj (Option.some.inj h)
      exact ⟨rfl, List.cons_ne_nil _ _⟩
  · cases l with
    | nil => cases h
    | cons c l =>
      simp only [scanWord] at h
      split_ifs at h
      obtain ⟨rfl, rfl⟩ := Prod.mk.inj (Option.some.inj h)
      exact ⟨congrArg (c :: ·) (scanPath_eq db l), List.cons_ne_nil _ _⟩

/-- As many rounds as there are characters are enough. -/
theorem tokenizeFrom_eq (hn : l.length ≤ n) : tokenizeFrom db n l = tokenize db l := by
  have hsame : ∀ (n m : ℕ) (l : Str), l.length ≤ n → l.length ≤ m → tokenizeFrom db n l = tokenizeFrom db m l := by
    intro n
    induction n with
    | zero =>
      intro m l hn hm
      rw [List.length_eq_zero_iff.mp (Nat.le_zero.mp hn)]
      unfold tokenizeFrom
      rfl
    | succ n ih =>
      intro m l hn hm
      cases l with
      | nil =>
        unfold tokenizeFrom
        rfl
      | cons c l =>
        rw [List.length_cons] at hn hm
        obtain ⟨m, rfl⟩ : ∃ m', m = m' + 1 := ⟨m - 1, by omega⟩
        unfold tokenizeFrom
        cases hscan : scanToken db ((c :: l).dropWhile isSpace) with
        | none => rfl
        | some x =>
          obtain ⟨htext, hne⟩ := scanToken_eq hscan
          have hlength := (List.dropWhile_sublist isSpace (l := c :: l)).length_le
          have hpos := List.length_pos_iff.mpr hne
          rw [htext, List.length_append, List.length_cons] at hlength
          simp only
          rw [ih m x.2 (by omega) (by omega)]
  exact hsame n l.length l hn le_rfl

end Tokens

/-! ## The parser -/

section Parser

variable (db : CharacterDatabase) (fields : Fields)

/-- `_COMPARISON_OPS`. -/
def comparisonOps : List Str := [codes "eq", codes "ne", codes "co", codes "sw", codes "ew"]

/-- `_resolve`. -/
def resolve (path : Str) : Except FilterError FilterField :=
  match fields.entries.lookup (lower path) with
  | some field => .ok field
  | none => fail (.unsupportedAttribute path)

/-- The condition of `_build_present`. -/
def presentQ (field : FilterField) : Q :=
  .and (.lookup (field.ormField ++ "__isnull") (.bool false)) (.not (.lookup field.ormField (.text [])))

/-- `_build_present`. -/
def buildPresent (path : Str) : Except FilterError Q := do
  let field ← resolve fields path
  return presentQ field

/-- `_build_boolean`. -/
def buildBoolean (path op value : Str) (field : FilterField) : Except FilterError Q :=
  if op ≠ codes "eq" ∧ op ≠ codes "ne" then fail (.booleanOperator op path)
  else if lower value ≠ codes "true" ∧ lower value ≠ codes "false" then fail (.booleanValue path)
  else
    let q := Q.lookup field.ormField (.bool (lower value == codes "true"))
    .ok (if op = codes "ne" then q.not else q)

/-- The comparison of a text attribute. -/
def comparisonQ (field : FilterField) (op value : Str) : Q :=
  let i := if field.caseInsensitive then "i" else ""
  if op = codes "eq" then .lookup (field.ormField ++ "__" ++ i ++ "exact") (.text value)
  else if op = codes "ne" then .not (.lookup (field.ormField ++ "__" ++ i ++ "exact") (.text value))
  else if op = codes "co" then .lookup (field.ormField ++ "__" ++ i ++ "contains") (.text value)
  else if op = codes "sw" then .lookup (field.ormField ++ "__" ++ i ++ "startswith") (.text value)
  else .lookup (field.ormField ++ "__" ++ i ++ "endswith") (.text value)

/-- `_build_comparison`, with one of the operators for comparison. -/
def buildComparison (path op valueToken : Str) : Except FilterError Q := do
  let field ← resolve fields path
  let value ← unquote db valueToken
  if field.boolean then buildBoolean path op value field
  else return comparisonQ field op value

/-- A condition, and the tokens after it. -/
abbrev Result := Except FilterError (Q × List Str)

/-- `parse_atom`. -/
def parseAtom : List Str → Result
  | [] => fail .unexpectedEnd
  | path :: rest =>
    if path = lparen ∨ path = rparen ∨ isString path = true ∨ isNumber path = true then fail (.expectedPath path)
    else
      match rest with
      | [] => fail .unexpectedEnd
      | op :: rest =>
        if lower op = codes "pr" then (buildPresent fields path).map (·, rest)
        else if lower op ∉ comparisonOps then fail (.unsupportedOperator (lower op))
        else
          match rest with
          | [] => fail .unexpectedEnd
          | valueToken :: rest => (buildComparison db fields path (lower op) valueToken).map (·, rest)

/-- `parse_primary`, which calls `parse_or` for what is in parentheses. -/
def parsePrimary (parseOr : List Str → Result) : List Str → Result
  | [] => parseAtom db fields []
  | token :: rest =>
    if token = lparen then
      match parseOr rest with
      | .error e => .error e
      | .ok (inner, close :: rest) => if close = rparen then .ok (inner, rest) else fail .missingParen
      | .ok (_, []) => fail .missingParen
    else parseAtom db fields (token :: rest)

/-- `parse_not`. -/
def parseNot (parseOr : List Str → Result) : List Str → Result
  | [] => parsePrimary db fields parseOr []
  | token :: rest =>
    if lower token = codes "not" then
      if rest.head? = some lparen then (parsePrimary db fields parseOr rest).map fun x => (x.1.not, x.2)
      else fail .expectedParen
    else parsePrimary db fields parseOr (token :: rest)

/-- The loops of `parse_or` and `parse_and`: as long as the keyword comes next, an operand follows. -/
def parseTail (keyword : Str) (join : Q → Q → Q) (parseOperand : List Str → Result) : ℕ → Q → List Str → Result
  | _, left, [] => .ok (left, [])
  | 0, left, rest => .ok (left, rest)
  | n + 1, left, token :: rest =>
    if lower token = keyword then
      match parseOperand rest with
      | .error e => .error e
      | .ok (right, rest) => parseTail keyword join parseOperand n (join left right) rest
    else .ok (left, token :: rest)

/-- `left = parse_operand()` and the loop; each round takes a token at least. -/
def parseChain (keyword : Str) (join : Q → Q → Q) (parseOperand : List Str → Result) (tokens : List Str) : Result :=
  match parseOperand tokens with
  | .error e => .error e
  | .ok (left, rest) => parseTail keyword join parseOperand rest.length left rest

/-- `parse_and`. -/
def parseAnd (parseOr : List Str → Result) : List Str → Result :=
  parseChain (codes "and") .and (parseNot db fields parseOr)

/-- `parse_or`, with so many levels of parentheses. -/
def parseOr : ℕ → List Str → Result
  | 0, _ => .error .recursion
  | n + 1, tokens => parseChain (codes "or") .or (parseAnd db fields (parseOr n)) tokens

/-- `parse`. -/
def parse (expression : Str) : Except FilterError Q :=
  match tokenize db expression with
  | .error e => .error e
  | .ok [] => fail .emptyFilter
  | .ok (token :: rest) =>
    match parseOr db fields (rest.length + 2) (token :: rest) with
    | .error e => .error e
    | .ok (result, []) => .ok result
    | .ok (_, next :: _) => fail (.unexpectedToken next)

variable {db fields} {path op token : Str} {rest : List Str}

/-- The tokens that `parse_atom` refuses for an attribute. -/
def NoPath (token : Str) : Prop :=
  token = lparen ∨ token = rparen ∨ isString token = true ∨ isNumber token = true

theorem parseAtom_refused (h : NoPath path) : parseAtom db fields (path :: rest) = fail (.expectedPath path) := if_pos h

theorem parseAtom_single (h : ¬ NoPath path) : parseAtom db fields [path] = fail .unexpectedEnd := if_neg h

theorem parseAtom_cons (h : ¬ NoPath path) : parseAtom db fields (path :: op :: rest) =
    if lower op = codes "pr" then (buildPresent fields path).map (·, rest)
    else if lower op ∉ comparisonOps then fail (.unsupportedOperator (lower op))
    else
      match rest with
      | [] => fail .unexpectedEnd
      | valueToken :: rest => (buildComparison db fields path (lower op) valueToken).map (·, rest) := if_neg h

theorem pr_not_comparison : codes "pr" ∉ comparisonOps := by decide

/-- A comparison, by an operator in any letter case. -/
theorem parseAtom_comparison (h : ¬ NoPath path) (hop : lower op ∈ comparisonOps) :
    parseAtom db fields (path :: op :: token :: rest) =
      (buildComparison db fields path (lower op) token).map (·, rest) := by
  have hpresent : lower op ≠ codes "pr" := fun heq => by
    rw [heq] at hop
    exact pr_not_comparison hop
  rw [parseAtom_cons h, if_neg hpresent, if_neg (not_not.mpr hop)]

end Parser

/-! ## The fields of users and groups -/

def userFilterEntries : List (Str × FilterField) :=
  [(codes "username", { ormField := "username" }),
    (codes "name.givenname", { ormField := "first_name" }),
    (codes "name.familyname", { ormField := "last_name" }),
    (codes "emails", { ormField := "email" }),
    (codes "emails.value", { ormField := "email" }),
    (codes "active", { ormField := "is_active", caseInsensitive := false, boolean := true }),
    (codes "displayname", { ormField := "username" })]

theorem userFields_ascii : ∀ entry ∈ userFilterEntries, ∀ c ∈ entry.1, c < 128 := by decide

theorem userFields_reserved : userFilterEntries.lookup (codes "not") = none := by decide

/-- `USER_FILTER_FIELDS`. -/
def userFilterFields : Fields := ⟨userFilterEntries, userFields_ascii, userFields_reserved⟩

theorem groupFields_ascii : ∀ entry ∈ [(codes "displayname", FilterField.mk "display_name" true false)],
    ∀ c ∈ entry.1, c < 128 := by decide

/-- `GROUP_FILTER_FIELDS`. -/
def groupFilterFields : Fields := ⟨_, groupFields_ascii, rfl⟩

end Waldur.Scim.Filters
