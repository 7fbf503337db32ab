import Mathlib
import Waldur.Lib.Documents
import Waldur.Lib.PythonFractions
import Waldur.Lib.Runs

/-!
# Marketplace.DerivedLimits — limits that the server calculates

Formulas over one input, sums of components, and `compute_derived_limits`, which drops whatever a client sent for a
derived component and sets it again.  Two requests that agree on the components that are not derived get the same limits,
and the limits that a request gets are those of a request for them (`server_owns`).
-/

namespace Waldur.Marketplace

open Documents PythonText Runs

/-! ## Formulas -/

inductive Token
  | num (x : ℚ)
  | input
  | plus
  | minus
  | times
  | divide
  | opening
  | closing
deriving DecidableEq

inductive Formula
  | num (x : ℚ)
  | input
  | neg (f : Formula)
  | add (f g : Formula)
  | sub (f g : Formula)
  | mul (f g : Formula)
  | div (f g : Formula)
deriving DecidableEq

inductive FormulaError
  /-- "Unexpected character ... at position ...". -/
  | unexpectedCharacter
  /-- "Formula is empty." -/
  | empty
  /-- "Unexpected ...". -/
  | unexpected (token : Token)
  /-- "Missing closing parenthesis." -/
  | missingParenthesis
  /-- "Formula ends unexpectedly." -/
  | endsUnexpectedly
  /-- "Formula is nested too deeply." -/
  | nestedTooDeeply
  /-- "Formula is longer than 255 characters." -/
  | tooLong
  /-- "Division by zero." -/
  | divisionByZero
deriving DecidableEq

def maxFormulaLength : ℕ := 255

def maxFormulaDepth : ℕ := 32

section Tokens

/-- `[0-9]+(\.[0-9]+)?|\.[0-9]+` at `c`: the number, and how many characters it has after `c`. -/
def readNumber (c : Char) (l : List Char) : Option (ℚ × ℕ) :=
  if c.isDigit then
    let whole := l.takeWhile Char.isDigit
    match l.dropWhile Char.isDigit with
    | '.' :: l' =>
      let decimals := l'.takeWhile Char.isDigit
      if decimals = [] then some (readDigits (c :: whole), whole.length)
      else some (readDigits (c :: whole ++ decimals) / 10 ^ decimals.length, whole.length + 1 + decimals.length)
    | _ => some (readDigits (c :: whole), whole.length)
  else if c = '.' then
    let decimals := l.takeWhile Char.isDigit
    if decimals = [] then none else some (readDigits decimals / 10 ^ decimals.length, decimals.length)
  else none

/-- `(input)\b` at `c`; what is no letter of ASCII ends the word only if it is a blank, and is unexpected otherwise. -/
def readsInput (c : Char) (l : List Char) : Bool :=
  decide (c :: l.take 4 = "input".toList) && (l.drop 4).head?.all fun c' =>
    decide (c'.toNat < 128 ∧ !c'.isAlphanum ∧ c' ≠ '_') || isBlank c'

/-- `[-+*/()]`. -/
def readOperator (c : Char) : Option Token :=
  [('-', .minus), ('+', .plus), ('*', .times), ('/', .divide), ('(', .opening), (')', .closing)].lookup c

/-- The token at `c`, and how many characters it has after `c`. -/
def readToken (c : Char) (l : List Char) : Option (Token × ℕ) :=
  match readNumber c l with
  | some (x, n) => some (.num x, n)
  | none => if readsInput c l then some (.input, 4) else (readOperator c).map fun token => (token, 0)

/-- The loop of `_tokenize`. -/
def tokensOf (l : List Char) : Except FormulaError (List Token) :=
  match l with
  | [] => .ok []
  | c :: l =>
    if isBlank c then tokensOf l
    else match readToken c l with
      | none => .error .unexpectedCharacter
      | some (token, n) => (tokensOf (l.drop n)).map (token :: ·)
termination_by l.length
decreasing_by
  · exact Nat.lt_succ_self _
  · exact Nat.lt_succ_of_le ((List.length_drop).trans_le (Nat.sub_le _ _))

/-- `_tokenize`. -/
def tokenize (text : List Char) : Except FormulaError (List Token) := tokensOf (text.reverse.dropWhile isBlank).reverse

end Tokens

section Parser

/-- A rule of the grammar: the tree, and the tokens that are left. -/
abbrev Rule := List Token → Except FormulaError (Formula × List Token)

/-- The loop of `term` after a tree; every round takes a token, so `n` tokens are enough. -/
def termLoop (unary : Rule) : ℕ → Formula → Rule
  | n + 1, node, .times :: tokens => do
    let (right, tokens) ← unary tokens
    termLoop unary n (.mul node right) tokens
  | n + 1, node, .divide :: tokens => do
    let (right, tokens) ← unary tokens
    termLoop unary n (.div node right) tokens
  | _, node, tokens => .ok (node, tokens)

/-- `_Parser.term`. -/
def term (unary : Rule) (tokens : List Token) : Except FormulaError (Formula × List Token) := do
  let (node, tokens) ← unary tokens
  termLoop unary tokens.length node tokens

/-- The loop of `expr` after a tree. -/
def exprLoop (unary : Rule) : ℕ → Formula → Rule
  | n + 1, node, .plus :: tokens => do
    let (right, tokens) ← term unary tokens
    exprLoop unary n (.add node right) tokens
  | n + 1, node, .minus :: tokens => do
    let (right, tokens) ← term unary tokens
    exprLoop unary n (.sub node right) tokens
  | _, node, tokens => .ok (node, tokens)

/-- `_Parser.expr`. -/
def expr (unary : Rule) (tokens : List Token) : Except FormulaError (Formula × List Token) := do
  let (node, tokens) ← term unary tokens
  exprLoop unary tokens.length node tokens

/-- `_Parser.unary` and `_Parser.primary`, with `depth` levels of nesting left. -/
def unary (depth : ℕ) (tokens : List Token) : Except FormulaError (Formula × List Token) :=
  match tokens with
  | .plus :: tokens =>
    match depth with
    | 0 => .error .nestedTooDeeply
    | depth + 1 => unary depth tokens
  | .minus :: tokens =>
    match depth with
    | 0 => .error .nestedTooDeeply
    | depth + 1 => (unary depth tokens).map fun x => (.neg x.1, x.2)
  | .num x :: tokens => .ok (.num x, tokens)
  | .input :: tokens => .ok (.input, tokens)
  | .opening :: tokens =>
    match depth with
    | 0 => .error .nestedTooDeeply
    | depth + 1 => do
      let (node, tokens) ← expr (unary depth) tokens
      match tokens with
      | .closing :: tokens => .ok (node, tokens)
      | _ => .error .missingParenthesis
  | [] => .error .endsUnexpectedly
  | token :: _ => .error (.unexpected token)

/-- A rule takes at least one token. -/
def Shortens (rule : Rule) : Prop := ∀ tokens node rest, rule tokens = .ok (node, rest) → rest.length < tokens.length

section Rounds

variable {rule : Rule} {n n' : ℕ} {node node' : Formula} {tokens rest : List Token}

theorem termLoop_length (h : Shortens rule) (hloop : termLoop rule n node tokens = .ok (node', rest)) :
    rest.length ≤ tokens.length := by
  fun_induction termLoop rule n node tokens with
  | case1 n node tokens ih =>
    obtain ⟨⟨right, tokens'⟩, hright, hloop⟩ := bind_eq_ok.mp hloop
    have hlt := h _ _ _ hright
    have hle := ih _ _ hloop
    rw [List.length_cons]
    omega
  | case2 n node tokens ih =>
    obtain ⟨⟨right, tokens'⟩, hright, hloop⟩ := bind_eq_ok.mp hloop
    have hlt := h _ _ _ hright
    have hle := ih _ _ hloop
    rw [List.length_cons]
    omega
  | case3 n node tokens =>
    obtain ⟨-, rfl⟩ := Prod.mk.inj (Except.ok.inj hloop)
    exact le_rfl

theorem Shortens.term (h : Shortens rule) : Shortens (term rule) := by
  intro tokens node rest hterm
  obtain ⟨⟨first, tokens'⟩, hfirst, hloop⟩ := bind_eq_ok.mp hterm
  exact (termLoop_length h hloop).trans_lt (h _ _ _ hfirst)

theorem exprLoop_length (h : Shortens rule) (hloop : exprLoop rule n node tokens = .ok (node', rest)) :
    rest.length ≤ tokens.length := by
  fun_induction exprLoop rule n node tokens with
  | case1 n node tokens ih =>
    obtain ⟨⟨right, tokens'⟩, hright, hloop⟩ := bind_eq_ok.mp hloop
    have hlt := h.term _ _ _ hright
    have hle := ih _ _ hloop
    rw [List.length_cons]
    omega
  | case2 n node tokens ih =>
    obtain ⟨⟨right, tokens'⟩, hright, hloop⟩ := bind_eq_ok.mp hloop
    have hlt := h.term _ _ _ hright
    have hle := ih _ _ hloop
    rw [List.length_cons]
    omega
  | case3 n node tokens =>
    obtain ⟨-, rfl⟩ := Prod.mk.inj (Except.ok.inj hloop)
    exact le_rfl

theorem Shortens.expr (h : Shortens rule) : Shortens (expr rule) := by
  intro tokens node rest hexpr
  obtain ⟨⟨first, tokens'⟩, hfirst, hloop⟩ := bind_eq_ok.mp hexpr
  exact (exprLoop_length h hloop).trans_lt (h.term _ _ _ hfirst)

theorem shortens_unary (depth : ℕ) : Shortens (unary depth) := by
  induction depth with
  | zero =>
    intro tokens node rest h
    cases tokens with
    | nil => cases h
    | cons token tokens =>
      cases token with
      | num | input =>
        obtain ⟨-, rfl⟩ := Prod.mk.inj (Except.ok.inj h)
        exact Nat.lt_succ_self _
      | plus | minus | times | divide | opening | closing => cases h
  | succ depth ih =>
    intro tokens node rest h
    cases tokens with
    | nil => cases h
    | cons token tokens =>
      cases token with
      | num | input =>
        obtain ⟨-, rfl⟩ := Prod.mk.inj (Except.ok.inj h)
        exact Nat.lt_succ_self _
      | times | divide | closing => cases h
      | plus => exact (ih _ _ _ h).trans (Nat.lt_succ_self _)
      | minus =>
        obtain ⟨⟨node', rest'⟩, hunary, heq⟩ := map_eq_ok.mp h
        obtain ⟨-, rfl⟩ := Prod.mk.inj heq
        exact (ih _ _ _ hunary).trans (Nat.lt_succ_self _)
      | opening =>
        obtain ⟨⟨node', rest'⟩, hexpr, hclosing⟩ := bind_eq_ok.mp h
        have hlt := ih.expr _ _ _ hexpr
        cases rest' with
        | nil => cases hclosing
        | cons token' rest' =>
          cases token' with
          | closing =>
            obtain ⟨-, rfl⟩ := Prod.mk.inj (Except.ok.inj hclosing)
            rw [List.length_cons] at hlt ⊢
            omega
          | num | input | plus | minus | times | divide | opening => cases hclosing

/-- One more round of a loop, whose tree is read by a rule. -/
theorem bind_rounds {next : Rule} {f g : Formula × List Token → Except FormulaError (Formula × List Token)}
    (h : ∀ x, next tokens = .ok x → f x = g x) : (next tokens >>= f) = (next tokens >>= g) := by
  cases hnext : next tokens with
  | error e => rfl
  | ok x => exact h x hnext

/-- **Every round takes a token**, so no more rounds are made than there are tokens. -/
theorem termLoop_rounds (h : Shortens rule) (hn : tokens.length ≤ n) (hn' : tokens.length ≤ n') :
    termLoop rule n node tokens = termLoop rule n' node tokens := by
  induction n generalizing n' node tokens with
  | zero =>
    obtain rfl := List.eq_nil_of_length_eq_zero (Nat.le_zero.mp hn)
    cases n' <;> rfl
  | succ n ih =>
    cases tokens with
    | nil => cases n' <;> rfl
    | cons token tokens =>
      obtain ⟨n', rfl⟩ := Nat.exists_eq_succ_of_ne_zero (Nat.ne_of_gt (Nat.lt_of_lt_of_le (Nat.succ_pos _) hn'))
      have hround : ∀ x, rule tokens = .ok x → x.2.length ≤ n ∧ x.2.length ≤ n' := by
        intro x hx
        have hlt := h _ x.1 x.2 hx
        rw [List.length_cons] at hn hn'
        omega
      cases token with
      | times => exact bind_rounds fun x hx => ih (hround x hx).1 (hround x hx).2
      | divide => exact bind_rounds fun x hx => ih (hround x hx).1 (hround x hx).2
      | num | input | plus | minus | opening | closing => rfl

theorem exprLoop_rounds (h : Shortens rule) (hn : tokens.length ≤ n) (hn' : tokens.length ≤ n') :
    exprLoop rule n node tokens = exprLoop rule n' node tokens := by
  induction n generalizing n' node tokens with
  | zero =>
    obtain rfl := List.eq_nil_of_length_eq_zero (Nat.le_zero.mp hn)
    cases n' <;> rfl
  | succ n ih =>
    cases tokens with
    | nil => cases n' <;> rfl
    | cons token tokens =>
      obtain ⟨n', rfl⟩ := Nat.exists_eq_succ_of_ne_zero (Nat.ne_of_gt (Nat.lt_of_lt_of_le (Nat.succ_pos _) hn'))
      have hround : ∀ x, term rule tokens = .ok x → x.2.length ≤ n ∧ x.2.length ≤ n' := by
        intro x hx
        have hlt := h.term _ x.1 x.2 hx
        rw [List.length_cons] at hn hn'
        omega
      cases token with
      | plus => exact bind_rounds fun x hx => ih (hround x hx).1 (hround x hx).2
      | minus => exact bind_rounds fun x hx => ih (hround x hx).1 (hround x hx).2
      | num | input | times | divide | opening | closing => rfl

end Rounds

/-- `_Parser.parse`. -/
def parseTokens (tokens : List Token) : Except FormulaError Formula :=
  if tokens = [] then .error .empty
  else do
    let (node, rest) ← expr (unary maxFormulaDepth) tokens
    match rest with
    | [] => .ok node
    | token :: _ => .error (.unexpected token)

/-- `parse_formula`. -/
def parseFormula (text : String) : Except FormulaError Formula :=
  if text.toList.length > maxFormulaLength then .error .tooLong
  else do parseTokens (← tokenize text.toList)

/-- `evaluate_formula`. -/
def evaluateFormula (value : ℚ) : Formula → Except FormulaError ℚ
  | .num x => .ok x
  | .input => .ok value
  | .neg f => (evaluateFormula value f).map (-·)
  | .add f g => do return (← evaluateFormula value f) + (← evaluateFormula value g)
  | .sub f g => do return (← evaluateFormula value f) - (← evaluateFormula value g)
  | .mul f g => do return (← evaluateFormula value f) * (← evaluateFormula value g)
  | .div f g => do
    let left ← evaluateFormula value f
    let right ← evaluateFormula value g
    if right = 0 then .error .divisionByZero else .ok (left / right)

/-- **How an expression is read**: with any number of rounds that is enough for its tokens. -/
theorem expr_rounds (depth n n' : ℕ) (node : Formula) (tokens : List Token) (hn : tokens.length ≤ n)
    (hn' : tokens.length ≤ n') : termLoop (unary depth) n node tokens = termLoop (unary depth) n' node tokens ∧
      exprLoop (unary depth) n node tokens = exprLoop (unary depth) n' node tokens :=
  ⟨termLoop_rounds (shortens_unary depth) hn hn', exprLoop_rounds (shortens_unary depth) hn hn'⟩

end Parser

/-! ## Derived options -/

/-- What a float prints, and the float nearest to a fraction; `none` is an `OverflowError`. -/
structure Floats (F : Type) where
  str : F → String
  ofRat : ℚ → Option F

/-- A JSON value; a list or an object is there with the text that `str` gives of it. -/
inductive Value (F : Type)
  | null
  | bool (b : Bool)
  | int (n : ℤ)
  | float (x : F)
  | text (s : String)
  | other (text : String)

structure FormulaTarget where
  componentType : String
  formula : String

/-- The type of an option with its own config, as `OptionFieldSerializer` validated it. -/
inductive OptionType
  | componentFormula (targets : List FormulaTarget)
  | componentSum (targetComponent : String) (components : List String)
  | other

structure OptionField (F : Type) where
  type : OptionType
  default : Value F := .null
  min : Option ℤ := none
  max : Option ℤ := none

/-- The options of an offering under their names, in order. -/
abbrev Options (F : Type) := List (String × OptionField F)

/-- The `ValidationError`s, each with the field that it names, and the other exceptions. -/
inductive DerivedError
  /-- `limits`: "Option ... refers to ..., which is not a limit-based component of this plan. ...". -/
  | notALimitComponent (name component : String)
  /-- The option: "A number is required." -/
  | numberRequired (name : String)
  /-- The option: "Ensure this value is greater than or equal to ...". -/
  | tooSmall (name : String) (min : ℤ)
  /-- The option: "Ensure this value is less than or equal to ...". -/
  | tooLarge (name : String) (max : ℤ)
  /-- The option: "Cannot calculate ...: ...". -/
  | cannotCalculate (name component : String) (error : FormulaError)
  /-- The option: "Calculated ... is negative." -/
  | negative (name component : String)
  /-- `options`: "Component sums form a cycle: ...". -/
  | cycle (path : List String)
  /-- `options`: "Option ... sums component ... into itself." -/
  | sumsIntoItself (name component : String)
  /-- `options`: "Component ... is derived by more than one option (..., ...)." -/
  | derivedTwice (component first second : String)
  /-- `ValueError` or `ZeroDivisionError`, of `Fraction(str(value))`. -/
  | notAFraction
  /-- `OverflowError`, of `float(value)`. -/
  | overflow
deriving DecidableEq

/-- `limit_decimal_places` of a component. -/
structure Component where
  limitDecimalPlaces : ℕ := 0

section Options

variable {F : Type}

/-- `_formula_targets`. -/
def formulaTargets (option : OptionField F) : List String :=
  match option.type with
  | .componentFormula targets => targets.map (·.componentType)
  | _ => []

/-- The components that an option derives. -/
def derivedBy (option : OptionField F) : List String :=
  match option.type with
  | .componentFormula _ => formulaTargets option
  | .componentSum target _ => if target = "" then [] else [target]
  | .other => []

/-- `result.setdefault(component, name)`. -/
def setDefault (result : List (String × String)) (component name : String) : List (String × String) :=
  if component ∈ result.map Prod.fst then result else result ++ [(component, name)]

/-- `derived_components`: each derived component with the option that derives it. -/
def derivedComponents (options : Options F) : List (String × String) :=
  options.foldl (fun result option => (derivedBy option.2).foldl (fun result c => setDefault result c option.1) result) []

/-- `sums`: the last option of a target, in the place of the first. -/
def sums (options : Options F) : List (String × List String) :=
  options.foldl (fun sums option =>
    match option.2.type with
    | .componentSum target components =>
      if target ∈ sums.map Prod.fst then sums.map fun s => if s.1 = target then (target, components) else s
      else sums ++ [(target, components)]
    | _ => sums) []

/-- `visit` of `_sum_order`: what is done is in `ordered`, what is being visited is on the path. -/
def visit (sums : List (String × List String)) (target : String) (path : List String)
    (ordered : List (String × List String)) : Except DerivedError (List (String × List String)) :=
  if target ∈ ordered.map Prod.fst then .ok ordered
  else if _hpath : target ∈ path then .error (.cycle (path ++ [target]))
  else match _h : sums.lookup target with
    | none => .ok ordered
    | some components => do
      let ordered ← components.foldlM (fun ordered c =>
        if c ∈ sums.map Prod.fst then visit sums c (path ++ [target]) ordered else .ok ordered) ordered
      return ordered ++ [(target, components)]
termination_by (sums.filter fun s => decide (s.1 ∉ path)).length
decreasing_by
  have hsub : (sums.filter fun s => decide (s.1 ∉ path ++ [target])).Sublist
      (sums.filter fun s => decide (s.1 ∉ path)) :=
    List.monotone_filter_right _ fun s hs => by
      simp only [List.mem_append, not_or, decide_eq_true_eq] at hs ⊢
      exact hs.1
  refine lt_of_le_of_ne hsub.length_le fun hlength => ?_
  obtain ⟨s, hs, hkey⟩ : ∃ s ∈ sums, s.1 = target := by
    obtain ⟨l, r, hsums, -⟩ := List.lookup_eq_some_iff.mp _h
    exact ⟨_, hsums ▸ List.mem_append_right _ List.mem_cons_self, rfl⟩
  have hmem : s ∈ sums.filter fun s => decide (s.1 ∉ path) :=
    List.mem_filter.mpr ⟨hs, decide_eq_true (hkey ▸ _hpath)⟩
  rw [← hsub.eq_of_length hlength] at hmem
  exact of_decide_eq_true (List.mem_filter.mp hmem).2 (List.mem_append_right _ (hkey ▸ List.mem_singleton_self _))

/-- `_sum_order`: each sum after the sums that it reads. -/
def sumOrder (options : Options F) : Except DerivedError (List (String × List String)) :=
  ((sums options).map Prod.fst).foldlM (fun ordered target => visit (sums options) target [] ordered) []

/-- The components of an option as `validate_derived_options` takes them. -/
def checkedTargets (name : String) (option : OptionField F) : Except DerivedError (List String) :=
  match option.type with
  | .componentFormula _ => .ok (formulaTargets option)
  | .componentSum target components =>
    if target ∈ components then .error (.sumsIntoItself name target) else .ok [target]
  | .other => .ok []

/-- `validate_derived_options`. -/
def validateDerivedOptions (options : Options F) : Except DerivedError Unit := do
  let _ ← options.foldlM (fun owners option => do
    (← checkedTargets option.1 option.2).foldlM (fun (owners : List (String × String)) c =>
      match owners.lookup c with
      | some first => .error (.derivedTwice c first option.1)
      | none => .ok (owners ++ [(c, option.1)])) owners) []
  let _ ← sumOrder options
  return ()

end Options

/-! ## Limits -/

section Compute

variable {F : Type} (floats : Floats F)

/-- `str(value)`. -/
def Value.str : Value F → String
  | .null => "None"
  | .bool b => if b then "True" else "False"
  | .int n => toString n
  | .float x => floats.str x
  | .text s => s
  | .other t => t

/-- `Fraction(str(value))`. -/
def fractionOf (value : Value F) : Option ℚ := readFraction (value.str floats).toList

/-- `_round_up`. -/
def roundUp (value : ℚ) (component : Option Component) : ℚ :=
  let scale : ℚ := 10 ^ ((component.map (·.limitDecimalPlaces)).getD 0)
  ⌈value * scale⌉ / scale

/-- `_narrow`. -/
def narrow (value : ℚ) : Except DerivedError (Value F) :=
  if value.den = 1 then .ok (.int value.num)
  else match floats.ofRat value with
    | some x => .ok (.float x)
    | none => .error .overflow

/-- Nothing was entered. -/
def Value.isBlank : Value F → Bool
  | .null => true
  | .text s => s = ""
  | _ => false

/-- `_formula_input`. -/
def formulaInput (name : String) (option : OptionField F) (attributes : Document String (Value F)) :
    Except DerivedError (Option ℚ) :=
  let entered := (attributes.get? name).getD .null
  let value := if entered.isBlank then option.default else entered
  if value.isBlank then .ok none
  else match value with
    | .bool _ => .error (.numberRequired name)
    | value =>
      match fractionOf floats value with
      | none => .error (.numberRequired name)
      | some number =>
        match option.min.filter fun m : ℤ => decide (number < m), option.max.filter fun m : ℤ => decide (number > m) with
        | some min, _ => .error (.tooSmall name min)
        | none, some max => .error (.tooLarge name max)
        | none, none => .ok (some number)

/-- The exact values, under their components. -/
abbrev Exact := Document String ℚ

/-- The numbers among the limits; anything else is no amount. -/
def exactLimits (limits : Document String (Value F)) : Except DerivedError Exact :=
  limits.entries.foldlM (fun exact e =>
    match e.2 with
    | .int n => .ok (exact.insert e.1 n)
    | .float x =>
      match fractionOf floats (.float x) with
      | some value => .ok (exact.insert e.1 value)
      | none => .error .notAFraction
    | _ => .ok exact) Document.empty

/-- The targets of one formula option. -/
def applyFormula (components : Document String Component) (name : String) (targets : List FormulaTarget) (value : ℚ)
    (exact : Exact) : Except DerivedError Exact :=
  targets.foldlM (fun exact target =>
    match parseFormula target.formula >>= evaluateFormula value with
    | .error error => .error (.cannotCalculate name target.componentType error)
    | .ok amount =>
      if amount < 0 then .error (.negative name target.componentType)
      else .ok (exact.insert target.componentType (roundUp amount (components.get? target.componentType)))) exact

/-- The formulas, option by option. -/
def applyFormulas (options : Options F) (attributes : Document String (Value F)) (components : Document String Component)
    (exact : Exact) : Except DerivedError Exact :=
  options.foldlM (fun exact option =>
    match option.2.type with
    | .componentFormula targets => do
      match ← formulaInput floats option.1 option.2 attributes with
      | none => .ok exact
      | some value => applyFormula components option.1 targets value exact
    | _ => .ok exact) exact

/-- The values that are kept for what was not calculated. -/
def applyFallback (derived : List (String × String)) (fallback : Document String (Value F)) (exact : Exact) :
    Except DerivedError Exact :=
  derived.foldlM (fun exact d =>
    match exact.get? d.1, fallback.get? d.1 with
    | none, some value =>
      match fractionOf floats value with
      | some value => .ok (exact.insert d.1 value)
      | none => .error .notAFraction
    | _, _ => .ok exact) exact

/-- The sums, each after those that it reads. -/
def applySums (ordered : List (String × List String)) (components : Document String Component) (exact : Exact) : Exact :=
  ordered.foldl (fun exact sum =>
    let present := sum.2.filterMap exact.get?
    if present = [] then exact else exact.insert sum.1 (roundUp present.sum (components.get? sum.1))) exact

/-- The derived limits, written over what is left of the request. -/
def writeDerived (derived : List (String × String)) (exact : Exact) (result : Document String (Value F)) :
    Except DerivedError (Document String (Value F)) :=
  derived.foldlM (fun result d =>
    match exact.get? d.1 with
    | some value => (narrow floats value).map fun value => result.insert d.1 value
    | none => .ok result) result

/-- The limits without those that are derived. -/
def withoutDerived (derived : List (String × String)) (limits : Document String (Value F)) : Document String (Value F) :=
  limits.filter fun e => decide (e.1 ∉ derived.map Prod.fst)

/-- `compute_derived_limits`. -/
def computeDerivedLimits (options : Options F) (attributes : Document String (Value F))
    (components : Document String Component) (fallback limits : Document String (Value F)) :
    Except DerivedError (Document String (Value F)) :=
  let derived := derivedComponents options
  if derived = [] then .ok limits
  else match derived.find? fun d => decide (d.1 ∉ components.keys) with
    | some d => .error (.notALimitComponent d.2 d.1)
    | none => do
      let result := withoutDerived derived limits
      let exact ← exactLimits floats result
      let exact ← applyFormulas floats options attributes components exact
      let exact ← applyFallback floats derived fallback exact
      let exact := applySums (← sumOrder options) components exact
      writeDerived floats derived exact result

end Compute

/-! ## What the server owns -/

section Owned

variable {F : Type} {floats : Floats F} {options : Options F} {attributes fallback limits limits' result r : Document String (Value F)}
  {components : Document String Component} {derived : List (String × String)} {exact : Exact} {k : String}

theorem withoutDerived_get? (hk : k ∉ derived.map Prod.fst) : (withoutDerived derived limits).get? k = limits.get? k := by
  refine Option.ext fun v => ?_
  unfold withoutDerived
  rw [Document.get?_filter]
  exact and_iff_left (decide_eq_true hk)

theorem withoutDerived_get?_derived (hk : k ∈ derived.map Prod.fst) : (withoutDerived derived limits).get? k = none := by
  refine Option.eq_none_iff_forall_not_mem.mpr fun v hv => ?_
  exact of_decide_eq_true (Document.get?_filter.mp hv).2 hk

/-- What is left of a request is its part that is not derived. -/
theorem withoutDerived_congr (h : ∀ k ∉ derived.map Prod.fst, limits.get? k = limits'.get? k) :
    withoutDerived derived limits = withoutDerived derived limits' := by
  refine Document.ext_get? fun k => ?_
  by_cases hk : k ∈ derived.map Prod.fst
  · rw [withoutDerived_get?_derived hk, withoutDerived_get?_derived hk]
  · rw [withoutDerived_get? hk, withoutDerived_get? hk, h k hk]

/-- Writing the derived limits leaves every other limit. -/
theorem writeDerived_get? (h : writeDerived floats derived exact result = .ok r) (hk : k ∉ derived.map Prod.fst) :
    r.get? k = result.get? k := by
  unfold writeDerived at h
  induction derived generalizing result with
  | nil => rw [← Except.ok.inj h]
  | cons d derived ih =>
    rw [List.map_cons, List.mem_cons, not_or] at hk
    obtain ⟨next, hnext, hrest⟩ := bind_eq_ok.mp h
    rw [ih hrest hk.2]
    simp only at hnext
    cases hvalue : exact.get? d.1 with
    | none =>
      rw [hvalue] at hnext
      rw [← Except.ok.inj hnext]
    | some value =>
      rw [hvalue] at hnext
      obtain ⟨v, -, rfl⟩ := map_eq_ok.mp hnext
      exact Document.get?_insert_ne hk.1

/-- A request counts only by its part that is not derived. -/
theorem computeDerivedLimits_congr (h : ∀ k ∉ (derivedComponents options).map Prod.fst, limits.get? k = limits'.get? k) :
    computeDerivedLimits floats options attributes components fallback limits =
      computeDerivedLimits floats options attributes components fallback limits' := by
  unfold computeDerivedLimits
  by_cases hnil : derivedComponents options = []
  · have hsame : limits = limits' := Document.ext_get? fun k => h k (by rw [hnil]; exact List.not_mem_nil)
    simp only [hsame]
  · simp only [withoutDerived_congr h, if_neg hnil]

/-- The limits that are not derived are those of the request. -/
theorem computeDerivedLimits_get? (h : computeDerivedLimits floats options attributes components fallback limits = .ok r)
    (hk : k ∉ (derivedComponents options).map Prod.fst) : r.get? k = limits.get? k := by
  unfold computeDerivedLimits at h
  simp only at h
  split_ifs at h with hnil
  · rw [← Except.ok.inj h]
  · cases hfind : (derivedComponents options).find? fun d => decide (d.1 ∉ components.keys) with
    | some d =>
      rw [hfind] at h
      cases h
    | none =>
      rw [hfind] at h
      obtain ⟨exact₁, -, h⟩ := bind_eq_ok.mp h
      obtain ⟨exact₂, -, h⟩ := bind_eq_ok.mp h
      obtain ⟨exact₃, -, h⟩ := bind_eq_ok.mp h
      obtain ⟨ordered, -, h⟩ := bind_eq_ok.mp h
      rw [writeDerived_get? h hk, withoutDerived_get? hk]

/-- **The server owns every derived limit**: two requests that agree on the components that are not derived are both
refused or get the same limits, and the limits that a request gets are calculated again from themselves. -/
theorem server_owns (floats : Floats F) (options : Options F) (attributes : Document String (Value F))
    (components : Document String Component) (fallback limits limits' : Document String (Value F))
    (h : ∀ k ∉ (derivedComponents options).map Prod.fst, limits.get? k = limits'.get? k) :
    ((∃ e e', computeDerivedLimits floats options attributes components fallback limits = .error e ∧
        computeDerivedLimits floats options attributes components fallback limits' = .error e') ∨
      ∃ r r', computeDerivedLimits floats options attributes components fallback limits = .ok r ∧
        computeDerivedLimits floats options attributes components fallback limits' = .ok r' ∧
        ∀ k, r.get? k = r'.get? k) ∧
    ∀ r, computeDerivedLimits floats options attributes components fallback limits = .ok r →
      computeDerivedLimits floats options attributes components fallback r = .ok r := by
  have hsame : computeDerivedLimits floats options attributes components fallback limits =
      computeDerivedLimits floats options attributes components fallback limits' := computeDerivedLimits_congr h
  constructor
  · cases hcompute : computeDerivedLimits floats options attributes components fallback limits with
    | error e => exact Or.inl ⟨e, e, rfl, hsame.symm.trans hcompute⟩
    | ok r => exact Or.inr ⟨r, r, rfl, hsame.symm.trans hcompute, fun _ => rfl⟩
  · intro r hr
    rw [computeDerivedLimits_congr fun k hk => computeDerivedLimits_get? hr hk, hr]

/-- An option that derives `cpu`, twice what is entered for it. -/
def twiceCores : Options Empty :=
  [("cores", { type := .componentFormula [{ componentType := "cpu", formula := "input * 2" }] })]

/-- No value is a float. -/
def noFloats : Floats Empty := ⟨fun x => x.elim, fun _ => none⟩

/-- A request with a `cpu` of its own gets the limits of a request without one. -/
theorem cpu_owned : ((∃ e e', computeDerivedLimits noFloats twiceCores (Document.empty.insert "cores" (.int 3))
        (Document.empty.insert "cpu" {}) Document.empty (Document.empty.insert "cpu" (.int 1)) = .error e ∧
      computeDerivedLimits noFloats twiceCores (Document.empty.insert "cores" (.int 3))
        (Document.empty.insert "cpu" {}) Document.empty Document.empty = .error e') ∨
    ∃ r r', computeDerivedLimits noFloats twiceCores (Document.empty.insert "cores" (.int 3))
        (Document.empty.insert "cpu" {}) Document.empty (Document.empty.insert "cpu" (.int 1)) = .ok r ∧
      computeDerivedLimits noFloats twiceCores (Document.empty.insert "cores" (.int 3))
        (Document.empty.insert "cpu" {}) Document.empty Document.empty = .ok r' ∧ ∀ k, r.get? k = r'.get? k) ∧
    ∀ r, computeDerivedLimits noFloats twiceCores (Document.empty.insert "cores" (.int 3))
        (Document.empty.insert "cpu" {}) Document.empty (Document.empty.insert "cpu" (.int 1)) = .ok r →
      computeDerivedLimits noFloats twiceCores (Document.empty.insert "cores" (.int 3))
        (Document.empty.insert "cpu" {}) Document.empty r = .ok r := by
  refine server_owns noFloats twiceCores _ _ _ _ _ fun k hk => Document.get?_insert_ne fun heq => hk ?_
  rw [heq]
  exact List.mem_cons_self

end Owned

end Waldur.Marketplace
