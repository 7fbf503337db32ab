import Mathlib
import Waldur.Lib.Runs
import Waldur.Marketplace.DerivedLimits

/-!
# Marketplace.FormulaGrammar — the formula parser accepts exactly its grammar

`Derives` is the grammar of the docstring of `_Parser`, with the levels of signs and parentheses that a derivation may
nest, and with the value of what is derived: left-associative, products before sums, and undefined where it divides by
zero.  `_Parser.parse` succeeds on the token sequences that an `expr` derives, and the tree it returns evaluates to the
value of the derivation (`parser_accepts`).
-/

namespace Waldur.Marketplace

open Runs

/-! ## The grammar -/

inductive Nonterminal
  | expr
  | term
  | unary
  | primary

/-- The value of an expression at an input; `none` where it divides by zero. -/
abbrev Meaning := ℚ → Option ℚ

namespace Meaning

def neg (v : Meaning) : Meaning := fun x => (v x).map (-·)

def add (v w : Meaning) : Meaning := fun x => do return (← v x) + (← w x)

def sub (v w : Meaning) : Meaning := fun x => do return (← v x) - (← w x)

def mul (v w : Meaning) : Meaning := fun x => do return (← v x) * (← w x)

def div (v w : Meaning) : Meaning := fun x => do
  let left ← v x
  let right ← w x
  if right = 0 then none else some (left / right)

end Meaning

/-- `expr := term (('+'|'-') term)*`, `term := unary (('*'|'/') unary)*`, `unary := ('+'|'-') unary | primary` and
`primary := number | 'input' | '(' expr ')'`, with at most so many signs and parentheses inside each other. -/
inductive Derives : Nonterminal → ℕ → List Token → Meaning → Prop
  | number {depth : ℕ} (x : ℚ) : Derives .primary depth [.num x] fun _ => some x
  | input {depth : ℕ} : Derives .primary depth [.input] some
  | parentheses {depth : ℕ} {l : List Token} {v : Meaning} :
      Derives .expr depth l v → Derives .primary (depth + 1) (.opening :: (l ++ [.closing])) v
  | primary {depth : ℕ} {l : List Token} {v : Meaning} : Derives .primary depth l v → Derives .unary depth l v
  | plus {depth : ℕ} {l : List Token} {v : Meaning} :
      Derives .unary depth l v → Derives .unary (depth + 1) (.plus :: l) v
  | minus {depth : ℕ} {l : List Token} {v : Meaning} :
      Derives .unary depth l v → Derives .unary (depth + 1) (.minus :: l) v.neg
  | unary {depth : ℕ} {l : List Token} {v : Meaning} : Derives .unary depth l v → Derives .term depth l v
  | times {depth : ℕ} {l l' : List Token} {v w : Meaning} :
      Derives .term depth l v → Derives .unary depth l' w → Derives .term depth (l ++ .times :: l') (v.mul w)
  | divide {depth : ℕ} {l l' : List Token} {v w : Meaning} :
      Derives .term depth l v → Derives .unary depth l' w → Derives .term depth (l ++ .divide :: l') (v.div w)
  | term {depth : ℕ} {l : List Token} {v : Meaning} : Derives .term depth l v → Derives .expr depth l v
  | add {depth : ℕ} {l l' : List Token} {v w : Meaning} :
      Derives .expr depth l v → Derives .term depth l' w → Derives .expr depth (l ++ .plus :: l') (v.add w)
  | sub {depth : ℕ} {l l' : List Token} {v w : Meaning} :
      Derives .expr depth l v → Derives .term depth l' w → Derives .expr depth (l ++ .minus :: l') (v.sub w)

/-! ## The values of trees -/

/-- What `evaluate_formula` makes of a value. -/
def outcome (v : Option ℚ) : Except FormulaError ℚ := v.elim (.error .divisionByZero) .ok

/-- A tree evaluates to the value at every input, and fails exactly where that divides by zero. -/
def Evaluates (node : Formula) (v : Meaning) : Prop := ∀ x, evaluateFormula x node = outcome (v x)

section Trees

variable {node right : Formula} {v w : Meaning}

theorem Evaluates.neg (h : Evaluates node v) : Evaluates (.neg node) v.neg := by
  intro x
  change (evaluateFormula x node).map _ = outcome ((v x).map _)
  rw [h x]
  cases v x <;> rfl

theorem Evaluates.add (h : Evaluates node v) (h' : Evaluates right w) : Evaluates (.add node right) (v.add w) := by
  intro x
  simp only [evaluateFormula, Meaning.add, h x, h' x]
  cases v x <;> cases w x <;> rfl

theorem Evaluates.sub (h : Evaluates node v) (h' : Evaluates right w) : Evaluates (.sub node right) (v.sub w) := by
  intro x
  simp only [evaluateFormula, Meaning.sub, h x, h' x]
  cases v x <;> cases w x <;> rfl

theorem Evaluates.mul (h : Evaluates node v) (h' : Evaluates right w) : Evaluates (.mul node right) (v.mul w) := by
  intro x
  simp only [evaluateFormula, Meaning.mul, h x, h' x]
  cases v x <;> cases w x <;> rfl

theorem Evaluates.div (h : Evaluates node v) (h' : Evaluates right w) : Evaluates (.div node right) (v.div w) := by
  intro x
  simp only [evaluateFormula, Meaning.div, h x, h' x]
  cases v x with
  | none => rfl
  | some a =>
    cases w x with
    | none => rfl
    | some b =>
      by_cases hb : b = 0
      · subst hb
        rfl
      · change (if b = 0 then Except.error .divisionByZero else Except.ok (a / b)) =
          outcome (if b = 0 then none else some (a / b))
        rw [if_neg hb, if_neg hb]
        rfl

/-- A tree has one value. -/
theorem Evaluates.unique (h : Evaluates node v) (h' : Evaluates node w) : v = w := by
  funext x
  have heq : outcome (v x) = outcome (w x) := (h x).symm.trans (h' x)
  cases hv : v x with
  | none =>
    cases hw : w x with
    | none => rfl
    | some b => rw [hv, hw] at heq; cases heq
  | some a =>
    cases hw : w x with
    | none => rw [hv, hw] at heq; cases heq
    | some b => rw [hv, hw] at heq; exact congrArg some (Except.ok.inj heq)

end Trees

/-! ## What the parser takes is derived -/

/-- What a rule takes off the tokens is derived, and its tree has the value of the derivation. -/
def Sound (symbol : Nonterminal) (depth : ℕ) (rule : Rule) : Prop :=
  ∀ tokens node rest, rule tokens = .ok (node, rest) →
    ∃ l v, tokens = l ++ rest ∧ Derives symbol depth l v ∧ Evaluates node v

section Soundness

variable {depth n : ℕ} {rule : Rule} {node node' : Formula} {tokens rest l : List Token} {v : Meaning}

/-- The rounds of `term` go on with a derivation of what has been read. -/
theorem termLoop_sound (hrule : Sound .unary depth rule) (hl : Derives .term depth l v) (hnode : Evaluates node v)
    (hloop : termLoop rule n node tokens = .ok (node', rest)) :
    ∃ l' v', tokens = l' ++ rest ∧ Derives .term depth (l ++ l') v' ∧ Evaluates node' v' := by
  fun_induction termLoop rule n node tokens generalizing l v with
  | case1 n node tokens ih =>
    obtain ⟨⟨right, tokens'⟩, hright, hrounds⟩ := bind_eq_ok.mp hloop
    obtain ⟨m, w, rfl, hm, hw⟩ := hrule _ _ _ hright
    obtain ⟨l', v', rfl, hl', hv'⟩ := ih _ _ (hl.times hm) (hnode.mul hw) hrounds
    refine ⟨.times :: m ++ l', v', ?_, ?_, hv'⟩
    · rw [List.append_assoc, List.cons_append]
    · rwa [← List.append_assoc]
  | case2 n node tokens ih =>
    obtain ⟨⟨right, tokens'⟩, hright, hrounds⟩ := bind_eq_ok.mp hloop
    obtain ⟨m, w, rfl, hm, hw⟩ := hrule _ _ _ hright
    obtain ⟨l', v', rfl, hl', hv'⟩ := ih _ _ (hl.divide hm) (hnode.div hw) hrounds
    refine ⟨.divide :: m ++ l', v', ?_, ?_, hv'⟩
    · rw [List.append_assoc, List.cons_append]
    · rwa [← List.append_assoc]
  | case3 n node tokens =>
    obtain ⟨rfl, rfl⟩ := Prod.mk.inj (Except.ok.inj hloop)
    exact ⟨[], v, rfl, (List.append_nil l).symm ▸ hl, hnode⟩

theorem Sound.term (hrule : Sound .unary depth rule) : Sound .term depth (term rule) := by
  intro tokens node rest hterm
  obtain ⟨⟨first, tokens'⟩, hfirst, hloop⟩ := bind_eq_ok.mp hterm
  obtain ⟨l, v, rfl, hl, hv⟩ := hrule _ _ _ hfirst
  obtain ⟨l', v', rfl, hl', hv'⟩ := termLoop_sound hrule hl.unary hv hloop
  exact ⟨l ++ l', v', (List.append_assoc _ _ _).symm, hl', hv'⟩

/-- The rounds of `expr` go on with a derivation of what has been read. -/
theorem exprLoop_sound (hrule : Sound .unary depth rule) (hl : Derives .expr depth l v) (hnode : Evaluates node v)
    (hloop : exprLoop rule n node tokens = .ok (node', rest)) :
    ∃ l' v', tokens = l' ++ rest ∧ Derives .expr depth (l ++ l') v' ∧ Evaluates node' v' := by
  fun_induction exprLoop rule n node tokens generalizing l v with
  | case1 n node tokens ih =>
    obtain ⟨⟨right, tokens'⟩, hright, hrounds⟩ := bind_eq_ok.mp hloop
    obtain ⟨m, w, rfl, hm, hw⟩ := hrule.term _ _ _ hright
    obtain ⟨l', v', rfl, hl', hv'⟩ := ih _ _ (hl.add hm) (hnode.add hw) hrounds
    refine ⟨.plus :: m ++ l', v', ?_, ?_, hv'⟩
    · rw [List.append_assoc, List.cons_append]
    · rwa [← List.append_assoc]
  | case2 n node tokens ih =>
    obtain ⟨⟨right, tokens'⟩, hright, hrounds⟩ := bind_eq_ok.mp hloop
    obtain ⟨m, w, rfl, hm, hw⟩ := hrule.term _ _ _ hright
    obtain ⟨l', v', rfl, hl', hv'⟩ := ih _ _ (hl.sub hm) (hnode.sub hw) hrounds
    refine ⟨.minus :: m ++ l', v', ?_, ?_, hv'⟩
    · rw [List.append_assoc, List.cons_append]
    · rwa [← List.append_assoc]
  | case3 n node tokens =>
    obtain ⟨rfl, rfl⟩ := Prod.mk.inj (Except.ok.inj hloop)
    exact ⟨[], v, rfl, (List.append_nil l).symm ▸ hl, hnode⟩

theorem Sound.expr (hrule : Sound .unary depth rule) : Sound .expr depth (expr rule) := by
  intro tokens node rest hexpr
  obtain ⟨⟨first, tokens'⟩, hfirst, hloop⟩ := bind_eq_ok.mp hexpr
  obtain ⟨l, v, rfl, hl, hv⟩ := hrule.term _ _ _ hfirst
  obtain ⟨l', v', rfl, hl', hv'⟩ := exprLoop_sound hrule hl.term hv hloop
  exact ⟨l ++ l', v', (List.append_assoc _ _ _).symm, hl', hv'⟩

/-- What `unary` and `primary` read without going deeper. -/
theorem unary_leaf {token : Token} (hunary : unary depth (token :: tokens) = .ok (node, rest))
    (h : (∃ x, token = .num x) ∨ token = .input) :
    ∃ l v, token :: tokens = l ++ rest ∧ Derives .unary depth l v ∧ Evaluates node v := by
  obtain ⟨x, rfl⟩ | rfl := h
  · rw [unary] at hunary
    obtain ⟨rfl, rfl⟩ := Prod.mk.inj (Except.ok.inj hunary)
    exact ⟨[.num x], _, rfl, (Derives.number x).primary, fun _ => rfl⟩
  · rw [unary] at hunary
    obtain ⟨rfl, rfl⟩ := Prod.mk.inj (Except.ok.inj hunary)
    exact ⟨[.input], _, rfl, Derives.input.primary, fun _ => rfl⟩

theorem unary_sound (depth : ℕ) : Sound .unary depth (unary depth) := by
  induction depth with
  | zero =>
    intro tokens node rest h
    cases tokens with
    | nil => cases h
    | cons token tokens =>
      cases token with
      | num x => exact unary_leaf h (Or.inl ⟨x, rfl⟩)
      | input => exact unary_leaf h (Or.inr rfl)
      | plus | minus | times | divide | opening | closing => cases h
  | succ depth ih =>
    intro tokens node rest h
    cases tokens with
    | nil => cases h
    | cons token tokens =>
      cases token with
      | num x => exact unary_leaf h (Or.inl ⟨x, rfl⟩)
      | input => exact unary_leaf h (Or.inr rfl)
      | times | divide | closing => cases h
      | plus =>
        obtain ⟨l, v, rfl, hl, hv⟩ := ih _ _ _ h
        exact ⟨.plus :: l, v, rfl, hl.plus, hv⟩
      | minus =>
        obtain ⟨⟨node', rest'⟩, hunary, heq⟩ := map_eq_ok.mp h
        obtain ⟨rfl, rfl⟩ := Prod.mk.inj heq
        obtain ⟨l, v, rfl, hl, hv⟩ := ih _ _ _ hunary
        exact ⟨.minus :: l, v.neg, rfl, hl.minus, hv.neg⟩
      | opening =>
        obtain ⟨⟨node', rest'⟩, hexpr, hclosing⟩ := bind_eq_ok.mp h
        obtain ⟨l, v, rfl, hl, hv⟩ := ih.expr _ _ _ hexpr
        cases rest' with
        | nil => cases hclosing
        | cons token' rest' =>
          cases token' with
          | closing =>
            obtain ⟨rfl, rfl⟩ := Prod.mk.inj (Except.ok.inj hclosing)
            refine ⟨.opening :: (l ++ [.closing]), v, ?_, hl.parentheses.primary, hv⟩
            rw [List.cons_append, List.append_assoc, List.singleton_append]
          | num | input | plus | minus | times | divide | opening => cases hclosing

end Soundness

/-! ## What is derived is taken -/

/-- No factor follows. -/
def EndsTerm (rest : List Token) : Prop := ∀ token ∈ rest.head?, token ≠ .times ∧ token ≠ .divide

/-- What the parser makes of a derived sequence, before anything else: `unary` takes it and nothing more; a term and an
expression are left at the rounds that read on. -/
def Read : Nonterminal → ℕ → List Token → Meaning → Prop
  | .primary, depth, l, v | .unary, depth, l, v =>
    ∀ rest, ∃ node, Evaluates node v ∧ unary depth (l ++ rest) = .ok (node, rest)
  | .term, depth, l, v =>
    ∀ rest, ∃ node, Evaluates node v ∧
      term (unary depth) (l ++ rest) = termLoop (unary depth) rest.length node rest
  | .expr, depth, l, v =>
    ∀ rest, EndsTerm rest → ∃ node, Evaluates node v ∧
      expr (unary depth) (l ++ rest) = exprLoop (unary depth) rest.length node rest

section Completeness

variable {depth : ℕ} {node : Formula} {tokens rest l : List Token} {v : Meaning} {symbol : Nonterminal}

theorem termLoop_ends {rule : Rule} {n : ℕ} (h : EndsTerm rest) : termLoop rule n node rest = .ok (node, rest) := by
  cases n with
  | zero => rfl
  | succ n =>
    cases rest with
    | nil => rfl
    | cons token rest =>
      have hne := h token rfl
      cases token with
      | times => exact absurd rfl hne.1
      | divide => exact absurd rfl hne.2
      | num | input | plus | minus | opening | closing => rfl

/-- A term that no factor follows is read to its end. -/
theorem Read.term_ends (h : Read .term depth l v) (hrest : EndsTerm rest) :
    ∃ node, Evaluates node v ∧ term (unary depth) (l ++ rest) = .ok (node, rest) := by
  obtain ⟨node, hnode, hterm⟩ := h rest
  exact ⟨node, hnode, hterm.trans (termLoop_ends hrest)⟩

/-- One round of `term`. -/
theorem termLoop_round {right : Formula} (hright : unary depth tokens = .ok (right, rest)) :
    termLoop (unary depth) (Token.times :: tokens).length node (.times :: tokens) =
        termLoop (unary depth) rest.length (.mul node right) rest ∧
      termLoop (unary depth) (Token.divide :: tokens).length node (.divide :: tokens) =
        termLoop (unary depth) rest.length (.div node right) rest := by
  have hlt : rest.length ≤ tokens.length := (shortens_unary depth _ _ _ hright).le
  constructor <;> rw [List.length_cons, termLoop, hright]
  · exact termLoop_rounds (shortens_unary depth) hlt le_rfl
  · exact termLoop_rounds (shortens_unary depth) hlt le_rfl

/-- One round of `expr`. -/
theorem exprLoop_round {right : Formula} (hright : term (unary depth) tokens = .ok (right, rest)) :
    exprLoop (unary depth) (Token.plus :: tokens).length node (.plus :: tokens) =
        exprLoop (unary depth) rest.length (.add node right) rest ∧
      exprLoop (unary depth) (Token.minus :: tokens).length node (.minus :: tokens) =
        exprLoop (unary depth) rest.length (.sub node right) rest := by
  have hlt : rest.length ≤ tokens.length := ((shortens_unary depth).term _ _ _ hright).le
  constructor <;> rw [List.length_cons, exprLoop, hright]
  · exact exprLoop_rounds (shortens_unary depth) hlt le_rfl
  · exact exprLoop_rounds (shortens_unary depth) hlt le_rfl

theorem read_of_derives (h : Derives symbol depth l v) : Read symbol depth l v := by
  induction h with
  | number x => exact fun rest => ⟨.num x, fun _ => rfl, by rw [List.singleton_append, unary]⟩
  | input => exact fun rest => ⟨.input, fun _ => rfl, by rw [List.singleton_append, unary]⟩
  | @parentheses depth l v _ ih =>
    intro rest
    obtain ⟨node, hnode, hexpr⟩ := ih (.closing :: rest) fun token htoken => by
      obtain rfl := Option.some.inj htoken
      exact ⟨nofun, nofun⟩
    refine ⟨node, hnode, ?_⟩
    have htokens : Token.opening :: (l ++ [.closing]) ++ rest = .opening :: (l ++ .closing :: rest) := by
      rw [List.cons_append, List.append_assoc, List.singleton_append]
    rw [htokens, unary, hexpr]
    rfl
  | primary _ ih => exact ih
  | plus _ ih =>
    intro rest
    obtain ⟨node, hnode, hunary⟩ := ih rest
    exact ⟨node, hnode, by rw [List.cons_append, unary, hunary]⟩
  | minus _ ih =>
    intro rest
    obtain ⟨node, hnode, hunary⟩ := ih rest
    exact ⟨.neg node, hnode.neg, by rw [List.cons_append, unary, hunary]; rfl⟩
  | unary _ ih =>
    intro rest
    obtain ⟨node, hnode, hunary⟩ := ih rest
    exact ⟨node, hnode, by rw [term, hunary]; rfl⟩
  | times _ _ ih ih' =>
    intro rest
    obtain ⟨right, hright, hunary⟩ := ih' rest
    obtain ⟨node, hnode, hterm⟩ := ih (.times :: (_ ++ rest))
    refine ⟨.mul node right, hnode.mul hright, ?_⟩
    rw [List.append_assoc, List.cons_append, hterm, (termLoop_round hunary).1]
  | divide _ _ ih ih' =>
    intro rest
    obtain ⟨right, hright, hunary⟩ := ih' rest
    obtain ⟨node, hnode, hterm⟩ := ih (.divide :: (_ ++ rest))
    refine ⟨.div node right, hnode.div hright, ?_⟩
    rw [List.append_assoc, List.cons_append, hterm, (termLoop_round hunary).2]
  | term _ ih =>
    intro rest hrest
    obtain ⟨node, hnode, hterm⟩ := ih.term_ends hrest
    exact ⟨node, hnode, by rw [expr, hterm]; rfl⟩
  | add _ _ ih ih' =>
    intro rest hrest
    obtain ⟨right, hright, hterm⟩ := ih'.term_ends hrest
    obtain ⟨node, hnode, hexpr⟩ := ih (.plus :: (_ ++ rest)) fun token htoken => by
      obtain rfl := Option.some.inj htoken
      exact ⟨nofun, nofun⟩
    refine ⟨.add node right, hnode.add hright, ?_⟩
    rw [List.append_assoc, List.cons_append, hexpr, (exprLoop_round hterm).1]
  | sub _ _ ih ih' =>
    intro rest hrest
    obtain ⟨right, hright, hterm⟩ := ih'.term_ends hrest
    obtain ⟨node, hnode, hexpr⟩ := ih (.minus :: (_ ++ rest)) fun token htoken => by
      obtain rfl := Option.some.inj htoken
      exact ⟨nofun, nofun⟩
    refine ⟨.sub node right, hnode.sub hright, ?_⟩
    rw [List.append_assoc, List.cons_append, hexpr, (exprLoop_round hterm).2]

theorem Derives.ne_nil (h : Derives symbol depth l v) : l ≠ [] := by
  induction h with
  | number | input | parentheses | plus | minus => exact List.cons_ne_nil _ _
  | primary _ ih | unary _ ih | term _ ih => exact ih
  | times | divide | add | sub => exact List.append_ne_nil_of_right_ne_nil _ (List.cons_ne_nil _ _)

end Completeness

/-! ## The parser and its grammar -/

section Parse

variable {tokens : List Token} {tree : Formula} {v : Meaning}

/-- A tree is one of a derivation of all the tokens. -/
theorem parseTokens_sound (h : parseTokens tokens = .ok tree) :
    ∃ v, Derives .expr maxFormulaDepth tokens v ∧ Evaluates tree v := by
  unfold parseTokens at h
  split_ifs at h with hnil
  obtain ⟨⟨node, rest⟩, hexpr, hrest⟩ := bind_eq_ok.mp h
  obtain ⟨l, v, htokens, hl, hv⟩ := (unary_sound maxFormulaDepth).expr _ _ _ hexpr
  cases rest with
  | nil =>
    obtain rfl := Except.ok.inj hrest
    rw [List.append_nil] at htokens
    exact ⟨v, htokens ▸ hl, hv⟩
  | cons token rest => cases hrest

/-- A derivation of all the tokens gives a tree, which has its value. -/
theorem parseTokens_complete (h : Derives .expr maxFormulaDepth tokens v) :
    ∃ tree, parseTokens tokens = .ok tree ∧ Evaluates tree v := by
  obtain ⟨tree, htree, hexpr⟩ := read_of_derives h [] fun token htoken => nomatch htoken
  refine ⟨tree, ?_, htree⟩
  rw [List.append_nil] at hexpr
  rw [parseTokens, if_neg h.ne_nil, hexpr]
  rfl

/-- **The grammar is unambiguous**: all derivations of a sequence give it one value. -/
theorem Derives.unique {w : Meaning} (h : Derives .expr maxFormulaDepth tokens v)
    (h' : Derives .expr maxFormulaDepth tokens w) : v = w := by
  obtain ⟨tree, htree, hv⟩ := parseTokens_complete h
  obtain ⟨tree', htree', hw⟩ := parseTokens_complete h'
  obtain rfl := Except.ok.inj (htree.symm.trans htree')
  exact hv.unique hw

/-- **The parser accepts exactly its grammar**: it succeeds if and only if an `expr` derives all the tokens, and what it
returns evaluates to the value of the derivation at every input, failing exactly where that divides by zero; and
`parse_formula` is the parser on the tokens of every text that is not too long to be tokenized. -/
theorem parser_accepts (tokens : List Token) :
    ((∃ tree, parseTokens tokens = .ok tree) ↔ ∃ v, Derives .expr maxFormulaDepth tokens v) ∧
      (∀ tree v x, parseTokens tokens = .ok tree → Derives .expr maxFormulaDepth tokens v →
        evaluateFormula x tree = outcome (v x)) ∧
      ∀ text : String, text.toList.length ≤ maxFormulaLength → tokenize text.toList = .ok tokens →
        parseFormula text = parseTokens tokens := by
  refine ⟨⟨?_, ?_⟩, ?_, ?_⟩
  · rintro ⟨tree, htree⟩
    obtain ⟨v, hv, -⟩ := parseTokens_sound htree
    exact ⟨v, hv⟩
  · rintro ⟨v, hv⟩
    obtain ⟨tree, htree, -⟩ := parseTokens_complete hv
    exact ⟨tree, htree⟩
  · intro tree v x htree hv
    obtain ⟨tree', htree', heval⟩ := parseTokens_complete hv
    obtain rfl := Except.ok.inj (htree.symm.trans htree')
    exact heval x
  · intro text hlength htokens
    rw [parseFormula, if_neg (Nat.not_lt.mpr hlength), htokens]
    rfl

end Parse

end Waldur.Marketplace
