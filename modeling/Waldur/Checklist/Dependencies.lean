import Mathlib
import Waldur.Checklist.Models
import Waldur.Lib.Digraph
import Waldur.Lib.Runs
import Waldur.Lib.TableCounts

/-!
# Checklist.Dependencies — the check that keeps question dependencies acyclic

`is_circular` walks from the question depended on along one dependency of each question, the first in the order
of `created` and `id`, through the rows as they are stored.  A cycle that closes through another dependency is
accepted, and an edit is compared with the row that it replaces; a partial edit leaves out one of the two
questions.  `WalkDecides` is the exact condition on a creation or an edit.
-/

namespace Waldur.Checklist

open Digraph Relation Relational Runs

/-! ## The code -/

/-- The order of `QuestionDependency`: `created`, then `id`. -/
def QuestionDependency.before (d e : QuestionDependency) : Bool :=
  decide (d.created < e.created) || d.created == e.created && decide (d.id < e.id)

/-- `first()`. -/
def first : List QuestionDependency → Option QuestionDependency
  | [] => none
  | d :: ds =>
    match first ds with
    | none => some d
    | some e => if e.before d then some e else some d

/-- `QuestionDependency.objects.filter(question=current).first()`. -/
def nextDependency (deps : Dependencies) (current : ℕ) : Option QuestionDependency :=
  first (deps.rows.filter (·.question == current))

/-- The loop of `is_circular`; `none` where it has not ended after so many turns (`walk_ends`). -/
def walk (deps : Dependencies) (question : Option ℕ) : ℕ → List ℕ → ℕ → Option Bool
  | 0, _, _ => none
  | turns + 1, visited, current =>
    if current ∈ visited then some true
    else
      match nextDependency deps current with
      | none => some false
      | some d =>
        if some d.dependsOnQuestion = question then some true
        else walk deps question turns (current :: visited) d.dependsOnQuestion

/-- `is_circular`; a partial edit passes `None` for a question that it does not name. -/
def isCircular (deps : Dependencies) (question dependsOnQuestion : Option ℕ) : Bool :=
  if question = dependsOnQuestion then true
  else
    match dependsOnQuestion with
    | none => false
    | some current => (walk deps question (deps.rows.length + 1) [] current).getD false

inductive DependencyError
  | circular
  | attributeError
  | doesNotExist
deriving DecidableEq, Repr

def DependencyError.message : DependencyError → String
  | .circular => "Question cannot depend on itself"
  | .attributeError => "'NoneType' object has no attribute 'question_type'"
  | .doesNotExist => "No QuestionDependency matches the given query."

/-- `QuestionDependencySerializer.validate`, up to the checks of the value and the operator. -/
def validate (deps : Dependencies) (question dependsOnQuestion : Option ℕ) : Except DependencyError ℕ :=
  if isCircular deps question dependsOnQuestion then .error .circular
  else
    match dependsOnQuestion with
    | none => .error .attributeError
    | some d => .ok d

/-- A primary key that is not in use. -/
def freshId (deps : Dependencies) : ℕ := (deps.rows.map (·.id)).foldr max 0 + 1

theorem freshId_unused (deps : Dependencies) : deps.get? (freshId deps) = none := Table.get?_freshId deps

/-- A request of an administrator; an edit names what it changes. -/
inductive DependencyOp
  | create (question dependsOnQuestion : ℕ) (requiredAnswerValue : Json) (operator : Operator) (now : ℤ)
  | edit (id : ℕ) (question dependsOnQuestion : Option ℕ) (requiredAnswerValue : Option Json)
      (operator : Option Operator)
  | delete (id : ℕ)

/-- The row as an edit leaves it. -/
def QuestionDependency.edited (d : QuestionDependency) (question : Option ℕ) (dependsOnQuestion : ℕ)
    (requiredAnswerValue : Option Json) (operator : Option Operator) : QuestionDependency :=
  { d with
    question := question.getD d.question
    dependsOnQuestion := dependsOnQuestion
    requiredAnswerValue := requiredAnswerValue.getD d.requiredAnswerValue
    operator := operator.getD d.operator }

theorem QuestionDependency.edited_id (question : Option ℕ) (dependsOnQuestion : ℕ) (requiredAnswerValue : Option Json)
    (operator : Option Operator) (d : QuestionDependency) :
    (d.edited question dependsOnQuestion requiredAnswerValue operator).id = d.id := rfl

def applyOp (deps : Dependencies) : DependencyOp → Except DependencyError Dependencies
  | .create question dependsOnQuestion requiredAnswerValue operator now => do
    let _ ← validate deps (some question) (some dependsOnQuestion)
    return deps.insert ⟨freshId deps, now, question, dependsOnQuestion, requiredAnswerValue, operator⟩
      (freshId_unused deps)
  | .edit id question dependsOnQuestion requiredAnswerValue operator =>
    match deps.get? id with
    | none => .error .doesNotExist
    | some _ => do
      let d ← validate deps question dependsOnQuestion
      return deps.update id (·.edited question d requiredAnswerValue operator)
        (QuestionDependency.edited_id question d requiredAnswerValue operator)
  | .delete id =>
    match deps.get? id with
    | none => .error .doesNotExist
    | some _ => .ok (deps.filter (·.id != id))

/-- A request that is refused changes nothing. -/
def step (deps : Dependencies) (op : DependencyOp) : Dependencies :=
  match applyOp deps op with
  | .ok deps' => deps'
  | .error _ => deps

/-! ## The graph -/

/-- From each question to the questions it depends on. -/
def edges (deps : Dependencies) : List (ℕ × ℕ) := deps.rows.map fun d => (d.question, d.dependsOnQuestion)

/-- From each question to the one that `is_circular` goes on to. -/
def firstEdges (deps : Dependencies) : List (ℕ × ℕ) :=
  deps.rows.filterMap fun d => (nextDependency deps d.question).map fun e => (d.question, e.dependsOnQuestion)

abbrev DependsOn (deps : Dependencies) : ℕ → ℕ → Prop := edgeIn (edges deps)

abbrev Follows (deps : Dependencies) : ℕ → ℕ → Prop := edgeIn (firstEdges deps)

/-- The rows without the one that is edited. -/
def others (deps : Dependencies) (id : ℕ) : Dependencies := deps.filter (·.id != id)

/-- The dependency that is asked for would close a cycle. -/
def Closes (deps : Dependencies) : DependencyOp → Prop
  | .create question dependsOnQuestion .. => ¬ Acyclic (addEdge (DependsOn deps) question dependsOnQuestion)
  | .edit id question dependsOnQuestion .. => ∃ d, deps.get? id = some d ∧
      ¬ Acyclic (addEdge (DependsOn (others deps id)) (question.getD d.question)
        (dependsOnQuestion.getD d.dependsOnQuestion))
  | .delete _ => False

/-- The graph has no cycle after the request, and it is refused as circular only if it would close one. -/
def KeepsAcyclic (deps : Dependencies) (op : DependencyOp) : Prop :=
  Acyclic (DependsOn (step deps op)) ∧ (applyOp deps op = .error .circular → Closes deps op)

/-- **Where the walk decides rightly**: a path from the question depended on to the depending one exists, without
the row that is edited, exactly where the first dependencies of the rows as they are stored lead there; an edit
that leaves the depending question out must not close a cycle, and one that leaves out both is always refused. -/
def WalkDecides (deps : Dependencies) : DependencyOp → Prop
  | .create question dependsOnQuestion .. =>
    ReflTransGen (Follows deps) dependsOnQuestion question ↔ ReflTransGen (DependsOn deps) dependsOnQuestion question
  | .edit id question dependsOnQuestion .. => ∀ d ∈ deps.get? id,
      (dependsOnQuestion = none → question ≠ none) ∧ ∀ t ∈ dependsOnQuestion,
        ((∃ q ∈ question, ReflTransGen (Follows deps) t q) ↔
          ReflTransGen (DependsOn (others deps id)) t (question.getD d.question))
  | .delete _ => True

instance (deps : Dependencies) (op : DependencyOp) : Decidable (WalkDecides deps op) := by
  unfold WalkDecides
  split <;> infer_instance

variable {deps : Dependencies} {question dependsOnQuestion : Option ℕ} {q t a b current : ℕ}

/-! ## Where the walk leads -/

theorem first_mem {d : QuestionDependency} : ∀ {l : List QuestionDependency}, first l = some d → d ∈ l
  | [], h => nomatch h
  | e :: l, h => by
    rw [first] at h
    cases hl : first l with
    | none =>
      rw [hl] at h
      obtain rfl := Option.some.inj h
      exact List.mem_cons_self
    | some e' =>
      rw [hl] at h
      simp only at h
      split at h
      · obtain rfl := Option.some.inj h
        exact List.mem_cons_of_mem e (first_mem hl)
      · obtain rfl := Option.some.inj h
        exact List.mem_cons_self

theorem nextDependency_spec {d : QuestionDependency} (h : nextDependency deps current = some d) :
    d ∈ deps.rows ∧ d.question = current := by
  obtain ⟨hd, hq⟩ := List.mem_filter.mp (first_mem h)
  exact ⟨hd, beq_iff_eq.mp hq⟩

theorem follows_iff : Follows deps a b ↔ ∃ d, nextDependency deps a = some d ∧ d.dependsOnQuestion = b := by
  unfold Follows edgeIn firstEdges
  rw [List.mem_filterMap]
  constructor
  · rintro ⟨d, -, hd⟩
    obtain ⟨e, he, heq⟩ := Option.map_eq_some_iff.mp hd
    obtain ⟨rfl, rfl⟩ := Prod.mk.inj heq
    exact ⟨e, he, rfl⟩
  · rintro ⟨e, he, rfl⟩
    obtain ⟨hmem, hq⟩ := nextDependency_spec he
    refine ⟨e, hmem, ?_⟩
    rw [hq, he]
    rfl

theorem dependsOn_iff : DependsOn deps a b ↔ ∃ d ∈ deps.rows, d.question = a ∧ d.dependsOnQuestion = b := by
  unfold DependsOn edgeIn edges
  rw [List.mem_map]
  exact exists_congr fun d => and_congr_right fun _ => Prod.mk_inj

theorem follows_dependsOn (a b : ℕ) (h : Follows deps a b) : DependsOn deps a b := by
  obtain ⟨d, hd, rfl⟩ := follows_iff.mp h
  obtain ⟨hmem, hq⟩ := nextDependency_spec hd
  exact dependsOn_iff.mpr ⟨d, hmem, hq, rfl⟩

/-- The questions passed have each a row of their own, so the walk ends, whatever the graph. -/
theorem walk_ends : ∀ {turns : ℕ} {visited : List ℕ} {current : ℕ}, visited.Nodup →
    (∀ v ∈ visited, v ∈ deps.rows.map (·.question)) → deps.rows.length + 1 ≤ turns + visited.length →
    ∃ b, walk deps question turns visited current = some b
  | 0, visited, current, hnodup, hrows, hturns => by
    have hle : visited.length ≤ (deps.rows.map (·.question)).length :=
      (List.subperm_of_subset hnodup hrows).length_le
    rw [List.length_map] at hle
    omega
  | turns + 1, visited, current, hnodup, hrows, hturns => by
    rw [walk]
    by_cases hvisited : current ∈ visited
    · exact ⟨true, if_pos hvisited⟩
    rw [if_neg hvisited]
    cases hnext : nextDependency deps current with
    | none => exact ⟨false, rfl⟩
    | some d =>
      simp only
      by_cases hq : some d.dependsOnQuestion = question
      · exact ⟨true, if_pos hq⟩
      rw [if_neg hq]
      obtain ⟨hd, hcurrent⟩ := nextDependency_spec hnext
      refine walk_ends (List.nodup_cons.mpr ⟨hvisited, hnodup⟩) ?_ (by rw [List.length_cons]; omega)
      intro v hv
      rcases List.mem_cons.mp hv with rfl | hv
      · exact List.mem_map.mpr ⟨d, hd, hcurrent⟩
      · exact hrows v hv

/-- In an acyclic graph the walk finds the depending question where the first dependencies lead to it. -/
theorem walk_spec (h : Acyclic (Follows deps)) : ∀ {turns : ℕ} {visited : List ℕ} {current : ℕ} {found : Bool},
    (∀ v ∈ visited, TransGen (Follows deps) v current) → walk deps question turns visited current = some found →
    (found = true ↔ ∃ q ∈ question, TransGen (Follows deps) current q)
  | 0, _, _, _, _, hwalk => nomatch hwalk
  | turns + 1, visited, current, found, hback, hwalk => by
    have hvisited : current ∉ visited := fun hmem => h current (hback current hmem)
    rw [walk, if_neg hvisited] at hwalk
    cases hnext : nextDependency deps current with
    | none =>
      rw [hnext] at hwalk
      obtain rfl := Option.some.inj hwalk
      refine ⟨nofun, ?_⟩
      rintro ⟨q, -, hpath⟩
      obtain ⟨b, hfirst, -⟩ := TransGen.head'_iff.mp hpath
      obtain ⟨d, hd, -⟩ := follows_iff.mp hfirst
      rw [hnext] at hd
      exact nomatch hd
    | some d =>
      have hedge : Follows deps current d.dependsOnQuestion := follows_iff.mpr ⟨d, hnext, rfl⟩
      rw [hnext] at hwalk
      simp only at hwalk
      by_cases hq : some d.dependsOnQuestion = question
      · rw [if_pos hq] at hwalk
        obtain rfl := Option.some.inj hwalk
        exact ⟨fun _ => ⟨_, hq.symm, .single hedge⟩, fun _ => rfl⟩
      rw [if_neg hq] at hwalk
      have hback' : ∀ v ∈ current :: visited, TransGen (Follows deps) v d.dependsOnQuestion := by
        intro v hv
        rcases List.mem_cons.mp hv with rfl | hv
        · exact .single hedge
        · exact (hback v hv).tail hedge
      rw [walk_spec h hback' hwalk]
      refine exists_congr fun q => and_congr_right fun hmem => ⟨fun hpath => .head hedge hpath, fun hpath => ?_⟩
      -- Only one edge leaves the current question, and it does not end at the depending one.
      obtain ⟨b, hfirst, hrest⟩ := TransGen.head'_iff.mp hpath
      obtain ⟨e, he, rfl⟩ := follows_iff.mp hfirst
      rw [hnext] at he
      obtain rfl := Option.some.inj he
      rcases reflTransGen_iff_eq_or_transGen.mp hrest with rfl | hrest
      · exact absurd hmem.symm hq
      · exact hrest

/-- `is_circular` in an acyclic graph, a partial edit included. -/
theorem isCircular_iff (h : Acyclic (Follows deps)) :
    isCircular deps question (some t) = true ↔ ∃ q ∈ question, ReflTransGen (Follows deps) t q := by
  unfold isCircular
  by_cases heq : question = some t
  · rw [if_pos heq]
    exact ⟨fun _ => ⟨t, heq, .refl⟩, fun _ => rfl⟩
  obtain ⟨found, hfound⟩ : ∃ found, walk deps question (deps.rows.length + 1) [] t = some found :=
    walk_ends List.nodup_nil (fun v hv => absurd hv List.not_mem_nil) (Nat.le_refl _)
  rw [if_neg heq]
  simp only [hfound, Option.getD_some]
  rw [walk_spec h (fun v hv => absurd hv List.not_mem_nil) hfound]
  refine exists_congr fun q => and_congr_right fun hmem => ?_
  rw [reflTransGen_iff_eq_or_transGen, or_iff_right]
  rintro rfl
  exact heq hmem

theorem validate_some (question : Option ℕ) (t : ℕ) : validate deps question (some t) =
    if isCircular deps question (some t) then .error .circular else .ok t := rfl

/-! ## What a request does to the graph -/

theorem dependsOn_insert {d : QuestionDependency} (hd : deps.get? d.id = none) :
    DependsOn (deps.insert d hd) = addEdge (DependsOn deps) d.question d.dependsOnQuestion := by
  funext a b
  refine propext ?_
  unfold addEdge
  rw [dependsOn_iff, dependsOn_iff]
  constructor
  · rintro ⟨e, he, rfl, rfl⟩
    rcases List.mem_append.mp he with he | he
    · exact Or.inl ⟨e, he, rfl, rfl⟩
    · obtain rfl := List.mem_singleton.mp he
      exact Or.inr ⟨rfl, rfl⟩
  · rintro (⟨e, he, rfl, rfl⟩ | ⟨rfl, rfl⟩)
    · exact ⟨e, List.mem_append_left _ he, rfl, rfl⟩
    · exact ⟨d, List.mem_append_right _ (List.mem_singleton_self d), rfl, rfl⟩

theorem mem_others {id : ℕ} {d : QuestionDependency} : d ∈ (others deps id).rows ↔ d ∈ deps.rows ∧ d.id ≠ id := by
  unfold others Table.filter
  rw [List.mem_filter, bne_iff_ne]

theorem dependsOn_others {id : ℕ} (a b : ℕ) (h : DependsOn (others deps id) a b) : DependsOn deps a b := by
  obtain ⟨d, hd, hedge⟩ := dependsOn_iff.mp h
  exact dependsOn_iff.mpr ⟨d, (mem_others.mp hd).1, hedge⟩

/-- An edit takes one edge away and adds one. -/
theorem dependsOn_update {id : ℕ} {d : QuestionDependency} {f : QuestionDependency → QuestionDependency}
    (hf : ∀ d, (f d).id = d.id) (hd : deps.get? id = some d) :
    DependsOn (deps.update id f hf) = addEdge (DependsOn (others deps id)) (f d).question (f d).dependsOnQuestion := by
  obtain ⟨hmem, hid⟩ := Table.get?_eq_some.mp hd
  funext a b
  refine propext ?_
  unfold addEdge
  rw [dependsOn_iff, dependsOn_iff]
  constructor
  · rintro ⟨e', he', rfl, rfl⟩
    obtain ⟨e, he, rfl⟩ := Table.mem_update.mp he'
    by_cases heid : e.id = id
    · obtain rfl := deps.eq_of_key_eq he hmem (heid.trans hid.symm)
      rw [if_pos heid]
      exact Or.inr ⟨rfl, rfl⟩
    · rw [if_neg heid]
      exact Or.inl ⟨e, mem_others.mpr ⟨he, heid⟩, rfl, rfl⟩
  · rintro (⟨e, he, rfl, rfl⟩ | ⟨rfl, rfl⟩)
    · obtain ⟨he, heid⟩ := mem_others.mp he
      exact ⟨e, Table.mem_update.mpr ⟨e, he, (if_neg heid).symm⟩, rfl, rfl⟩
    · exact ⟨f d, Table.mem_update.mpr ⟨d, hmem, (if_pos hid).symm⟩, rfl, rfl⟩

/-! ## One request -/

/-- A check that refuses `c` and otherwise adds the edge: right on both sides exactly where `c` is a path back. -/
theorem rightly_iff {E : ℕ → ℕ → Prop} {c : Prop} (hE : Acyclic E) :
    ((¬ c → Acyclic (addEdge E q t)) ∧ (c → ¬ Acyclic (addEdge E q t))) ↔ (c ↔ ReflTransGen E t q) := by
  rw [acyclic_addEdge, and_iff_right hE, not_not, not_imp_not]
  exact ⟨fun h => ⟨h.2, h.1⟩, fun h => ⟨h.mpr, h.mp⟩⟩

theorem applyOp_create {requiredAnswerValue : Json} {operator : Operator} {now : ℤ} :
    applyOp deps (.create q t requiredAnswerValue operator now) =
      if isCircular deps (some q) (some t) then .error .circular
      else .ok (deps.insert ⟨freshId deps, now, q, t, requiredAnswerValue, operator⟩ (freshId_unused deps)) := by
  rw [applyOp, validate_some]
  by_cases hc : isCircular deps (some q) (some t) = true
  · rw [if_pos hc, if_pos hc]
    rfl
  · rw [if_neg hc, if_neg hc]
    rfl

theorem applyOp_edit {id : ℕ} {d : QuestionDependency} {requiredAnswerValue : Option Json} {operator : Option Operator}
    (hd : deps.get? id = some d) :
    applyOp deps (.edit id question (some t) requiredAnswerValue operator) =
      if isCircular deps question (some t) then .error .circular
      else .ok (deps.update id (·.edited question t requiredAnswerValue operator)
        (QuestionDependency.edited_id question t requiredAnswerValue operator)) := by
  rw [applyOp, hd]
  simp only
  rw [validate_some]
  by_cases hc : isCircular deps question (some t) = true
  · rw [if_pos hc, if_pos hc]
    rfl
  · rw [if_neg hc, if_neg hc]
    rfl

/-- A request that is refused as circular or else leaves the graph with one more edge. -/
theorem keepsAcyclic_of_adds {op : DependencyOp} {deps' : Dependencies} {E : ℕ → ℕ → Prop} {refused : Bool}
    (h : Acyclic (DependsOn deps)) (hop : applyOp deps op = if refused then .error .circular else .ok deps')
    (hgraph : DependsOn deps' = addEdge E q t) (hcloses : Closes deps op ↔ ¬ Acyclic (addEdge E q t)) :
    KeepsAcyclic deps op ↔
      (¬ refused = true → Acyclic (addEdge E q t)) ∧ (refused = true → ¬ Acyclic (addEdge E q t)) := by
  unfold KeepsAcyclic step
  rw [hcloses, hop]
  cases refused with
  | true =>
    simp only [if_true, not_true_eq_false, false_imp_iff, true_and, true_imp_iff]
    exact and_iff_right h
  | false =>
    simp only [Bool.false_eq_true, if_false, not_false_eq_true, true_imp_iff, false_imp_iff, and_true, hgraph]
    exact and_iff_left nofun

/-- A request that is refused for another reason changes nothing. -/
theorem keepsAcyclic_of_error {op : DependencyOp} {e : DependencyError} (h : Acyclic (DependsOn deps))
    (hop : applyOp deps op = .error e) (he : e ≠ .circular) : KeepsAcyclic deps op := by
  unfold KeepsAcyclic step
  rw [hop]
  refine ⟨h, fun hcircular => ?_⟩
  cases hcircular
  exact absurd rfl he

theorem edit_iff {id : ℕ} {requiredAnswerValue : Option Json} {operator : Option Operator}
    (h : Acyclic (DependsOn deps)) :
    KeepsAcyclic deps (.edit id question dependsOnQuestion requiredAnswerValue operator) ↔
      WalkDecides deps (.edit id question dependsOnQuestion requiredAnswerValue operator) := by
  have hothers : Acyclic (DependsOn (others deps id)) := h.mono dependsOn_others
  rw [WalkDecides]
  cases hd : deps.get? id with
  | none =>
    have hop : applyOp deps (.edit id question dependsOnQuestion requiredAnswerValue operator) =
        .error .doesNotExist := by
      rw [applyOp, hd]
    refine ⟨fun _ d hnone => ?_, fun _ => keepsAcyclic_of_error h hop ?_⟩
    · cases hnone
    · intro he
      cases he
  | some d =>
    simp only [Option.mem_some_iff, forall_eq']
    cases dependsOnQuestion with
    | some t =>
      have hcloses : Closes deps (.edit id question (some t) requiredAnswerValue operator) ↔
          ¬ Acyclic (addEdge (DependsOn (others deps id)) (question.getD d.question) t) := by
        simp only [Closes, hd, Option.some.injEq, exists_eq_left', Option.getD_some]
      rw [keepsAcyclic_of_adds h (applyOp_edit hd) (dependsOn_update _ hd) hcloses, rightly_iff hothers,
        isCircular_iff (h.mono follows_dependsOn)]
      simp [QuestionDependency.edited]
    | none =>
      -- Without a question depended on the serializer only compares it with the depending one.
      cases question with
      | none =>
        have hop : applyOp deps (.edit id none none requiredAnswerValue operator) = .error .circular := by
          rw [applyOp, hd]
          rfl
        refine ⟨fun hkeeps => ?_, fun hne => absurd rfl (hne.1 rfl)⟩
        obtain ⟨d', hd', hcycle⟩ := hkeeps.2 hop
        rw [hd] at hd'
        obtain rfl := Option.some.inj hd'
        obtain ⟨hmem, -⟩ := Table.get?_eq_some.mp hd
        refine absurd (h.mono fun a b hedge => ?_) hcycle
        rcases hedge with hedge | ⟨rfl, rfl⟩
        · exact dependsOn_others a b hedge
        · exact dependsOn_iff.mpr ⟨d, hmem, rfl, rfl⟩
      | some q =>
        have hop : applyOp deps (.edit id (some q) none requiredAnswerValue operator) = .error .attributeError := by
          rw [applyOp, hd]
          rfl
        refine ⟨fun _ => ⟨fun _ => ?_, fun _ hnone => ?_⟩, fun _ => keepsAcyclic_of_error h hop ?_⟩
        · intro he
          cases he
        · cases hnone
        · intro he
          cases he

theorem create_iff {requiredAnswerValue : Json} {operator : Operator} {now : ℤ} (h : Acyclic (DependsOn deps)) :
    KeepsAcyclic deps (.create q t requiredAnswerValue operator now) ↔
      WalkDecides deps (.create q t requiredAnswerValue operator now) := by
  have hcircular : isCircular deps (some q) (some t) = true ↔ _ := isCircular_iff (h.mono follows_dependsOn)
  simp only [Option.mem_some_iff, exists_eq_left'] at hcircular
  rw [keepsAcyclic_of_adds h applyOp_create (dependsOn_insert _) Iff.rfl, rightly_iff h, hcircular]
  rfl

theorem keepsAcyclic_delete {id : ℕ} (h : Acyclic (DependsOn deps)) : KeepsAcyclic deps (.delete id) := by
  cases hd : deps.get? id with
  | none =>
    have hop : applyOp deps (.delete id) = .error .doesNotExist := by
      rw [applyOp, hd]
    exact keepsAcyclic_of_error h hop nofun
  | some d =>
    have hop : applyOp deps (.delete id) = .ok (others deps id) := by
      rw [applyOp, hd]
      rfl
    unfold KeepsAcyclic step
    rw [hop]
    exact ⟨h.mono dependsOn_others, nofun⟩

theorem keepsAcyclic_iff (op : DependencyOp) (h : Acyclic (DependsOn deps)) :
    KeepsAcyclic deps op ↔ WalkDecides deps op := by
  cases op with
  | create q t requiredAnswerValue operator now => exact create_iff h
  | edit id question dependsOnQuestion requiredAnswerValue operator => exact edit_iff h
  | delete id => exact ⟨fun _ => trivial, fun _ => keepsAcyclic_delete h⟩

/-- **Acyclic dependencies**: in a run of requests from an acyclic graph no request closes a cycle or is refused as
circular without closing one, exactly where the walk decides each of them rightly. -/
theorem keepsAcyclic_along_iff (deps : Dependencies) (ops : List DependencyOp) (h : Acyclic (DependsOn deps)) :
    Along step KeepsAcyclic deps ops ↔ Along step WalkDecides deps ops := by
  have hstep : ∀ s op, Acyclic (DependsOn s) → KeepsAcyclic s op → Acyclic (DependsOn (step s op)) :=
    fun _ _ _ hkeeps => hkeeps.1
  exact @along_congr _ _ step (fun s => Acyclic (DependsOn s)) KeepsAcyclic WalkDecides
    (fun _ op hs => keepsAcyclic_iff op hs) hstep ops deps h

theorem acyclic_empty : Acyclic (DependsOn Table.empty) := by
  intro a ha
  obtain ⟨b, hedge, -⟩ := TransGen.head'_iff.mp ha
  obtain ⟨d, hd, -⟩ := dependsOn_iff.mp hedge
  exact absurd hd List.not_mem_nil

/-- A chain built from its end, a cycle refused, an edit that moves the end of an edge and a deletion. -/
def chainRun : List DependencyOp :=
  [.create 1 2 (.bool true) .equals 0, .create 2 3 (.bool true) .equals 1, .create 3 1 (.bool true) .equals 2,
    .edit 1 (some 1) (some 3) none none, .delete 2, .create 3 2 (.bool true) .equals 3]

theorem chain_stays_acyclic : Along step KeepsAcyclic Table.empty chainRun :=
  (keepsAcyclic_along_iff Table.empty chainRun acyclic_empty).mpr (by decide +kernel)

/-- The second dependency of the first question closes a cycle that the walk does not see. -/
def branchRun : List DependencyOp :=
  [.create 1 2 (.bool true) .equals 0, .create 1 3 (.bool true) .equals 1, .create 3 1 (.bool true) .equals 2]

theorem branch_closes_cycle : ¬ ∀ ops : List DependencyOp, Along step KeepsAcyclic Table.empty ops := by
  intro h
  have hlast : KeepsAcyclic (run step Table.empty (branchRun.take 2)) (.create 3 1 (.bool true) .equals 2) :=
    (h branchRun).2.2.1
  refine hlast.1 1 (.tail (.single (b := 3) ?_) ?_)
  · show (1, 3) ∈ edges _
    decide +kernel
  · show (3, 1) ∈ edges _
    decide +kernel

end Waldur.Checklist
