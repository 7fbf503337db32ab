import Mathlib
import Waldur.Checklist.Dependencies

/-!
# Checklist.Branches — what a hidden question hides

`question_is_visible` reads the stored answer of the question depended on, shown or not.  `Grounded` is the exact
condition on the stored answers under which a hidden question hides its branch.
-/

namespace Waldur.Checklist

open Relational Digraph Relation

section

variable (forms : Forms) (answers : List Answer)

/-- The form shows a question; an error shows none. -/
def shown (question : ℕ) : Bool :=
  forms.questions.rows.any fun q => q.id == question &&
    match q.isVisibleForCompletion forms answers with
    | .ok visible => visible
    | .error _ => false

/-- The answers to the questions that the form shows. -/
def shownAnswers : List Answer := answers.filter fun a => shown forms answers a.question

/-- A way along the dependencies from a question to one without any, past `r`. -/
inductive Avoids (r : ℕ) : ℕ → Prop
  | root {q : ℕ} (hne : q ≠ r) (h : dependenciesOf forms q = []) : Avoids r q
  | step {q : ℕ} {d : QuestionDependency} (hne : q ≠ r) (hd : d ∈ dependenciesOf forms q)
      (h : Avoids r d.dependsOnQuestion) : Avoids r q

/-- A question is shown only where the answers to shown questions satisfy its dependencies, and a hidden question hides
every question that is reachable only through it. -/
structure HiddenBranchesStayHidden : Prop where
  by_shown : ∀ q ∈ forms.questions.rows, q.isVisibleForCompletion forms answers = .ok true →
    q.isVisibleForCompletion forms (shownAnswers forms answers) = .ok true
  only_through : ∀ r q, shown forms answers r = false → ¬ Avoids forms r q → shown forms answers q = false

/-- The stored answers meet the dependencies of a question. -/
def Question.Met (q : Question) : Prop :=
  dependenciesOf forms q.id = [] ∨
    (∀ d ∈ dependenciesOf forms q.id, ∃ b, d.questionIsVisible answers = .ok b) ∧
    match q.dependencyLogicOperator with
    | .and => ∀ d ∈ dependenciesOf forms q.id, d.questionIsVisible answers = .ok true
    | .or => ∃ d ∈ dependenciesOf forms q.id, d.questionIsVisible answers = .ok true

/-- The answer that satisfies a dependency belongs to a question whose own dependencies are met. -/
def QuestionDependency.Grounded (d : QuestionDependency) : Prop :=
  d.questionIsVisible answers = .ok true ∧
    ∃ r ∈ forms.questions.rows, r.id = d.dependsOnQuestion ∧ r.Met forms answers

/-- **Where hidden branches stay hidden**: whenever the stored answers meet the dependencies of a question, they meet
those of every question that it depends on, or under OR of one whose answer satisfies its dependency. -/
def GroundedAnswers : Prop :=
  ∀ q ∈ forms.questions.rows, dependenciesOf forms q.id ≠ [] → q.Met forms answers →
    match q.dependencyLogicOperator with
    | .and => ∀ d ∈ dependenciesOf forms q.id, d.Grounded forms answers
    | .or => ∃ d ∈ dependenciesOf forms q.id, d.Grounded forms answers

end

variable {forms : Forms} {answers : List Answer}

/-! ## One question -/

theorem mapM_eq_ok {α β ε : Type} {f : α → Except ε β} : ∀ {l : List α} {l' : List β},
    l.mapM f = .ok l' ↔ l.map f = l'.map .ok
  | [], l' => by
    rw [List.mapM_nil, List.map_nil]
    constructor
    · intro h
      obtain rfl := Except.ok.inj h
      rfl
    · intro h
      rw [List.map_eq_nil_iff.mp h.symm]
      rfl
  | a :: l, l' => by
    rw [List.mapM_cons, List.map_cons]
    cases hfa : f a with
    | error e =>
      refine iff_of_false (fun h => by cases h) fun h => ?_
      cases l' with
      | nil => cases h
      | cons b l' => cases (List.cons.inj h).1
    | ok b =>
      cases hl : l.mapM f with
      | error e =>
        refine iff_of_false (fun h => by cases h) fun h => ?_
        cases l' with
        | nil => cases h
        | cons b' l' =>
          have hrest := mapM_eq_ok.mpr (List.cons.inj h).2
          rw [hl] at hrest
          cases hrest
      | ok bs =>
        have hbs := mapM_eq_ok.mp hl
        rw [hbs]
        constructor
        · intro h
          obtain rfl := Except.ok.inj h
          rfl
        · intro h
          have heq : b :: bs = l' := List.map_injective_iff.mpr (fun _ _ => Except.ok.inj) h
          rw [← heq]
          rfl

theorem exists_mapM {α β ε : Type} {f : α → Except ε β} {l : List α} (h : ∀ a ∈ l, ∃ b, f a = .ok b) :
    ∃ bs, l.mapM f = .ok bs := by
  induction l with
  | nil => exact ⟨[], rfl⟩
  | cons a l ih =>
    obtain ⟨b, hb⟩ := h a List.mem_cons_self
    obtain ⟨bs, hbs⟩ := ih fun a' ha' => h a' (List.mem_cons_of_mem a ha')
    refine ⟨b :: bs, ?_⟩
    rw [List.mapM_cons, hb, hbs]
    rfl

/-- The code shows a question exactly where the stored answers meet its dependencies. -/
theorem isVisible_iff {q : Question} :
    q.isVisibleForCompletion forms answers = .ok true ↔ q.Met forms answers := by
  unfold Question.isVisibleForCompletion Question.Met
  cases hresults : (dependenciesOf forms q.id).mapM (·.questionIsVisible answers) with
  | error e =>
    refine iff_of_false (fun h => by cases h) fun h => ?_
    rcases h with hnil | ⟨hok, -⟩
    · rw [hnil] at hresults
      cases hresults
    · obtain ⟨bs, hbs⟩ := exists_mapM hok
      rw [hbs] at hresults
      cases hresults
  | ok bs =>
    have hbs := mapM_eq_ok.mp hresults
    have hok : ∀ d ∈ dependenciesOf forms q.id, ∃ b, d.questionIsVisible answers = .ok b := by
      intro d hd
      have hmem : d.questionIsVisible answers ∈ bs.map .ok := hbs ▸ List.mem_map_of_mem hd
      obtain ⟨b, -, hb⟩ := List.mem_map.mp hmem
      exact ⟨b, hb.symm⟩
    have hmem : ∀ b, b ∈ bs ↔ ∃ d ∈ dependenciesOf forms q.id, d.questionIsVisible answers = .ok b := by
      intro b
      have hinj : Function.Injective (Except.ok (ε := Json.TypeError) (α := Bool)) := fun _ _ h => Except.ok.inj h
      rw [← List.mem_map_of_injective hinj, ← hbs, List.mem_map]
    by_cases hnil : bs = []
    · have hdeps : dependenciesOf forms q.id = [] := by
        rw [hnil, List.map_nil] at hbs
        exact List.map_eq_nil_iff.mp hbs
      rw [hnil]
      exact iff_of_true rfl (Or.inl hdeps)
    · have hdeps : dependenciesOf forms q.id ≠ [] := by
        intro hdeps
        rw [hdeps, List.map_nil] at hbs
        exact hnil (List.map_eq_nil_iff.mp hbs.symm)
      rw [or_iff_right hdeps, and_iff_right hok]
      show (if bs.isEmpty then pure true else _) = Except.ok true ↔ _
      rw [if_neg (by simpa using hnil)]
      cases q.dependencyLogicOperator with
      | and =>
        show Except.ok (bs.all (· == true)) = Except.ok true ↔ _
        rw [Except.ok.injEq, List.all_eq_true]
        constructor
        · intro hall d hd
          obtain ⟨b, hb⟩ := hok d hd
          have htrue := hall b ((hmem b).mpr ⟨d, hd, hb⟩)
          rw [hb, beq_iff_eq.mp htrue]
        · intro hall b hb
          obtain ⟨d, hd, hdb⟩ := (hmem b).mp hb
          rw [hall d hd] at hdb
          exact beq_iff_eq.mpr (Except.ok.inj hdb).symm
      | or =>
        show Except.ok (bs.any (· == true)) = Except.ok true ↔ _
        rw [Except.ok.injEq, List.any_eq_true, ← hmem true]
        constructor
        · rintro ⟨b, hb, htrue⟩
          exact beq_iff_eq.mp htrue ▸ hb
        · intro hb
          exact ⟨true, hb, rfl⟩

theorem shown_iff {question : ℕ} : shown forms answers question = true ↔
    ∃ q ∈ forms.questions.rows, q.id = question ∧ q.Met forms answers := by
  unfold shown
  rw [List.any_eq_true]
  refine exists_congr fun q => and_congr_right fun _ => ?_
  rw [Bool.and_eq_true, beq_iff_eq, ← isVisible_iff]
  refine and_congr_right fun _ => ?_
  cases q.isVisibleForCompletion forms answers with
  | error e => exact iff_of_false Bool.false_ne_true fun h => by cases h
  | ok visible => exact Except.ok.injEq _ _ ▸ Iff.rfl

/-! ## Answers to shown questions -/

theorem filter_newest {l : List Answer} {question : ℕ} {p : ℕ → Bool} :
    latestAnswer (l.filter fun a => p a.question) question =
      if p question = true then latestAnswer l question else none := by
  unfold latestAnswer
  rw [List.filter_filter]
  split_ifs with hp
  · refine congrArg _ (List.filter_congr fun a _ => ?_)
    by_cases hq : a.question = question
    · rw [hq, hp, Bool.and_true]
    · rw [beq_eq_false_iff_ne.mpr hq, Bool.false_and]
  · have hnil : (l.filter fun a => (a.question == question) && p a.question) = [] := by
      refine List.filter_eq_nil_iff.mpr fun a _ h => ?_
      obtain ⟨hq, hpa⟩ := Bool.and_eq_true_iff.mp h
      exact hp (beq_iff_eq.mp hq ▸ hpa)
    rw [hnil]
    rfl

/-- Under the answers to shown questions, a dependency on a hidden question is not satisfied. -/
theorem questionIsVisible_shown (d : QuestionDependency) : d.questionIsVisible (shownAnswers forms answers) =
    if shown forms answers d.dependsOnQuestion = true then d.questionIsVisible answers else .ok false := by
  unfold QuestionDependency.questionIsVisible shownAnswers
  rw [filter_newest]
  split_ifs <;> rfl

theorem grounded_iff {d : QuestionDependency} : d.Grounded forms answers ↔
    d.questionIsVisible (shownAnswers forms answers) = .ok true := by
  unfold QuestionDependency.Grounded
  rw [← shown_iff, questionIsVisible_shown]
  split_ifs with hshown
  · exact and_iff_left hshown
  · refine iff_of_false (fun h => hshown h.2) fun h => ?_
    cases h

/-- What the answers to shown questions say of a question whose dependencies the stored answers meet. -/
theorem met_shown {q : Question} (hmet : q.Met forms answers) (hdeps : dependenciesOf forms q.id ≠ []) :
    q.Met forms (shownAnswers forms answers) ↔
      match q.dependencyLogicOperator with
      | .and => ∀ d ∈ dependenciesOf forms q.id, d.Grounded forms answers
      | .or => ∃ d ∈ dependenciesOf forms q.id, d.Grounded forms answers := by
  obtain ⟨hok, -⟩ := hmet.resolve_left hdeps
  have hok' : ∀ d ∈ dependenciesOf forms q.id, ∃ b, d.questionIsVisible (shownAnswers forms answers) = .ok b := by
    intro d hd
    rw [questionIsVisible_shown]
    split_ifs
    · exact hok d hd
    · exact ⟨false, rfl⟩
  unfold Question.Met
  rw [or_iff_right hdeps, and_iff_right hok']
  simp only [grounded_iff]

/-- The answers to shown questions keep every shown question exactly where the stored answers are grounded. -/
theorem by_shown_iff : (∀ q ∈ forms.questions.rows, q.isVisibleForCompletion forms answers = .ok true →
      q.isVisibleForCompletion forms (shownAnswers forms answers) = .ok true) ↔ GroundedAnswers forms answers := by
  unfold GroundedAnswers
  refine forall_congr' fun q => forall_congr' fun _ => ?_
  rw [isVisible_iff, isVisible_iff]
  constructor
  · exact fun h hdeps hmet => (met_shown hmet hdeps).mp (h hmet)
  · intro h hmet
    by_cases hdeps : dependenciesOf forms q.id = []
    · exact Or.inl hdeps
    · exact (met_shown hmet hdeps).mpr (h hdeps hmet)

/-! ## Branches -/

/-- A question is shown together with a way to a question without dependencies, all of it shown. -/
theorem avoids_of_shown (hacyclic : Acyclic (DependsOn forms.dependencies)) (h : GroundedAnswers forms answers)
    {r : ℕ} (hr : shown forms answers r = false) : ∀ q, shown forms answers q = true → Avoids forms r q := by
  have hwf : WellFounded fun b a => DependsOn forms.dependencies a b :=
    @Acyclic.wellFounded _ _ ((edges forms.dependencies).map Prod.snd).toFinset hacyclic fun a b hab =>
      List.mem_toFinset.mpr (List.mem_map_of_mem hab)
  intro q
  induction q using hwf.induction with
  | _ q ih =>
    intro hq
    have hne : q ≠ r := by
      rintro rfl
      rw [hq] at hr
      cases hr
    obtain ⟨row, hrow, rfl, hmet⟩ := shown_iff.mp hq
    by_cases hdeps : dependenciesOf forms row.id = []
    · exact .root hne hdeps
    · have hsome : ∃ d ∈ dependenciesOf forms row.id, d.Grounded forms answers := by
        have hgrounded := h row hrow hdeps hmet
        cases hlogic : row.dependencyLogicOperator with
        | and =>
          rw [hlogic] at hgrounded
          obtain ⟨d, hd⟩ := List.exists_mem_of_ne_nil _ hdeps
          exact ⟨d, hd, hgrounded d hd⟩
        | or =>
          rw [hlogic] at hgrounded
          exact hgrounded
      obtain ⟨d, hd, -, hshown⟩ := hsome
      obtain ⟨hmem, hquestion⟩ := List.mem_filter.mp hd
      have hedge : DependsOn forms.dependencies row.id d.dependsOnQuestion :=
        dependsOn_iff.mpr ⟨d, hmem, beq_iff_eq.mp hquestion, rfl⟩
      exact .step hne hd (ih _ hedge (shown_iff.mpr hshown))

/-- **Hidden branches**: over acyclic dependencies a question is shown only by the answers to shown questions, and a
hidden question hides what is reachable only through it, exactly where the stored answers are grounded. -/
theorem hiddenBranches_iff (forms : Forms) (answers : List Answer) (h : Acyclic (DependsOn forms.dependencies)) :
    HiddenBranchesStayHidden forms answers ↔ GroundedAnswers forms answers := by
  constructor
  · exact fun hhidden => by_shown_iff.mp hhidden.by_shown
  · intro hgrounded
    refine ⟨by_shown_iff.mpr hgrounded, fun r q hr havoids => ?_⟩
    rw [← Bool.not_eq_true]
    exact fun hq => havoids (avoids_of_shown h hgrounded hr q hq)

/-- Three questions, each shown by `true` as the answer to the one before it. -/
def chainForms : Forms where
  questions := ⟨[⟨1, 1, false, .and, false, .null, none⟩, ⟨2, 1, false, .and, false, .null, none⟩,
    ⟨3, 1, false, .and, false, .null, none⟩], by decide⟩
  dependencies := ⟨[⟨1, 0, 2, 1, .bool true, .equals⟩, ⟨2, 0, 3, 2, .bool true, .equals⟩], by decide⟩

theorem acyclic_chainForms : Acyclic (DependsOn chainForms.dependencies) := by
  have hdown : ∀ a b, TransGen (DependsOn chainForms.dependencies) a b → b < a := by
    intro a b hab
    have hedge : ∀ a b, DependsOn chainForms.dependencies a b → b < a := by
      intro a b hedge
      have hmem : (a, b) ∈ [(2, 1), (3, 2)] := hedge
      simp only [List.mem_cons, Prod.mk.injEq, List.not_mem_nil, or_false] at hmem
      omega
    induction hab with
    | single hedge' => exact hedge _ _ hedge'
    | tail _ hedge' ih => exact (hedge _ _ hedge').trans ih
  exact fun a ha => lt_irrefl a (hdown a a ha)

/-- Both branches are answered, and shown. -/
theorem chain_branches : HiddenBranchesStayHidden chainForms
    [⟨1, 1, 1, .bool true, 0, false⟩, ⟨2, 1, 2, .bool true, 1, false⟩] :=
  (hiddenBranches_iff chainForms _ acyclic_chainForms).mpr (by_shown_iff.mp fun q hq h => by
    have hrows : q ∈ chainForms.questions.rows := hq
    simp only [chainForms, List.mem_cons, List.not_mem_nil, or_false] at hrows
    rcases hrows with rfl | rfl | rfl <;> rfl)

/-- The first answer hides the second question, whose stale answer still shows the third. -/
theorem stale_answer_shows : ¬ ∀ (forms : Forms) (answers : List Answer), Acyclic (DependsOn forms.dependencies) →
    HiddenBranchesStayHidden forms answers := by
  intro h
  have hkept := (h chainForms [⟨1, 1, 1, .bool false, 1, false⟩, ⟨2, 1, 2, .bool true, 0, false⟩]
    acyclic_chainForms).by_shown ⟨3, 1, false, .and, false, .null, none⟩ (by simp [chainForms]) rfl
  cases hkept

end Waldur.Checklist
