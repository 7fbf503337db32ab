import Mathlib
import Waldur.Checklist.Models
import Waldur.Lib.Runs
import Waldur.Lib.TableCounts

/-!
# Checklist.Completion — when a checklist is complete, and the workflow step that waits for it

`update_completion_status` and `get_unanswered_required_questions` ask for every required question of the
checklist, shown or not, while the form shows the visible ones.  `HiddenAnswered` is the exact condition on the
answers.  An answer is saved or removed on its own, so a run is a list of answers and updates.
-/

namespace Waldur.Checklist

open Relational Runs

/-- A `ChecklistCompletion` with its answers. -/
structure Completion where
  checklist : ℕ
  answers : Answers := Table.empty
  isCompleted : Bool := false
  requiresReview : Bool := false

section

variable (forms : Forms)

/-- `get_latest_answers().values()`. -/
def latestAnswers (answers : List Answer) : List Answer :=
  (answers.map (·.question)).dedup.filterMap (latestAnswer answers)

/-- `checklist.questions.filter(required=True)`. -/
def requiredQuestions (checklist : ℕ) : List Question := (questionsOf forms checklist).filter (·.required)

/-- `update_completion_status`. -/
def updateCompletionStatus (c : Completion) : Completion :=
  let latest := latestAnswers c.answers.rows
  let answeredQuestionIds := latest.map (·.question)
  { c with
    isCompleted := (requiredQuestions forms c.checklist).all fun q => decide (q.id ∈ answeredQuestionIds)
    requiresReview := latest.any (·.requiresReview) }

/-- `get_unanswered_required_questions`. -/
def getUnansweredRequiredQuestions (c : Completion) : List Question :=
  let answeredQuestionIds := c.answers.rows.map (·.question)
  (requiredQuestions forms c.checklist).filter fun q => !decide (q.id ∈ answeredQuestionIds)

/-! ## Answers -/

inductive AnswerError
  | doesNotExist (question : ℕ)
  | notInChecklist (question : ℕ)
  | typeError (error : Json.TypeError)

/-- An item of `submit_answers`, or the update after the last item. -/
inductive AnswerOp
  | submit (user question : ℕ) (answerData : Json) (now : ℤ)
  | update

/-- `AnswerSubmitSerializer.validate`, up to the check of the value by the type of the question. -/
def validateAnswer (c : Completion) (question : ℕ) : Except AnswerError Question :=
  match forms.questions.get? question with
  | none => .error (.doesNotExist question)
  | some q => if q.checklist = c.checklist then .ok q else .error (.notInChecklist question)

/-- A primary key that is not in use. -/
def Completion.freshId (c : Completion) : ℕ := (c.answers.rows.map (·.id)).foldr max 0 + 1

theorem Completion.freshId_unused (c : Completion) : c.answers.get? c.freshId = none := c.answers.get?_freshId

/-- `Answer.objects.update_or_create`, with `Answer.save`. -/
def saveAnswer (c : Completion) (user : ℕ) (q : Question) (answerData : Json) (now : ℤ) :
    Except AnswerError Completion := do
  let requiresReview ← (q.shouldTriggerReview answerData).mapError AnswerError.typeError
  let answers := match c.answers.rows.find? fun a => a.question == q.id && a.user == user with
    | some row => c.answers.update row.id
        (fun a => { a with answerData := answerData, requiresReview := requiresReview, modified := now })
        (fun _ => rfl)
    | none => c.answers.insert ⟨c.freshId, user, q.id, answerData, now, requiresReview⟩ c.freshId_unused
  return updateCompletionStatus forms { c with answers := answers }

def applyAnswer (c : Completion) : AnswerOp → Except AnswerError Completion
  | .submit user question answerData now => do
    let q ← validateAnswer forms c question
    match answerData with
    | .null => return { c with answers := c.answers.filter fun a => !(a.question == q.id && a.user == user) }
    | answerData => saveAnswer forms c user q answerData now
  | .update => .ok (updateCompletionStatus forms c)

/-- An item that fails stores nothing. -/
def answerStep (c : Completion) (op : AnswerOp) : Completion :=
  match applyAnswer forms c op with
  | .ok c' => c'
  | .error _ => c

/-- Whether the operation ends with `update_completion_status`; a removal does not. -/
def AnswerOp.updates : AnswerOp → Bool
  | .submit _ _ .null _ => false
  | _ => true

/-! ## The gate of a workflow step -/

/-- `WorkflowStepOutcomes`. -/
inductive WorkflowStepOutcome
  | eligible
  | ineligible
  | feasible
  | infeasible
  | reviewed
  | approved
  | declined
  | accepted
  | rejected
  | expired
deriving DecidableEq, Repr

/-- What the gates read of a `CallWorkflowStep`. -/
structure CallWorkflowStep where
  checklist : Option ℕ := none
  checklistRequired : Bool := true
  minReviewers : Option ℕ := none
  minScoreThreshold : Option ℚ := none

/-- What the `ValueError` of a gate is about: its numbers. -/
inductive GateError
  | unanswered (count : ℕ)
  | reviewers (submitted required : ℕ)
  | score (average threshold : ℚ)

/-- `Avg("summary_score")`. -/
def averageScore (submitted : List ℕ) : Option ℚ :=
  match submitted with
  | [] => none
  | scores => some ((scores.sum : ℚ) / scores.length)

/-- The checklist gate. -/
def enforceChecklistGate (completionFor : ℕ → Option Completion) (callStep : CallWorkflowStep) :
    Except GateError Unit :=
  match callStep.checklist with
  | none => .ok ()
  | some checklist =>
    if callStep.checklistRequired then
      let unanswered := match completionFor checklist with
        | none => requiredQuestions forms checklist
        | some completion => getUnansweredRequiredQuestions forms completion
      if unanswered.isEmpty then .ok () else .error (.unanswered unanswered.length)
    else .ok ()

/-- The gate of `min_reviewers`, with the scores of the submitted reviews. -/
def enforceMinReviewers (submitted : List ℕ) : Option ℕ → Except GateError Unit
  | none => .ok ()
  | some required =>
    if submitted.length < required then .error (.reviewers submitted.length required) else .ok ()

/-- The gate of `min_score_threshold`. -/
def enforceMinScore (submitted : List ℕ) : Option ℚ → Except GateError Unit
  | none => .ok ()
  | some threshold =>
    match averageScore submitted with
    | none => .error (.score 0 threshold)
    | some average => if average < threshold then .error (.score average threshold) else .ok ()

/-- `_enforce_step_gates`, with the completions and the submitted reviews of the proposal. -/
def enforceStepGates (completionFor : ℕ → Option Completion) (submitted : List ℕ) (outcome : WorkflowStepOutcome) :
    Option CallWorkflowStep → Except GateError Unit
  | none => .ok ()
  | some callStep =>
    if outcome = .declined then .ok ()
    else do
      enforceChecklistGate forms completionFor callStep
      enforceMinReviewers submitted callStep.minReviewers
      enforceMinScore submitted callStep.minScoreThreshold

/-! ## What the form shows -/

/-- Every required question among those has an answer. -/
def RequiredAnswered (answers : List Answer) (questions : List Question) : Prop :=
  ∀ q ∈ questions, q.required = true → answered answers q.id = true

/-- A stored completion is complete, and lets a step pass that requires its checklist, exactly where every required
question that the form shows has an answer. -/
def FollowsVisibility (c : Completion) : Prop :=
  ∀ visible, getVisibleQuestions forms c.checklist c.answers.rows = .ok visible →
    (c.isCompleted = true ↔ RequiredAnswered c.answers.rows visible) ∧
    ∀ (completionFor : ℕ → Option Completion) (submitted : List ℕ) (outcome : WorkflowStepOutcome)
      (callStep : CallWorkflowStep), completionFor c.checklist = some c → callStep.checklist = some c.checklist →
      callStep.checklistRequired = true → outcome ≠ .declined →
      ((∃ count, enforceStepGates forms completionFor submitted outcome (some callStep) = .error (.unanswered count)) ↔
        ¬ RequiredAnswered c.answers.rows visible)

/-- **Where completion follows visibility**: a visible required question lacks an answer, or no hidden one does. -/
def HiddenAnswered (c : Completion) : Prop :=
  ∀ visible, getVisibleQuestions forms c.checklist c.answers.rows = .ok visible →
    RequiredAnswered c.answers.rows visible →
      ∀ q ∈ requiredQuestions forms c.checklist, q ∉ visible → answered c.answers.rows q.id = true

end

variable {forms : Forms} {c c' : Completion} {answers : List Answer} {question : ℕ}

/-! ## The three queries -/

/-- The loop of `latest_answers_by_question` keeps an answer that it has passed. -/
theorem foldl_newer {l : List Answer} : ∀ {current : Option Answer} {a : Answer},
    l.foldl (fun current a => match current with
      | none => some a
      | some c => if a.newer c then some a else some c) current = some a → current = some a ∨ a ∈ l := by
  induction l with
  | nil => exact fun h => Or.inl h
  | cons b l ih =>
    intro current a h
    rcases ih h with hcurrent | hmem
    · cases current with
      | none =>
        obtain rfl := Option.some.inj hcurrent
        exact Or.inr List.mem_cons_self
      | some d =>
        simp only at hcurrent
        split at hcurrent
        · obtain rfl := Option.some.inj hcurrent
          exact Or.inr List.mem_cons_self
        · exact Or.inl hcurrent
    · exact Or.inr (List.mem_cons_of_mem b hmem)

theorem foldl_newer_isSome {l : List Answer} : ∀ {current : Option Answer}, current.isSome = true ∨ l ≠ [] →
    (l.foldl (fun current a => match current with
      | none => some a
      | some c => if a.newer c then some a else some c) current).isSome = true := by
  induction l with
  | nil =>
    intro current h
    exact h.resolve_right fun hne => hne rfl
  | cons b l ih =>
    intro current _
    refine ih (Or.inl ?_)
    cases current with
    | none => rfl
    | some d =>
      simp only
      split <;> rfl

theorem latestAnswer_spec {a : Answer} (h : latestAnswer answers question = some a) :
    a ∈ answers ∧ a.question = question := by
  rcases foldl_newer h with hnone | hmem
  · exact nomatch hnone
  · obtain ⟨ha, hq⟩ := List.mem_filter.mp hmem
    exact ⟨ha, beq_iff_eq.mp hq⟩

theorem answered_iff : answered answers question = true ↔ question ∈ answers.map (·.question) := by
  unfold answered
  constructor
  · intro h
    obtain ⟨a, ha⟩ := Option.isSome_iff_exists.mp h
    obtain ⟨hmem, rfl⟩ := latestAnswer_spec ha
    exact List.mem_map_of_mem hmem
  · intro h
    obtain ⟨a, ha, rfl⟩ := List.mem_map.mp h
    refine foldl_newer_isSome (Or.inr fun hnil => ?_)
    exact List.filter_eq_nil_iff.mp hnil a ha (beq_self_eq_true _)

/-- The questions with a latest answer are those with an answer. -/
theorem mem_latestAnswers : question ∈ (latestAnswers answers).map (·.question) ↔ answered answers question = true := by
  unfold latestAnswers
  rw [List.mem_map]
  constructor
  · rintro ⟨a, ha, rfl⟩
    obtain ⟨q, -, hq⟩ := List.mem_filterMap.mp ha
    obtain ⟨hmem, -⟩ := latestAnswer_spec hq
    exact answered_iff.mpr (List.mem_map_of_mem hmem)
  · intro h
    obtain ⟨a, ha⟩ := Option.isSome_iff_exists.mp h
    refine ⟨a, List.mem_filterMap.mpr ⟨question, ?_, ha⟩, (latestAnswer_spec ha).2⟩
    exact List.mem_dedup.mpr (answered_iff.mp h)

theorem isCompleted_update : (updateCompletionStatus forms c).isCompleted = true ↔
    RequiredAnswered c.answers.rows (questionsOf forms c.checklist) := by
  unfold updateCompletionStatus RequiredAnswered requiredQuestions
  simp only [List.all_eq_true, decide_eq_true_eq, mem_latestAnswers, List.mem_filter]
  exact forall_congr' fun q => and_imp

theorem unanswered_nil_iff : getUnansweredRequiredQuestions forms c = [] ↔
    RequiredAnswered c.answers.rows (questionsOf forms c.checklist) := by
  unfold getUnansweredRequiredQuestions RequiredAnswered requiredQuestions
  simp only [List.filter_eq_nil_iff, List.mem_filter, Bool.not_eq_true', decide_eq_false_iff_not, not_not,
    answered_iff, and_imp]

theorem minReviewers_ne_unanswered {submitted : List ℕ} {required : Option ℕ} {count : ℕ} :
    enforceMinReviewers submitted required ≠ .error (.unanswered count) := by
  unfold enforceMinReviewers
  split
  · exact nofun
  · split <;> exact nofun

theorem minScore_ne_unanswered {submitted : List ℕ} {threshold : Option ℚ} {count : ℕ} :
    enforceMinScore submitted threshold ≠ .error (.unanswered count) := by
  unfold enforceMinScore
  split
  · exact nofun
  · split
    · exact nofun
    · split <;> exact nofun

theorem reviewGates_ne_unanswered {submitted : List ℕ} {callStep : CallWorkflowStep} {count : ℕ} :
    (do enforceMinReviewers submitted callStep.minReviewers
        enforceMinScore submitted callStep.minScoreThreshold) ≠ .error (.unanswered count) := by
  intro h
  cases hmin : enforceMinReviewers submitted callStep.minReviewers with
  | error e =>
    rw [hmin] at h
    obtain rfl := Except.error.inj h
    exact minReviewers_ne_unanswered hmin
  | ok _ =>
    rw [hmin] at h
    exact minScore_ne_unanswered h

/-- The checklist gate of a required checklist stops a step exactly where a required question is unanswered. -/
theorem gate_unanswered_iff {completionFor : ℕ → Option Completion} {submitted : List ℕ} {outcome : WorkflowStepOutcome}
    {callStep : CallWorkflowStep} (hfor : completionFor c.checklist = some c)
    (hchecklist : callStep.checklist = some c.checklist) (hrequired : callStep.checklistRequired = true)
    (houtcome : outcome ≠ .declined) :
    (∃ count, enforceStepGates forms completionFor submitted outcome (some callStep) = .error (.unanswered count)) ↔
      getUnansweredRequiredQuestions forms c ≠ [] := by
  have hgate : enforceChecklistGate forms completionFor callStep =
      if (getUnansweredRequiredQuestions forms c).isEmpty then .ok ()
      else .error (.unanswered (getUnansweredRequiredQuestions forms c).length) := by
    unfold enforceChecklistGate
    simp only [hchecklist, hrequired, if_true, hfor]
  rw [enforceStepGates, if_neg houtcome, hgate]
  by_cases hnil : getUnansweredRequiredQuestions forms c = []
  · rw [if_pos (List.isEmpty_iff.mpr hnil)]
    exact ⟨fun ⟨count, h⟩ => absurd h reviewGates_ne_unanswered, fun h => absurd hnil h⟩
  · rw [if_neg fun h => hnil (List.isEmpty_iff.mp h)]
    exact ⟨fun _ => hnil, fun _ => ⟨_, rfl⟩⟩

/-! ## Completion and visibility -/

/-- All required questions are answered where the visible and the hidden ones are. -/
theorem requiredAnswered_split {visible : List Question}
    (hvisible : getVisibleQuestions forms c.checklist c.answers.rows = .ok visible) :
    RequiredAnswered c.answers.rows (questionsOf forms c.checklist) ↔ RequiredAnswered c.answers.rows visible ∧
      ∀ q ∈ requiredQuestions forms c.checklist, q ∉ visible → answered c.answers.rows q.id = true := by
  constructor
  · intro h
    refine ⟨fun q hq => h q ((mem_filterM hvisible).mp hq).1, fun q hq _ => ?_⟩
    obtain ⟨hmem, hrequired⟩ := List.mem_filter.mp hq
    exact h q hmem hrequired
  · rintro ⟨hshown, hhidden⟩ q hq hrequired
    by_cases hmem : q ∈ visible
    · exact hshown q hmem hrequired
    · exact hhidden q (List.mem_filter.mpr ⟨hq, hrequired⟩) hmem

theorem followsVisibility_update :
    FollowsVisibility forms (updateCompletionStatus forms c) ↔ HiddenAnswered forms (updateCompletionStatus forms c) := by
  have hsame : RequiredAnswered (updateCompletionStatus forms c).answers.rows
      (questionsOf forms (updateCompletionStatus forms c).checklist) ↔
        (updateCompletionStatus forms c).isCompleted = true := isCompleted_update.symm
  constructor
  · intro h visible hvisible hshown
    exact ((requiredAnswered_split hvisible).mp (hsame.mpr ((h visible hvisible).1.mpr hshown))).2
  · intro h visible hvisible
    have hiff : (updateCompletionStatus forms c).isCompleted = true ↔
        RequiredAnswered (updateCompletionStatus forms c).answers.rows visible := by
      rw [← hsame, requiredAnswered_split hvisible]
      exact and_iff_left_of_imp (h visible hvisible)
    refine ⟨hiff, fun completionFor submitted outcome callStep hfor hchecklist hrequired houtcome => ?_⟩
    rw [gate_unanswered_iff hfor hchecklist hrequired houtcome, Ne, unanswered_nil_iff, hsame, hiff]

/-- What stores a new status stores it with `update_completion_status`. -/
theorem applyAnswer_updates {op : AnswerOp} (h : applyAnswer forms c op = .ok c') (hop : op.updates = true) :
    ∃ c₀, c' = updateCompletionStatus forms c₀ := by
  cases op with
  | update => exact ⟨c, (Except.ok.inj h).symm⟩
  | submit user question answerData now =>
    obtain ⟨q, -, hq⟩ := bind_eq_ok.mp h
    have hsave : saveAnswer forms c user q answerData now = .ok c' := by
      cases answerData with
      | null => exact nomatch hop
      | _ => exact hq
    obtain ⟨requiresReview, -, hsaved⟩ := bind_eq_ok.mp hsave
    exact ⟨_, (Except.ok.inj hsaved).symm⟩

/-- **Completion and visibility**: along every sequence of answers, changed answers, removals and updates, each stored
status follows the visible questions exactly where no hidden required question lacks an answer or a visible one does. -/
theorem followsVisibility_along_iff (forms : Forms) (c : Completion) (ops : List AnswerOp) :
    Along (answerStep forms) (fun c op => ∀ c', applyAnswer forms c op = .ok c' → op.updates = true →
        FollowsVisibility forms c') c ops ↔
      Along (answerStep forms) (fun c op => ∀ c', applyAnswer forms c op = .ok c' → op.updates = true →
        HiddenAnswered forms c') c ops := by
  refine @along_congr _ _ (answerStep forms) (fun _ => True) _ _ (fun c op _ => ?_) (fun _ _ _ _ => trivial) ops c trivial
  refine forall_congr' fun c' => forall_congr' fun hop => forall_congr' fun hupdates => ?_
  obtain ⟨c₀, rfl⟩ := applyAnswer_updates hop hupdates
  exact followsVisibility_update

/-- The second question is shown where the first is answered with yes; both are required. -/
def twoQuestions : Forms where
  questions := ⟨[{ id := 1, checklist := 1, required := true }, { id := 2, checklist := 1, required := true }],
    by decide⟩
  dependencies := ⟨[⟨1, 0, 2, 1, .bool true, .equals⟩], by decide⟩

/-- An answer that hides the second question leaves the checklist incomplete. -/
theorem hidden_question_blocks : ¬ ∀ (forms : Forms) (c : Completion) (ops : List AnswerOp),
    Along (answerStep forms) (fun c op => ∀ c', applyAnswer forms c op = .ok c' → op.updates = true →
      FollowsVisibility forms c') c ops := by
  intro h
  have hstep := (h twoQuestions { checklist := 1 } [.submit 7 1 (.bool false) 0]).1 _ rfl rfl
  have hiff := (hstep [{ id := 1, checklist := 1, required := true }] rfl).1
  refine absurd (hiff.mpr fun q hq _ => ?_) (by decide)
  obtain rfl := List.mem_singleton.mp hq
  decide

end Waldur.Checklist
