import Mathlib
import Waldur.Lib.Json
import Waldur.Lib.Table

/-!
# Checklist.Models — questions, their dependencies and answers

`checklist/models.py` and the comparison engine of `checklist/utils.py`.  Instants are numbers of
microseconds; a question is named by its primary key.
-/

namespace Waldur.Checklist

open Relational

/-- `OPERATORS`. -/
inductive Operator
  | equals
  | notEquals
  | contains
  | in_
  | notIn
deriving DecidableEq, Repr

/-- `DependencyLogicOperators`. -/
inductive DependencyLogicOperator
  | and
  | or
deriving DecidableEq, Repr

/-- A question, with what completion, visibility and review triggers read of it. -/
structure Question where
  id : ℕ
  checklist : ℕ
  required : Bool := false
  dependencyLogicOperator : DependencyLogicOperator := .and
  alwaysRequiresReview : Bool := false
  reviewAnswerValue : Json := .array []
  operator : Option Operator := some .equals

structure QuestionDependency where
  id : ℕ
  created : ℤ
  question : ℕ
  dependsOnQuestion : ℕ
  requiredAnswerValue : Json := .null
  operator : Operator := .equals

structure Answer where
  id : ℕ
  user : ℕ
  question : ℕ
  answerData : Json
  modified : ℤ
  requiresReview : Bool := false

abbrev Questions := Table ℕ Question Question.id

abbrev Dependencies := Table ℕ QuestionDependency QuestionDependency.id

abbrev Answers := Table ℕ Answer Answer.id

/-- The questions in display order, and the dependencies between them. -/
structure Forms where
  questions : Questions
  dependencies : Dependencies

/-! ## Operators -/

/-- `bool(value)`. -/
def truthy : Json → Bool
  | .null => false
  | .bool b => b
  | .number x => x != 0
  | .string s => s != ""
  | .array items => !items.isEmpty
  | .object fields => !fields.isEmpty

/-- `any([a in required_value for a in user_answer])`, where the required value is a list. -/
def someIn (userAnswer : Json) (required : List Json) : Except Json.TypeError Bool := do
  let items ← userAnswer.iterate
  return items.any fun a => required.any (Json.equals a)

/-- `apply_operator`; the values of a JSON column are never dates. -/
def applyOperator (userAnswer requiredValue : Json) (operator : Operator) : Except Json.TypeError Bool :=
  match userAnswer with
  | .null => .ok false
  | userAnswer =>
    match operator, requiredValue with
    | .equals, required => .ok (Json.equals userAnswer required)
    | .notEquals, required => .ok (!Json.equals userAnswer required)
    | .contains, required => do
      let items ← required.iterate
      Json.anyOf (fun substr => substr.isIn userAnswer) items
    | .in_, .array required => someIn userAnswer required
    | .in_, required => .ok (Json.equals userAnswer required)
    | .notIn, .array required => (someIn userAnswer required).map (!·)
    | .notIn, required => .ok (!Json.equals userAnswer required)

/-- `Question.should_trigger_review`. -/
def Question.shouldTriggerReview (q : Question) (answerData : Json) : Except Json.TypeError Bool :=
  if q.alwaysRequiresReview then .ok true
  else
    match q.operator with
    | some operator => if truthy q.reviewAnswerValue then applyOperator answerData q.reviewAnswerValue operator
        else .ok false
    | none => .ok false

/-! ## Answers -/

/-- `(answer.modified, answer.id) > (current.modified, current.id)`. -/
def Answer.newer (a current : Answer) : Bool :=
  decide (current.modified < a.modified) || a.modified == current.modified && decide (current.id < a.id)

/-- The entry of a question in `latest_answers_by_question`. -/
def latestAnswer (answers : List Answer) (question : ℕ) : Option Answer :=
  (answers.filter (·.question == question)).foldl (fun current a =>
    match current with
    | none => some a
    | some c => if a.newer c then some a else some c) none

/-- The questions with an entry. -/
def answered (answers : List Answer) (question : ℕ) : Bool := (latestAnswer answers question).isSome

/-! ## Visibility -/

variable (forms : Forms)

/-- `question.dependencies.all()`. -/
def dependenciesOf (question : ℕ) : List QuestionDependency :=
  forms.dependencies.rows.filter (·.question == question)

/-- `QuestionDependency.question_is_visible`, of a stored completion. -/
def QuestionDependency.questionIsVisible (d : QuestionDependency) (answers : List Answer) : Except Json.TypeError Bool :=
  match latestAnswer answers d.dependsOnQuestion with
  | none => .ok false
  | some answer => applyOperator answer.answerData d.requiredAnswerValue d.operator

/-- `Question.is_visible_for_completion`: every dependency is evaluated before they are combined. -/
def Question.isVisibleForCompletion (q : Question) (answers : List Answer) : Except Json.TypeError Bool := do
  let results ← (dependenciesOf forms q.id).mapM (·.questionIsVisible answers)
  if results.isEmpty then return true
  match q.dependencyLogicOperator with
  | .or => return results.any (· == true)
  | .and => return results.all (· == true)

/-- `checklist.questions`. -/
def questionsOf (checklist : ℕ) : List Question := forms.questions.rows.filter (·.checklist == checklist)

/-- `Checklist.get_visible_questions`, under the latest answers. -/
def getVisibleQuestions (checklist : ℕ) (answers : List Answer) : Except Json.TypeError (List Question) :=
  (questionsOf forms checklist).filterM (·.isVisibleForCompletion forms answers)

end Waldur.Checklist
