import Mathlib
import Waldur.Checklist.Models
import Waldur.Lib.PythonValues

/-!
# Checklist.Operators — what the validators admit and what the operators make of it

The validators and `apply_operator` of `checklist/utils.py`, on every value they admit.  The values of a JSON column are
compared as in `Checklist.Models` (`applyOperator_ofJson`).  A text is iterated character by character where a list of
texts is meant, and numbers, dates and instants are compared by their spelling: `Misread` lists what goes wrong, and
nothing else does (`meets_iff`).
-/

namespace Waldur.Checklist.Operators

open Python Calendar
open Json (TypeError)

/-! ## The validators -/

/-- `QuestionTypes`. -/
inductive QuestionType
  | boolean
  | singleSelect
  | multiSelect
  | textInput
  | textArea
  | number
  | date
  | file
  | multipleFiles
  | phoneNumber
  | year
  | email
  | url
  | country
  | rating
  | datetime
  | likert
  | richText
deriving DecidableEq, Repr

/-- A `datetime`, in microseconds: without a time zone it is what the clock shows, with one it is an instant. -/
inductive Moment
  | naive (clock : ℤ)
  | aware (instant : ℤ)
deriving DecidableEq, Repr

/-- `parse_date` and `datetime.fromisoformat`; `none` is a `ValueError`. -/
structure Parsers where
  parseDate : String → Option PyDate
  fromIsoFormat : String → Option Moment

/-- `valid_operators`. -/
def validOperators : Operator → List QuestionType
  | .equals | .notEquals => [.number, .date, .boolean, .file, .year, .phoneNumber, .email, .url, .country, .rating,
      .datetime, .likert]
  | .contains => [.textInput, .textArea, .file, .multipleFiles, .phoneNumber, .email, .url]
  | .in_ | .notIn => [.multiSelect, .singleSelect, .multipleFiles, .country]

/-- `is_valid_operator_for_question_type`. -/
def isValidOperatorForQuestionType (questionType : QuestionType) (operator : Operator) : Bool :=
  (validOperators operator).contains questionType

/-- `isinstance(item, str) and is_uuid_like(item)`. -/
def isUuidText : Value → Bool
  | .string s => (PythonText.readUuid s).isSome
  | _ => false

/-- `_is_valid_trigger_value`: each of its branches is about some question types. -/
def isValidTriggerValue (answerData : Value) (questionType : QuestionType) : Bool :=
  match questionType, answerData with
  | .singleSelect, .list items => items.length == 1 && items.all isUuidText
  | .multiSelect, .list items => items.all isUuidText
  | .date, .date _ => true
  | .number, .bool _ | .number, .int _ | .number, .float _ => true
  | .number, .string s => (floatOfText s).isSome
  -- `True` is an `int`
  | .year, .bool _ | .year, .int _ | .rating, .bool _ | .rating, .int _ => true
  | .year, .string s | .rating, .string s => (intOfText s).isSome
  | .boolean, .bool _ | .boolean, .none => true
  | .file, .dict _ => true
  | .multipleFiles, .list _ => true
  | .likert, .int _ => true
  | .likert, .string s => s == "na" || (intOfText s).isSome
  | .richText, .string _ => true
  | _, _ => false

section Parsed

variable (parsers : Parsers)

/-- `is_valid_condition_value`. -/
def isValidConditionValue (answerData : Value) (questionType : QuestionType) : Bool :=
  match answerData, questionType with
  | .list _, .textInput | .list _, .textArea | .list _, .phoneNumber | .list _, .email | .list _, .url
  | .list _, .country => true
  | .string s, .date => (parsers.parseDate s).isSome
  | .string s, .datetime => (parsers.fromIsoFormat s).isSome
  | .string _, .phoneNumber | .string _, .email | .string _, .url | .string _, .country => true
  | answerData, questionType => isValidTriggerValue answerData questionType

/-- `is_valid_answer`. -/
def isValidAnswer (answerData : Value) (questionType : QuestionType) : Bool :=
  match answerData, questionType with
  | .string _, .textInput | .string _, .textArea | .string _, .phoneNumber | .string _, .email | .string _, .url
  | .string _, .country => true
  | .string s, .date => (parsers.parseDate s).isSome
  | .string s, .datetime => (parsers.fromIsoFormat s).isSome
  | .dict _, .file => true
  | _, .file => false
  | .list _, .multipleFiles => true
  | _, .multipleFiles => false
  | answerData, questionType => isValidTriggerValue answerData questionType

/-! ## The operators -/

/-- A text beside a date is read as one; `none` is what cannot be read. -/
def asDates (userAnswer requiredValue : Value) : Option (Value × Value) :=
  match userAnswer, requiredValue with
  | .date d, .string s => (parsers.parseDate s).map fun e => (.date d, .date e)
  | .string s, .date e => (parsers.parseDate s).map fun d => (.date d, .date e)
  | userAnswer, requiredValue => some (userAnswer, requiredValue)

/-- `any([a in required_value for a in user_answer])`. -/
def someIn (userAnswer : Value) (required : List Value) : Except TypeError Bool := do
  let items ← userAnswer.iterate
  return items.any fun a => required.any a.equals

/-- The operator itself. -/
def compare (userAnswer requiredValue : Value) : Operator → Except TypeError Bool
  | .equals => .ok (userAnswer.equals requiredValue)
  | .notEquals => .ok (!userAnswer.equals requiredValue)
  | .contains => do
    let items ← requiredValue.iterate
    anyOf (fun substr => substr.isIn userAnswer) items
  | .in_ =>
    match requiredValue with
    | .list required => someIn userAnswer required
    | required => .ok (userAnswer.equals required)
  | .notIn =>
    match requiredValue with
    | .list required => (someIn userAnswer required).map (!·)
    | required => .ok (!userAnswer.equals required)

/-- `apply_operator`. -/
def applyOperator (userAnswer requiredValue : Value) (operator : Operator) : Except TypeError Bool :=
  match userAnswer with
  | .none => .ok false
  | userAnswer =>
    match asDates parsers userAnswer requiredValue with
    | none => .ok false
    | some (userAnswer, requiredValue) => compare userAnswer requiredValue operator

end Parsed

/-! ## What the operators are to mean -/

/-- What a value says to a question of a type. -/
inductive Meaning
  | number (x : Number)
  | date (d : PyDate)
  | moment (m : Moment)
  | plain (v : Value)

def Meaning.same : Meaning → Meaning → Bool
  | .number x, .number y => x.equals y
  | .date d, .date e => d.date == e.date
  | .moment m, .moment n => m == n
  | .plain v, .plain w => v.equals w
  | _, _ => false

/-- The number that a text is, and not the float next to it. -/
def numberOfText (s : String) : Option Number :=
  match intOfText s with
  | some n => some (.finite n)
  | none => floatOfText s

/-- What a text says where a number, a date or an instant is asked for. -/
def readText (parsers : Parsers) : QuestionType → String → Option Meaning
  | .number, s => (numberOfText s).map .number
  | .year, s | .rating, s | .likert, s => (intOfText s).map fun n => .number (.finite n)
  | .date, s => (parsers.parseDate s).map .date
  | .datetime, s => (parsers.fromIsoFormat s).map .moment
  | _, _ => none

def meaning (parsers : Parsers) (questionType : QuestionType) : Value → Meaning
  | .string s => (readText parsers questionType s).getD (.plain (.string s))
  | .date d => .date d
  | v =>
    match v.numeric? with
    | some x => .number x
    | none => .plain v

/-- The values of a condition: a list has several, and a file those of its fields. -/
def conditionValues : Value → List Value
  | .list items => items
  | .dict fields => fields.map (·.2)
  | v => [v]

/-- The values of an answer. -/
def answerValues : Value → List Value
  | .list items => items
  | v => [v]

/-- The name of a file. -/
def fileName : Value → Option String
  | .dict fields =>
    match fields.lookup "name" with
    | some (.string s) => some s
    | _ => none
  | _ => none

/-- A text that the name of a file contains. -/
def inName (v file : Value) : Bool :=
  match v, fileName file with
  | .string s, some name => decide (s.toList <:+: name.toList)
  | _, _ => false

/-- A value as a whole occurs in an answer: a text in a text or in the name of a file, a value among several. -/
def occursIn (v answer : Value) : Bool :=
  match v, answer with
  | .string s, .string t => decide (s.toList <:+: t.toList)
  | v, .list items => items.any v.equals || items.any (inName v)
  | v, answer => inName v answer

/-- An answer, or one of its values, is in the set of a condition. -/
def isMember (userAnswer requiredValue : Value) : Bool :=
  let required := match requiredValue with
    | .list items => items
    | v => [v]
  (answerValues userAnswer).any fun a => required.any a.equals

/-- The documented meaning of an operator. -/
def documented (parsers : Parsers) (questionType : QuestionType) (operator : Operator)
    (requiredValue userAnswer : Value) : Bool :=
  match operator with
  | .equals => (meaning parsers questionType userAnswer).same (meaning parsers questionType requiredValue)
  | .notEquals => !(meaning parsers questionType userAnswer).same (meaning parsers questionType requiredValue)
  | .contains => (conditionValues requiredValue).any (occursIn · userAnswer)
  | .in_ => isMember userAnswer requiredValue
  | .notIn => !isMember userAnswer requiredValue

/-- The validators accept an operator, a condition value and an answer together. -/
structure Accepted (parsers : Parsers) (questionType : QuestionType) (operator : Operator)
    (requiredValue userAnswer : Value) : Prop where
  operator : isValidOperatorForQuestionType questionType operator = true
  condition : isValidConditionValue parsers requiredValue questionType = true
  answer : isValidAnswer parsers userAnswer questionType = true
  given : userAnswer ≠ .none

/-- Nothing is raised, and the answer is the documented one. -/
structure Meets (parsers : Parsers) (questionType : QuestionType) (operator : Operator)
    (requiredValue userAnswer : Value) : Prop where
  returns : applyOperator parsers userAnswer requiredValue operator =
    .ok (documented parsers questionType operator requiredValue userAnswer)
  complementary : applyOperator parsers userAnswer requiredValue .notIn =
    (applyOperator parsers userAnswer requiredValue .in_).map (!·)

def Compares (operator : Operator) : Prop := operator = .equals ∨ operator = .notEquals

def Collects (operator : Operator) : Prop := operator = .in_ ∨ operator = .notIn

/-- What the operators get wrong: operators, condition values and answers. -/
inductive Misread (parsers : Parsers) (questionType : QuestionType) : Operator → Value → Value → Prop
  /-- The answer is a text that says the number of the condition. -/
  | answerAsText {operator s v} (ho : Compares operator) (hv : v.numeric?.isSome = true)
      (h : (meaning parsers questionType (.string s)).same (meaning parsers questionType v) = true) :
      Misread parsers questionType operator v (.string s)
  /-- The condition is a text that says the number of the answer. -/
  | conditionAsText {operator s v} (ho : Compares operator) (hv : v.numeric?.isSome = true)
      (h : (meaning parsers questionType v).same (meaning parsers questionType (.string s)) = true) :
      Misread parsers questionType operator (.string s) v
  /-- Two texts spell one number, date or instant in two ways. -/
  | spelling {operator s s'} (ho : Compares operator) (hs : s ≠ s')
      (h : (meaning parsers questionType (.string s)).same (meaning parsers questionType (.string s')) = true) :
      Misread parsers questionType operator (.string s') (.string s)
  /-- A text twice that says `nan`, which is not equal to itself. -/
  | notANumber {operator s} (ho : Compares operator)
      (h : readText parsers questionType s = some (.number .nan)) :
      Misread parsers questionType operator (.string s) (.string s)
  /-- A character of the condition occurs in the answer, and the condition as a whole does not. -/
  | characters {s t} (hc : ∃ c ∈ s.toList, c ∈ t.toList) (h : ¬ s.toList <:+: t.toList) :
      Misread parsers questionType .contains (.string s) (.string t)
  /-- The empty text has no characters. -/
  | emptyText {t} : Misread parsers questionType .contains (.string "") (.string t)
  /-- A condition value that is no text, before one that occurs in the answer. -/
  | notAText {pre v post t} (hpre : ∀ x ∈ pre, occursIn x (.string t) = false) (hv : ∀ s, v ≠ .string s) :
      Misread parsers questionType .contains (.list (pre ++ v :: post)) (.string t)
  /-- Two files have a field of one name, and the name of the file has nothing of the condition. -/
  | sharedField {fields file} (hk : ∃ field ∈ fields, ∃ field' ∈ file, field.1 = field'.1)
      (h : ∀ field ∈ fields, inName field.2 (.dict file) = false) :
      Misread parsers questionType .contains (.dict fields) (.dict file)
  /-- The name of the file has a text of the condition, and no field has a name of the condition's fields. -/
  | otherFields {fields file} (hk : ∀ field ∈ fields, ∀ field' ∈ file, field.1 ≠ field'.1)
      (h : ∃ field ∈ fields, inName field.2 (.dict file) = true) :
      Misread parsers questionType .contains (.dict fields) (.dict file)
  /-- The name of one of several files has a text of the condition, which is not itself in the answer. -/
  | nameOfFile {items files} (hn : ∀ v ∈ items, files.any v.equals = false)
      (h : ∃ v ∈ items, ∃ file ∈ files, inName v file = true) :
      Misread parsers questionType .contains (.list items) (.list files)
  /-- A country is in the list, and none of its characters is. -/
  | wholeCountry {operator s items} (ho : Collects operator) (hs : items.any (Value.equals (.string s)) = true)
      (h : ∀ c ∈ s.toList, items.any (Value.equals (.string (String.singleton c))) = false) :
      Misread parsers questionType operator (.list items) (.string s)
  /-- A country is not in the list, and one of its characters is. -/
  | letterOfCountry {operator s items} (ho : Collects operator) (hs : items.any (Value.equals (.string s)) = false)
      (h : ∃ c ∈ s.toList, items.any (Value.equals (.string (String.singleton c))) = true) :
      Misread parsers questionType operator (.list items) (.string s)

section Comparison

variable {parsers : Parsers} {questionType : QuestionType} {operator : Operator} {a c : Value} {s s' : String}

/-! ## Equality -/

/-- What can go wrong when values are compared. -/
theorem Misread.cases_compares (ho : Compares operator) (h : Misread parsers questionType operator c a) :
    (∃ s, a = .string s ∧ c.numeric?.isSome = true ∧
        (meaning parsers questionType (.string s)).same (meaning parsers questionType c) = true) ∨
      (∃ s, c = .string s ∧ a.numeric?.isSome = true ∧
        (meaning parsers questionType a).same (meaning parsers questionType (.string s)) = true) ∨
      (∃ s s', a = .string s ∧ c = .string s' ∧ s ≠ s' ∧
        (meaning parsers questionType (.string s)).same (meaning parsers questionType (.string s')) = true) ∨
      ∃ s, a = .string s ∧ c = .string s ∧ readText parsers questionType s = some (.number .nan) := by
  cases h with
  | answerAsText _ hv h => exact Or.inl ⟨_, rfl, hv, h⟩
  | conditionAsText _ hv h => exact Or.inr (Or.inl ⟨_, rfl, hv, h⟩)
  | spelling _ hs h => exact Or.inr (Or.inr (Or.inl ⟨_, _, rfl, rfl, hs, h⟩))
  | notANumber _ h => exact Or.inr (Or.inr (Or.inr ⟨_, rfl, rfl, h⟩))
  | wholeCountry ho' | letterOfCountry ho' => rcases ho with rfl | rfl <;> rcases ho' with h | h <;> cases h
  | _ => rcases ho with ho | ho <;> cases ho

theorem same_meaning (ha : ∀ s, a ≠ .string s) (hc : ∀ s, c ≠ .string s) :
    (meaning parsers questionType a).same (meaning parsers questionType c) = a.equals c := by
  cases a <;> cases c <;> simp_all [meaning, Value.numeric?, Meaning.same, Value.equals]

theorem readText_ne_plain (v : Value) : readText parsers questionType s ≠ some (.plain v) := by
  intro h
  cases questionType <;> simp [readText, Option.bind_eq_some_iff] at h

theorem same_text_self :
    (meaning parsers questionType (.string s)).same (meaning parsers questionType (.string s)) = true ↔
      readText parsers questionType s ≠ some (.number .nan) := by
  cases hs : readText parsers questionType s with
  | none => simp [meaning, hs, Meaning.same, Value.equals]
  | some m =>
    cases m with
    | number x => cases x <;> simp [meaning, hs, Meaning.same, Number.equals]
    | date d => simp [meaning, hs, Meaning.same]
    | moment m => simp [meaning, hs, Meaning.same]
    | plain v => exact absurd hs (readText_ne_plain v)

/-- What is neither a text nor a date nor a number says nothing that a text says. -/
theorem isSome_of_same_text (hc : ∀ s, c ≠ .string s) (hd : ∀ d, c ≠ .date d)
    (h : (meaning parsers questionType (.string s)).same (meaning parsers questionType c) = true ∨
      (meaning parsers questionType c).same (meaning parsers questionType (.string s)) = true) :
    c.numeric?.isSome = true := by
  by_contra hnone
  have hplain : meaning parsers questionType c = .plain c := by
    cases c <;> simp_all [meaning, Value.numeric?]
  rw [hplain] at h
  cases hs : readText parsers questionType s with
  | none => cases c <;> simp_all [meaning, Meaning.same, Value.equals, Value.numeric?]
  | some m =>
    cases m with
    | plain v => exact readText_ne_plain v hs
    | _ => simp [meaning, hs, Meaning.same] at h

/-- Two texts. -/
theorem texts_iff (ho : Compares operator) :
    (s == s') = (meaning parsers questionType (.string s)).same (meaning parsers questionType (.string s')) ↔
      ¬ Misread parsers questionType operator (.string s') (.string s) := by
  by_cases hs : s = s'
  · subst hs
    rw [beq_self_eq_true, eq_comm, same_text_self, ne_eq, not_iff_not]
    refine ⟨Misread.notANumber ho, fun h => ?_⟩
    rcases h.cases_compares ho with ⟨_, -, hv, -⟩ | ⟨_, -, hv, -⟩ | ⟨_, _, h, h', hne, -⟩ | ⟨_, h, -, hnan⟩
    · cases hv
    · cases hv
    · cases h
      cases h'
      exact absurd rfl hne
    · cases h
      exact hnan
  · rw [beq_false_of_ne hs, eq_comm, ← Bool.not_eq_true, not_iff_not]
    refine ⟨Misread.spelling ho hs, fun h => ?_⟩
    rcases h.cases_compares ho with ⟨_, -, hv, -⟩ | ⟨_, -, hv, -⟩ | ⟨_, _, h, h', -, hsame⟩ | ⟨_, h, h', -⟩
    · cases hv
    · cases hv
    · cases h
      cases h'
      exact hsame
    · cases h
      cases h'
      exact absurd rfl hs

/-- A text as the answer. -/
theorem answerText_iff (ho : Compares operator) (hc : ∀ s, c ≠ .string s) (hd : ∀ d, c ≠ .date d) :
    (Value.string s).equals c = (meaning parsers questionType (.string s)).same (meaning parsers questionType c) ↔
      ¬ Misread parsers questionType operator c (.string s) := by
  have hfalse : (Value.string s).equals c = false := by
    cases c <;> simp_all [Value.equals, Value.numeric?]
  rw [hfalse, eq_comm, ← Bool.not_eq_true, not_iff_not]
  refine ⟨fun h => Misread.answerAsText ho (isSome_of_same_text hc hd (Or.inl h)) h, fun h => ?_⟩
  rcases h.cases_compares ho with ⟨_, h, -, hsame⟩ | ⟨_, h, -, -⟩ | ⟨_, _, -, h, -, -⟩ | ⟨_, -, h, -⟩
  · cases h
    exact hsame
  all_goals exact absurd h (hc _)

/-- A text as the condition. -/
theorem conditionText_iff (ho : Compares operator) (ha : ∀ s, a ≠ .string s) (hd : ∀ d, a ≠ .date d) :
    a.equals (.string s) = (meaning parsers questionType a).same (meaning parsers questionType (.string s)) ↔
      ¬ Misread parsers questionType operator (.string s) a := by
  have hfalse : a.equals (.string s) = false := by
    cases a <;> simp_all [Value.equals, Value.numeric?]
  rw [hfalse, eq_comm, ← Bool.not_eq_true, not_iff_not]
  refine ⟨fun h => Misread.conditionAsText ho (isSome_of_same_text ha hd (Or.inr h)) h, fun h => ?_⟩
  rcases h.cases_compares ho with ⟨_, h, -, -⟩ | ⟨_, h, -, hsame⟩ | ⟨_, _, h, -, -, -⟩ | ⟨_, h, -, -⟩
  · exact absurd h (ha _)
  · cases h
    exact hsame
  all_goals exact absurd h (ha _)

/-- Values that are no texts are compared as they are. -/
theorem not_misread_values (ho : Compares operator) (ha : ∀ s, a ≠ .string s) (hc : ∀ s, c ≠ .string s) :
    ¬ Misread parsers questionType operator c a := by
  intro h
  rcases h.cases_compares ho with ⟨_, h, -⟩ | ⟨_, h, -⟩ | ⟨_, _, h, -⟩ | ⟨_, h, -⟩
  · exact ha _ h
  · exact hc _ h
  · exact ha _ h
  · exact ha _ h

/-- A text beside a date is read as one. -/
theorem not_misread_date (ho : Compares operator) (h : (∃ d, a = .date d) ∨ ∃ d, c = .date d) :
    ¬ Misread parsers questionType operator c a := by
  intro hm
  rcases hm.cases_compares ho with ⟨_, rfl, hv, -⟩ | ⟨_, rfl, hv, -⟩ | ⟨_, _, rfl, rfl, -⟩ | ⟨_, rfl, rfl, -⟩
  · rcases h with ⟨d, h⟩ | ⟨d, rfl⟩
    · cases h
    · cases hv
  · rcases h with ⟨d, rfl⟩ | ⟨d, h⟩
    · cases hv
    · cases h
  all_goals rcases h with ⟨d, h⟩ | ⟨d, h⟩ <;> cases h

theorem eq_date_of_condition {d : PyDate} (h : isValidConditionValue parsers (.date d) questionType = true) :
    questionType = .date := by
  cases questionType <;> simp [isValidConditionValue, isValidTriggerValue] at h ⊢

theorem eq_date_of_answer {d : PyDate} (h : isValidAnswer parsers (.date d) questionType = true) :
    questionType = .date := by
  cases questionType <;> simp [isValidAnswer, isValidTriggerValue] at h ⊢

theorem asDates_eq_self (h : ¬ ((∃ d, a = .date d) ∧ ∃ s, c = .string s))
    (h' : ¬ ((∃ s, a = .string s) ∧ ∃ d, c = .date d)) : asDates parsers a c = some (a, c) := by
  cases a <;> cases c <;> simp_all [asDates]

/-- Accepted texts beside a date are dates. -/
theorem Accepted.asDates_date (h : Accepted parsers questionType operator c a)
    (hd : (∃ d, a = .date d) ∨ ∃ d, c = .date d) :
    ∃ d e, asDates parsers a c = some (.date d, .date e) ∧ meaning parsers questionType a = .date d ∧
      meaning parsers questionType c = .date e := by
  have htype : questionType = .date := by
    rcases hd with ⟨d, rfl⟩ | ⟨d, rfl⟩
    · exact eq_date_of_answer h.answer
    · exact eq_date_of_condition h.condition
  subst htype
  have hanswer := h.answer
  have hcondition := h.condition
  rcases hd with ⟨d, rfl⟩ | ⟨e, rfl⟩
  · cases c with
    | string s =>
      obtain ⟨e, he⟩ := Option.isSome_iff_exists.mp hcondition
      exact ⟨d, e, by simp [asDates, he], rfl, by simp [meaning, readText, he]⟩
    | date e => exact ⟨d, e, rfl, rfl, rfl⟩
    | _ => cases hcondition
  · cases a with
    | string s =>
      obtain ⟨d, hd⟩ := Option.isSome_iff_exists.mp hanswer
      exact ⟨d, e, by simp [asDates, hd], by simp [meaning, readText, hd], rfl⟩
    | date d => exact ⟨d, e, rfl, rfl, rfl⟩
    | _ => cases hanswer

theorem applyOperator_of_asDates {a' c' : Value} (ha : a ≠ .none) (h : asDates parsers a c = some (a', c')) :
    applyOperator parsers a c operator = compare a' c' operator := by
  cases a <;> simp_all [applyOperator]

/-- The values that are compared in the end. -/
theorem Accepted.equals_iff (h : Accepted parsers questionType operator c a) (ho : Compares operator) :
    ∃ a' c', asDates parsers a c = some (a', c') ∧
      (a'.equals c' = (meaning parsers questionType a).same (meaning parsers questionType c) ↔
        ¬ Misread parsers questionType operator c a) := by
  by_cases hd : (∃ d, a = .date d) ∨ ∃ d, c = .date d
  · obtain ⟨d, e, heq, ha, hc⟩ := h.asDates_date hd
    refine ⟨_, _, heq, iff_of_true ?_ (not_misread_date ho hd)⟩
    rw [ha, hc]
    rfl
  · rw [not_or] at hd
    have hself : asDates parsers a c = some (a, c) :=
      asDates_eq_self (fun h => hd.1 h.1) fun h => hd.2 h.2
    refine ⟨a, c, hself, ?_⟩
    by_cases ha : ∃ s, a = .string s
    · obtain ⟨s, rfl⟩ := ha
      by_cases hc : ∃ s, c = .string s
      · obtain ⟨s', rfl⟩ := hc
        exact texts_iff ho
      · exact answerText_iff ho (fun s hs => hc ⟨s, hs⟩) fun d hd' => hd.2 ⟨d, hd'⟩
    · by_cases hc : ∃ s, c = .string s
      · obtain ⟨s, rfl⟩ := hc
        exact conditionText_iff ho (fun s hs => ha ⟨s, hs⟩) fun d hd' => hd.1 ⟨d, hd'⟩
      · have ha' : ∀ s, a ≠ .string s := fun s hs => ha ⟨s, hs⟩
        have hc' : ∀ s, c ≠ .string s := fun s hs => hc ⟨s, hs⟩
        exact iff_of_true (same_meaning ha' hc').symm (not_misread_values ho ha' hc')

/-- **`equals` and `not_equals`.** -/
theorem Accepted.comparison_iff (h : Accepted parsers questionType operator c a) (ho : Compares operator) :
    applyOperator parsers a c operator = .ok (documented parsers questionType operator c a) ↔
      ¬ Misread parsers questionType operator c a := by
  obtain ⟨a', c', heq, hiff⟩ := h.equals_iff ho
  rw [applyOperator_of_asDates h.given heq, ← hiff]
  rcases ho with rfl | rfl
  · simp only [compare, documented, Except.ok.injEq]
  · simp only [compare, documented, Except.ok.injEq, Bool.not_inj_iff]

end Comparison

section Containment

variable {parsers : Parsers} {questionType : QuestionType} {a c : Value} {s t : String} {items files : List Value}
  {fields file : List (String × Value)}

/-! ## Containment -/

theorem not_compares_contains : ¬ Compares .contains := by
  rintro (h | h) <;> cases h

theorem not_collects_contains : ¬ Collects .contains := by
  rintro (h | h) <;> cases h

theorem contains_texts : compare (.string t) (.string s) .contains =
    .ok (s.toList.any fun c => decide (c ∈ t.toList)) := by
  have hchar : ∀ v ∈ s.toList.map fun c => Value.string (String.singleton c),
      v.isIn (.string t) = .ok (occursIn v (.string t)) := by
    intro v hv
    obtain ⟨c, -, rfl⟩ := List.mem_map.mp hv
    rfl
  rw [compare, Value.iterate]
  refine (anyOf_ok hchar).trans ?_
  simp [List.any_map, Function.comp_def, occursIn, List.singleton_infix_iff]

/-- A text as the condition is taken apart into its characters. -/
theorem contains_texts_iff :
    compare (.string t) (.string s) .contains =
        .ok (documented parsers questionType .contains (.string s) (.string t)) ↔
      ¬ Misread parsers questionType .contains (.string s) (.string t) := by
  have hdoc : documented parsers questionType .contains (.string s) (.string t) = decide (s.toList <:+: t.toList) := by
    simp [documented, conditionValues, occursIn]
  rw [contains_texts, hdoc, Except.ok.injEq]
  constructor
  · rintro heq h
    cases h with
    | characters hc hs =>
      rw [decide_eq_false hs, List.any_eq_false] at heq
      obtain ⟨c, hcs, hct⟩ := hc
      exact heq c hcs (decide_eq_true hct)
    | emptyText => simp at heq
    | answerAsText ho | conditionAsText ho | spelling ho | notANumber ho => exact not_compares_contains ho
  · intro h
    by_cases hs : s.toList <:+: t.toList
    · have hne : s.toList ≠ [] := by
        intro hnil
        have hempty : s = "" := String.toList_eq_nil_iff.mp hnil
        exact h (hempty ▸ Misread.emptyText)
      obtain ⟨c, hc⟩ := List.exists_mem_of_ne_nil _ hne
      rw [decide_eq_true hs, List.any_eq_true]
      exact ⟨c, hc, decide_eq_true (hs.mem hc)⟩
    · rw [decide_eq_false hs, List.any_eq_false]
      intro c hc hct
      exact h (Misread.characters ⟨c, hc, of_decide_eq_true hct⟩ hs)

/-- The items of a list are looked for in a text. -/
theorem contains_list_iff :
    compare (.string t) (.list items) .contains =
        .ok (documented parsers questionType .contains (.list items) (.string t)) ↔
      ¬ Misread parsers questionType .contains (.list items) (.string t) := by
  have hitem : ∀ v : Value, v.isIn (.string t) = .ok (occursIn v (.string t)) ∨
      (∃ e, v.isIn (.string t) = .error e) ∧ occursIn v (.string t) = false := by
    intro v
    cases v with
    | string s => exact Or.inl rfl
    | _ => exact Or.inr ⟨⟨_, rfl⟩, rfl⟩
  refine (anyOf_ok_iff hitem).trans (not_congr ?_)
  constructor
  · rintro ⟨pre, v, post, e, rfl, hpre, hv⟩
    refine Misread.notAText hpre ?_
    rintro s rfl
    cases hv
  · intro h
    cases h with
    | @notAText pre v post t hpre hv =>
      rcases hitem v with hok | ⟨⟨e, he⟩, -⟩
      · cases v with
        | string s => exact absurd rfl (hv s)
        | _ => cases hok
      · exact ⟨pre, v, post, e, rfl, hpre, he⟩
    | answerAsText ho => exact absurd ho not_compares_contains
    | wholeCountry ho | letterOfCountry ho => exact absurd ho not_collects_contains

theorem contains_fields : compare (.dict file) (.dict fields) .contains =
    .ok (fields.any fun field => file.any fun field' => field'.1 == field.1) := by
  have hkey : ∀ v ∈ fields.map fun field => Value.string field.1,
      v.isIn (.dict file) = .ok (match v with | .string k => file.any (·.1 == k) | _ => false) := by
    intro v hv
    obtain ⟨field, -, rfl⟩ := List.mem_map.mp hv
    rfl
  rw [compare, Value.iterate]
  refine (anyOf_ok hkey).trans ?_
  simp [List.any_map, Function.comp_def]

/-- The names of fields are looked for, and not what the fields say. -/
theorem contains_fields_iff :
    compare (.dict file) (.dict fields) .contains =
        .ok (documented parsers questionType .contains (.dict fields) (.dict file)) ↔
      ¬ Misread parsers questionType .contains (.dict fields) (.dict file) := by
  have hoccurs : ∀ v : Value, occursIn v (.dict file) = inName v (.dict file) := by
    intro v
    cases v <;> rfl
  have hdoc : documented parsers questionType .contains (.dict fields) (.dict file) =
      fields.any fun field => inName field.2 (.dict file) := by
    simp only [documented, conditionValues, List.any_map, Function.comp_def, hoccurs]
  rw [contains_fields, hdoc, Except.ok.injEq]
  constructor
  · intro heq h
    cases h with
    | sharedField hk h =>
      obtain ⟨field, hfield, field', hfield', hk⟩ := hk
      have hshared : (fields.any fun field => file.any fun field' => field'.1 == field.1) = true :=
        List.any_eq_true.mpr ⟨field, hfield, List.any_eq_true.mpr ⟨field', hfield', beq_iff_eq.mpr hk.symm⟩⟩
      rw [hshared, eq_comm, List.any_eq_true] at heq
      obtain ⟨field, hfield, hname⟩ := heq
      exact absurd hname (Bool.eq_false_iff.mp (h field hfield))
    | otherFields hk h =>
      rw [← List.any_eq_true, ← heq, List.any_eq_true] at h
      obtain ⟨field, hfield, h⟩ := h
      obtain ⟨field', hfield', h⟩ := List.any_eq_true.mp h
      exact hk field hfield field' hfield' (beq_iff_eq.mp h).symm
  · intro h
    by_cases hname : ∃ field ∈ fields, inName field.2 (.dict file) = true
    · rw [List.any_eq_true.mpr hname, List.any_eq_true]
      by_contra hk
      refine h (Misread.otherFields (fun field hfield field' hfield' heq => hk ⟨field, hfield, ?_⟩) hname)
      exact List.any_eq_true.mpr ⟨field', hfield', beq_iff_eq.mpr heq.symm⟩
    · rw [List.any_eq_false.mpr fun field hfield hn => hname ⟨field, hfield, hn⟩, List.any_eq_false]
      intro field hfield hk
      obtain ⟨field', hfield', hk⟩ := List.any_eq_true.mp hk
      refine h (Misread.sharedField ⟨field, hfield, field', hfield', (beq_iff_eq.mp hk).symm⟩ ?_)
      exact fun field hfield => Bool.eq_false_iff.mpr fun hn => hname ⟨field, hfield, hn⟩

theorem contains_files : compare (.list files) (.list items) .contains =
    .ok (items.any fun v => files.any v.equals) := by
  rw [compare, Value.iterate]
  exact anyOf_ok fun v _ => rfl

/-- Values are looked for among the files, and not in their names. -/
theorem contains_files_iff :
    compare (.list files) (.list items) .contains =
        .ok (documented parsers questionType .contains (.list items) (.list files)) ↔
      ¬ Misread parsers questionType .contains (.list items) (.list files) := by
  have hoccurs : ∀ v : Value, occursIn v (.list files) = (files.any v.equals || files.any (inName v)) := by
    intro v
    cases v <;> rfl
  have hdoc : documented parsers questionType .contains (.list items) (.list files) =
      (items.any (fun v => files.any v.equals) || items.any fun v => files.any (inName v)) := by
    simp only [documented, conditionValues, hoccurs]
    rw [Bool.eq_iff_iff]
    simp only [List.any_eq_true, Bool.or_eq_true, and_or_left, exists_or]
  rw [contains_files, hdoc, Except.ok.injEq]
  constructor
  · intro heq h
    cases h with
    | nameOfFile hn h =>
      have hnone : (items.any fun v => files.any v.equals) = false :=
        List.any_eq_false.mpr fun v hv => Bool.eq_false_iff.mp (hn v hv)
      obtain ⟨v, hv, file, hfile, hname⟩ := h
      rw [hnone, Bool.false_or, eq_comm, List.any_eq_false] at heq
      exact heq v hv (List.any_eq_true.mpr ⟨file, hfile, hname⟩)
  · intro h
    by_cases hn : ∀ v ∈ items, files.any v.equals = false
    · rw [List.any_eq_false.mpr fun v hv => Bool.eq_false_iff.mp (hn v hv), Bool.false_or, eq_comm, List.any_eq_false]
      intro v hv hname
      exact h (Misread.nameOfFile hn ⟨v, hv, List.any_eq_true.mp hname⟩)
    · have hsome : (items.any fun v => files.any v.equals) = true := by
        by_contra hnone
        refine hn fun v hv => ?_
        exact Bool.eq_false_iff.mpr (List.any_eq_false.mp (Bool.eq_false_iff.mpr hnone) v hv)
      rw [hsome, Bool.true_or]

/-- The shapes of what is accepted for `contains`. -/
theorem Accepted.contains_shapes (h : Accepted parsers questionType .contains c a) :
    (∃ s t, c = .string s ∧ a = .string t) ∨ (∃ items t, c = .list items ∧ a = .string t) ∨
      (∃ fields file, c = .dict fields ∧ a = .dict file) ∨ ∃ items files, c = .list items ∧ a = .list files := by
  have htype := h.operator
  have hcondition := h.condition
  have hanswer := h.answer
  simp only [isValidOperatorForQuestionType, validOperators, List.contains_iff_mem, List.mem_cons, List.not_mem_nil,
    or_false] at htype
  rcases htype with rfl | rfl | rfl | rfl | rfl | rfl | rfl <;>
    cases c <;> simp [isValidConditionValue, isValidTriggerValue] at hcondition <;>
    cases a <;> simp [isValidAnswer, isValidTriggerValue] at hanswer <;> simp

/-- **`contains`.** -/
theorem Accepted.containment_iff (h : Accepted parsers questionType .contains c a) :
    applyOperator parsers a c .contains = .ok (documented parsers questionType .contains c a) ↔
      ¬ Misread parsers questionType .contains c a := by
  rcases h.contains_shapes with ⟨s, t, rfl, rfl⟩ | ⟨items, t, rfl, rfl⟩ | ⟨fields, file, rfl, rfl⟩ |
    ⟨items, files, rfl, rfl⟩
  · exact contains_texts_iff
  · exact contains_list_iff
  · exact contains_fields_iff
  · exact contains_files_iff

end Containment

section Membership

variable {parsers : Parsers} {questionType : QuestionType} {operator : Operator} {a c : Value} {s s' : String}
  {items files : List Value}

/-! ## Membership -/

theorem compare_notIn : compare a c .notIn = (compare a c .in_).map (!·) := by
  cases c <;> rfl

/-- The values that are compared are never refused. -/
theorem Accepted.asDates_isSome (h : Accepted parsers questionType operator c a) :
    ∃ a' c', asDates parsers a c = some (a', c') := by
  by_cases hd : (∃ d, a = .date d) ∨ ∃ d, c = .date d
  · obtain ⟨d, e, heq, -⟩ := h.asDates_date hd
    exact ⟨_, _, heq⟩
  · rw [not_or] at hd
    exact ⟨a, c, asDates_eq_self (fun h => hd.1 h.1) fun h => hd.2 h.2⟩

/-- `not_in` is what `in` is not. -/
theorem Accepted.complementary (h : Accepted parsers questionType operator c a) :
    applyOperator parsers a c .notIn = (applyOperator parsers a c .in_).map (!·) := by
  obtain ⟨a', c', heq⟩ := h.asDates_isSome
  rw [applyOperator_of_asDates h.given heq, applyOperator_of_asDates h.given heq, compare_notIn]

theorem in_country : compare (.string s) (.list items) .in_ =
    .ok (s.toList.any fun c => items.any (Value.equals (.string (String.singleton c)))) := by
  simp [compare, someIn, Value.iterate, bind, Except.bind, pure, Except.pure, List.any_map, Function.comp_def]

/-- The characters of a country are looked for in the list. -/
theorem in_country_iff (ho : Collects operator) :
    (s.toList.any fun c => items.any (Value.equals (.string (String.singleton c)))) =
        isMember (.string s) (.list items) ↔
      ¬ Misread parsers questionType operator (.list items) (.string s) := by
  have hmember : isMember (.string s) (.list items) = items.any (Value.equals (.string s)) := by
    simp [isMember, answerValues]
  rw [hmember]
  constructor
  · intro heq h
    cases h with
    | wholeCountry _ hs h =>
      rw [hs, List.any_eq_true] at heq
      obtain ⟨c, hc, hin⟩ := heq
      exact absurd hin (Bool.eq_false_iff.mp (h c hc))
    | letterOfCountry _ hs h =>
      rw [hs, List.any_eq_false] at heq
      obtain ⟨c, hc, hin⟩ := h
      exact heq c hc hin
    | answerAsText _ hv => cases hv
    | notAText => rcases ho with ho | ho <;> cases ho
  · intro h
    cases hs : items.any (Value.equals (.string s)) with
    | true =>
      by_contra hnone
      refine h (Misread.wholeCountry ho hs fun c hc => ?_)
      exact Bool.eq_false_iff.mpr (List.any_eq_false.mp (Bool.eq_false_iff.mpr hnone) c hc)
    | false =>
      rw [List.any_eq_false]
      exact fun c hc hin => h (Misread.letterOfCountry ho hs ⟨c, hc, hin⟩)

/-- The shapes of what is accepted for `in` and `not_in`. -/
theorem Accepted.collects_shapes (h : Accepted parsers questionType operator c a) (ho : Collects operator) :
    (∃ items files, c = .list items ∧ a = .list files) ∨ (∃ items s, c = .list items ∧ a = .string s) ∨
      ∃ s' s, c = .string s' ∧ a = .string s := by
  have htype := h.operator
  have hcondition := h.condition
  have hanswer := h.answer
  rcases ho with rfl | rfl <;>
    simp only [isValidOperatorForQuestionType, validOperators, List.contains_iff_mem, List.mem_cons, List.not_mem_nil,
      or_false] at htype <;>
    rcases htype with rfl | rfl | rfl | rfl <;>
    cases c <;> simp [isValidConditionValue, isValidTriggerValue] at hcondition <;>
    cases a <;> simp [isValidAnswer, isValidTriggerValue] at hanswer <;> simp

/-- **`in` and `not_in`.** -/
theorem Accepted.membership_iff (h : Accepted parsers questionType operator c a) (ho : Collects operator) :
    applyOperator parsers a c operator = .ok (documented parsers questionType operator c a) ↔
      ¬ Misread parsers questionType operator c a := by
  have hin : ∃ b, applyOperator parsers a c .in_ = .ok b ∧
      (b = isMember a c ↔ ¬ Misread parsers questionType operator c a) := by
    rcases h.collects_shapes ho with ⟨items, files, rfl, rfl⟩ | ⟨items, s, rfl, rfl⟩ | ⟨s', s, rfl, rfl⟩
    · refine ⟨_, rfl, iff_of_true rfl ?_⟩
      intro hm
      cases hm
      rcases ho with ho | ho <;> cases ho
    · exact ⟨_, in_country, in_country_iff ho⟩
    · have hmember : isMember (.string s) (.string s') = (Value.string s).equals (.string s') := by
        simp [isMember, answerValues]
      refine ⟨_, rfl, iff_of_true hmember.symm ?_⟩
      intro hm
      cases hm with
      | answerAsText ho' | conditionAsText ho' | spelling ho' | notANumber ho' =>
        rcases ho with rfl | rfl <;> rcases ho' with h | h <;> cases h
      | characters | emptyText => rcases ho with ho | ho <;> cases ho
  obtain ⟨b, hb, hiff⟩ := hin
  rw [← hiff]
  rcases ho with rfl | rfl
  · rw [hb, Except.ok.injEq]
    rfl
  · rw [h.complementary, hb]
    simp only [Except.map, documented, Except.ok.injEq, Bool.not_inj_iff]

end Membership

section Json

/-! ## JSON -/

variable {parsers : Parsers}

theorem someIn_ofJson (a : Json) (items : List Json) :
    someIn (.ofJson a) (items.map Value.ofJson) = Checklist.someIn a items := by
  unfold someIn Checklist.someIn
  rw [Value.iterate_ofJson]
  cases a.iterate with
  | error e => rfl
  | ok xs => simp [bind, Except.bind, pure, Except.pure, Except.map, Value.equals_ofJson, Function.comp_def]

theorem contains_ofJson (a c : Json) : compare (.ofJson a) (.ofJson c) .contains =
    (do let items ← c.iterate; Json.anyOf (fun substr => substr.isIn a) items) := by
  rw [compare, Value.iterate_ofJson]
  cases c.iterate with
  | error e => rfl
  | ok items =>
    refine (anyOf_map Value.ofJson items).trans ?_
    simp only [Value.isIn_ofJson, anyOf_json]
    rfl

theorem compare_in_value {a c : Value} (hc : ∀ items, c ≠ .list items) : compare a c .in_ = .ok (a.equals c) := by
  cases c <;> simp_all [compare]

theorem in_ofJson (a c : Json) : compare (.ofJson a) (.ofJson c) .in_ =
    match c with
    | .array required => Checklist.someIn a required
    | required => .ok (a.equals required) := by
  by_cases hc : ∃ items, c = .array items
  · obtain ⟨items, rfl⟩ := hc
    simp only [Value.ofJson, compare, Value.ofJsonAll_eq_map, someIn_ofJson]
  · have hvalue : ∀ items, Value.ofJson c ≠ .list items := fun items h => hc (Value.array_of_ofJson h)
    rw [compare_in_value hvalue, Value.equals_ofJson]
    cases c <;> simp_all

theorem asDates_ofJson (a c : Json) : asDates parsers (.ofJson a) (.ofJson c) = some (.ofJson a, .ofJson c) := by
  refine asDates_eq_self ?_ ?_
  · rintro ⟨⟨d, h⟩, -⟩
    exact Value.ofJson_ne_date h
  · rintro ⟨-, d, h⟩
    exact Value.ofJson_ne_date h

/-- **The values of a JSON column are compared as in `Checklist.Models`.** -/
theorem applyOperator_ofJson (a c : Json) (operator : Operator) :
    applyOperator parsers (.ofJson a) (.ofJson c) operator = Checklist.applyOperator a c operator := by
  by_cases ha : a = .null
  · subst ha
    simp [Value.ofJson, applyOperator, Checklist.applyOperator]
  · have hgiven : Value.ofJson a ≠ .none := fun h => ha (Value.ofJson_eq_none.mp h)
    rw [applyOperator_of_asDates hgiven (asDates_ofJson a c)]
    have hnotIn : compare (.ofJson a) (.ofJson c) .notIn = (compare (.ofJson a) (.ofJson c) .in_).map (!·) :=
      compare_notIn
    cases operator with
    | equals => cases a <;> simp_all [compare, Checklist.applyOperator, Value.equals_ofJson]
    | notEquals => cases a <;> simp_all [compare, Checklist.applyOperator, Value.equals_ofJson]
    | contains =>
      rw [contains_ofJson]
      cases a <;> simp_all [Checklist.applyOperator]
    | in_ =>
      rw [in_ofJson]
      cases a <;> cases c <;> simp_all [Checklist.applyOperator]
    | notIn =>
      rw [hnotIn, in_ofJson]
      cases a <;> cases c <;> simp_all [Checklist.applyOperator, Except.map]

end Json

/-- **What the operators mean.**  An accepted operator gives the documented answer, and raises nothing, exactly where
nothing is misread. -/
theorem meets_iff {parsers : Parsers} {questionType : QuestionType} {operator : Operator} {c a : Value}
    (h : Accepted parsers questionType operator c a) :
    Meets parsers questionType operator c a ↔ ¬ Misread parsers questionType operator c a := by
  have hreturns : applyOperator parsers a c operator = .ok (documented parsers questionType operator c a) ↔
      ¬ Misread parsers questionType operator c a := by
    cases operator with
    | equals => exact h.comparison_iff (Or.inl rfl)
    | notEquals => exact h.comparison_iff (Or.inr rfl)
    | contains => exact h.containment_iff
    | in_ => exact h.membership_iff (Or.inl rfl)
    | notIn => exact h.membership_iff (Or.inr rfl)
  exact ⟨fun hm => hreturns.mp hm.returns, fun hm => ⟨hreturns.mpr hm, h.complementary⟩⟩

/-! ## The list of countries -/

/-- Readers that read nothing. -/
def noParsers : Parsers where
  parseDate _ := none
  fromIsoFormat _ := none

def euCountries : Value := .list [.string "DE", .string "FR"]

theorem accepted_country : Accepted noParsers .country .in_ euCountries (.string "DE") where
  operator := rfl
  condition := rfl
  answer := rfl
  given := nofun

theorem in_euCountries : applyOperator noParsers (.string "DE") euCountries .in_ = .ok false := by
  decide

theorem country_is_misread : ¬ ∀ (parsers : Parsers) (questionType : QuestionType) (operator : Operator) (c a : Value),
    Accepted parsers questionType operator c a → Meets parsers questionType operator c a := by
  intro h
  have hm := (h _ _ _ _ _ accepted_country).returns
  rw [in_euCountries] at hm
  simp [documented, isMember, answerValues, euCountries, Value.equals] at hm

theorem country_meets_iff : Accepted noParsers .country .in_ euCountries (.string "DE") ∧
    (Meets noParsers .country .in_ euCountries (.string "DE") ↔
      ¬ Misread noParsers .country .in_ euCountries (.string "DE")) :=
  ⟨accepted_country, meets_iff accepted_country⟩

end Waldur.Checklist.Operators
