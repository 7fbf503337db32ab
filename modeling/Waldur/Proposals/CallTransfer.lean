import Mathlib
import Waldur.Lib.TableUpserts
import Waldur.Proposals.Workflow

/-!
# Proposals.CallTransfer — the workflow of a call on another portal

The steps of a call are written to a document, and read from it into a new call, whose catalog steps and default
notification rules the document replaces.  A workflow is read back as it was written exactly if its enabled steps
have what they depend on, no catalog step was deleted, and each checklist is one of the other portal
(`import_export_iff`); the workflow made of any accepted document goes on to every portal that has its checklists
(`accepted_export_iff`).  A duplicate keeps the default rules of the new call, whatever the rules were, and no criteria
(`duplicate_export_iff`).
-/

namespace Waldur.Proposals

open Relational

/-! ## The catalog -/

/-- `ResponsibleRoles`. -/
inductive ResponsibleRole
  | callManager
  | offeringManager
  | reviewer
  | panelMember
  | applicant
deriving DecidableEq

/-- `default_responsible_role`. -/
def WorkflowStep.defaultResponsibleRole : WorkflowStep → ResponsibleRole
  | .administrativeCheck => .callManager
  | .technicalAssessment => .offeringManager
  | .expertReview => .reviewer
  | .panelReview => .panelMember
  | .allocationDecision => .callManager
  | .awardResponse => .applicant

/-- `dependencies`. -/
def WorkflowStep.dependencies : WorkflowStep → List WorkflowStep
  | .panelReview => [.expertReview]
  | _ => []

/-- `is_mandatory`. -/
def WorkflowStep.isMandatory : WorkflowStep → Bool
  | .allocationDecision => true
  | _ => false

namespace CallTransfer

/-! ## The rows -/

/-- `AllocationTimes`. -/
inductive AllocationTime
  | onDecision
  | fixedDate
deriving DecidableEq

/-- `NotificationRuleTriggers`. -/
inductive Trigger
  | stepStarted
  | stepCompleted
  | stepRejected
  | stepExpired
  | deadlineApproaching
deriving DecidableEq

/-- `NotificationRuleRecipients`. -/
inductive Recipient
  | applicant
  | responsibleRole
  | assignedReviewers
  | callManagers
  | allPoolReviewers
  | panelChair
deriving DecidableEq

def Trigger.text : Trigger → String
  | .stepStarted => "step_started"
  | .stepCompleted => "step_completed"
  | .stepRejected => "step_rejected"
  | .stepExpired => "step_expired"
  | .deadlineApproaching => "deadline_approaching"

def Recipient.text : Recipient → String
  | .applicant => "applicant"
  | .responsibleRole => "responsible_role"
  | .assignedReviewers => "assigned_reviewers"
  | .callManagers => "call_managers"
  | .allPoolReviewers => "all_pool_reviewers"
  | .panelChair => "panel_chair"

/-- `CallWorkflowStepNotificationRule`. -/
structure NotificationRule where
  trigger : Trigger
  recipient : Recipient
  daysBefore : Option ℕ := none
  isEnabled : Bool := true
deriving DecidableEq

def NotificationRule.key (rule : NotificationRule) : Trigger × Recipient := (rule.trigger, rule.recipient)

/-- `WorkflowCriterion`. -/
structure WorkflowCriterion where
  name : String
  order : ℕ := 0
deriving DecidableEq

/-- The rules of a step, one for each event and audience. -/
abbrev Rules := Table (Trigger × Recipient) NotificationRule NotificationRule.key

/-- The criteria of a step, by their names. -/
abbrev Criteria := Table String WorkflowCriterion WorkflowCriterion.name

/-- A checklist of a portal. -/
structure Checklist where
  id : ℕ
  name : String
  checklistType : String
deriving DecidableEq

/-- The plain columns of a `CallWorkflowStep`, but for the step; a score is in hundredths. -/
structure Columns where
  isEnabled : Bool := true
  durationInDays : Option ℕ := none
  checklistRequired : Bool := true
  blindReview : Bool := false
  requiresCoiConfirmation : Bool := false
  minReviewers : Option ℕ := none
  minScoreThreshold : Option ℤ := none
  applicantVisible : Bool := false
  responsibleRole : Option ResponsibleRole := none
  transitionMode : TransitionMode := .automaticOnCompletion
  includeAwardResponse : Bool := false
  allocationTime : AllocationTime := .onDecision
  displayOrder : Option ℕ := none
deriving DecidableEq

/-- `CallWorkflowStep`, with its rules and its criteria. -/
structure CallWorkflowStep where
  step : WorkflowStep
  columns : Columns
  checklist : Option Checklist := none
  rules : Rules := Table.empty
  criteria : Criteria := Table.empty

/-- The workflow of a call: its steps in the order of their ids, each in it once. -/
abbrev Workflow := Table WorkflowStep CallWorkflowStep CallWorkflowStep.step

/-- `CallWorkflowStep.save`: the role of the catalog where there is none. -/
def Columns.saved (columns : Columns) (step : WorkflowStep) : Columns :=
  { columns with responsibleRole := columns.responsibleRole.orElse fun _ => some step.defaultResponsibleRole }

/-- `clean` of a step: what it misses. -/
inductive StepError
  | mandatory
  | requires (dependency : WorkflowStep)

/-- `CallWorkflowStep.clean`. -/
def clean (workflow : Workflow) (row : CallWorkflowStep) : Option StepError :=
  if row.columns.isEnabled then
    (row.step.dependencies.find? fun dependency => !workflow.rows.any fun other =>
      other.columns.isEnabled && decide (other.step ≠ row.step) && decide (other.step = dependency)).map .requires
  else if row.step.isMandatory then some .mandatory
  else none

/-! ## A new call -/

/-- `DEFAULT_NOTIFICATION_RULES`, of every step and then of one. -/
def defaultNotificationRules (step : WorkflowStep) : List NotificationRule :=
  [{ trigger := .deadlineApproaching, recipient := .responsibleRole, daysBefore := some 1 },
    { trigger := .deadlineApproaching, recipient := .callManagers, daysBefore := some 1 },
    { trigger := .stepExpired, recipient := .responsibleRole },
    { trigger := .stepExpired, recipient := .callManagers }] ++
  match step with
  | .panelReview =>
    [{ trigger := .deadlineApproaching, recipient := .panelChair, daysBefore := some 1 },
      { trigger := .stepExpired, recipient := .panelChair }]
  | .awardResponse =>
    [{ trigger := .stepStarted, recipient := .applicant },
      { trigger := .deadlineApproaching, recipient := .applicant, daysBefore := some 1 }]
  | _ => []

/-- `seed_notification_rules`. -/
def seedNotificationRules (step : WorkflowStep) : Rules :=
  ⟨defaultNotificationRules step, by cases step <;> decide⟩

/-- The steps of the catalog that a new call has. -/
def seededSteps : List WorkflowStep := workflowSteps.filter (· ≠ .awardResponse)

def seededRow (step : WorkflowStep) : CallWorkflowStep where
  step := step
  columns := Columns.saved { isEnabled := step.defaultResponsibleRole = .callManager } step
  rules := seedNotificationRules step

/-- `seed_workflow_steps`. -/
def seedWorkflowSteps : Workflow := ⟨seededSteps.map seededRow, by decide⟩

/-! ## The document -/

/-- `_checklist_ref`. -/
structure ChecklistRef where
  name : String
  checklistType : String
deriving DecidableEq

def Checklist.ref (checklist : Checklist) : ChecklistRef := ⟨checklist.name, checklist.checklistType⟩

/-- An entry of `workflow_steps`. -/
structure StepEntry where
  step : WorkflowStep
  columns : Columns
  checklist : Option ChecklistRef
  notificationRules : List NotificationRule
  criteria : List WorkflowCriterion
deriving DecidableEq

/-- `order_by("trigger", "recipient", "id")`. -/
def ruleLe (rule rule' : NotificationRule) : Bool :=
  toLex (rule.trigger.text, rule.recipient.text) ≤ toLex (rule'.trigger.text, rule'.recipient.text)

/-- `order_by("order", "name", "id")`. -/
def criterionLe (criterion criterion' : WorkflowCriterion) : Bool :=
  toLex (criterion.order, criterion.name) ≤ toLex (criterion'.order, criterion'.name)

/-- `order_by("display_order", "id")`, with the steps that have none at the end. -/
def stepLe (row row' : CallWorkflowStep) : Bool :=
  match row.columns.displayOrder, row'.columns.displayOrder with
  | some n, some n' => n ≤ n'
  | some _, none => true
  | none, some _ => false
  | none, none => true

def exportStep (row : CallWorkflowStep) : StepEntry where
  step := row.step
  columns := row.columns
  checklist := row.checklist.map Checklist.ref
  notificationRules := (row.rules.sorted ruleLe).rows
  criteria := (row.criteria.sorted criterionLe).rows

/-- The section `workflow_steps` of `export_call`. -/
def exportSteps (workflow : Workflow) : List StepEntry := (workflow.rows.mergeSort stepLe).map exportStep

/-! ## The import -/

/-- A text that a reference has to have. -/
inductive FieldError
  | nameRequired
  | typeRequired

inductive RuleError
  | daysBeforeRequired
  | daysBeforeOnlyForDeadlines

inductive CriterionError
  | nameBlank
  | nameTooLong

/-- What the import of the steps raises, with the place in the document. -/
inductive ImportError
  | checklist (index : ℕ) (error : FieldError)
  | rule (index : ℕ) (error : ℕ × RowError RuleError)
  | criterion (index : ℕ) (error : ℕ × RowError CriterionError)
  | step (index : ℕ) (error : StepError)

/-- A checklist that is left out. -/
inductive Warning
  | notFound (name : String)
  | matchesMoreThanOne (name : String)

/-- `_checklist` and `_unique`. -/
def findChecklist (portal : List Checklist) : Option ChecklistRef → Except FieldError (Option Checklist × List Warning)
  | none => .ok (none, [])
  | some ref =>
    if ref.name = "" then .error .nameRequired
    else if ref.checklistType = "" then .error .typeRequired
    else
      match portal.filter (·.ref = ref) with
      | [] => .ok (none, [.notFound ref.name])
      | [checklist] => .ok (some checklist, [])
      | _ :: _ :: _ => .ok (none, [.matchesMoreThanOne ref.name])

/-- `CallWorkflowStepNotificationRule.clean`. -/
def NotificationRule.clean (rule : NotificationRule) : Option RuleError :=
  if rule.trigger = .deadlineApproaching then
    if rule.daysBefore = none then some .daysBeforeRequired else none
  else if rule.daysBefore ≠ none then some .daysBeforeOnlyForDeadlines
  else none

/-- `clean_fields` of a criterion. -/
def WorkflowCriterion.clean (criterion : WorkflowCriterion) : Option CriterionError :=
  if criterion.name = "" then some .nameBlank
  else if 255 < criterion.name.length then some .nameTooLong
  else none

/-- One entry of the document, as a row. -/
def importStep (portal : List Checklist) (index : ℕ) (entry : StepEntry) :
    Except ImportError (CallWorkflowStep × List Warning) :=
  match findChecklist portal entry.checklist with
  | .error error => .error (.checklist index error)
  | .ok (checklist, warnings) =>
    match Table.insertAll NotificationRule.clean 0 Table.empty entry.notificationRules with
    | .error error => .error (.rule index error)
    | .ok rules =>
      match Table.insertAll WorkflowCriterion.clean 0 Table.empty entry.criteria with
      | .error error => .error (.criterion index error)
      | .ok criteria => .ok (⟨entry.step, entry.columns.saved entry.step, checklist, rules, criteria⟩, warnings)

/-- The entries one after the other, each over the row of its step. -/
def importEntries (portal : List Checklist) : ℕ → Workflow → List StepEntry →
    Except ImportError (Workflow × List CallWorkflowStep × List Warning)
  | _, workflow, [] => .ok (workflow, [], [])
  | index, workflow, entry :: entries =>
    match importStep portal index entry with
    | .error error => .error error
    | .ok (row, warnings) =>
      match importEntries portal (index + 1) (workflow.upsert row) entries with
      | .error error => .error error
      | .ok (workflow', rows, warnings') => .ok (workflow', row :: rows, warnings ++ warnings')

/-- The first row that is not clean when all are in place. -/
def firstUnclean (workflow : Workflow) : ℕ → List CallWorkflowStep → Option ImportError
  | _, [] => none
  | index, row :: rows =>
    match clean workflow row with
    | some error => some (.step index error)
    | none => firstUnclean workflow (index + 1) rows

/-- `_import_workflow_steps`, into a new call. -/
def importWorkflowSteps (portal : List Checklist) (entries : List StepEntry) :
    Except ImportError (Workflow × List Warning) :=
  match importEntries portal 0 seedWorkflowSteps entries with
  | .error error => .error error
  | .ok (workflow, rows, warnings) =>
    match firstUnclean workflow 0 rows with
    | some error => .error error
    | none => .ok (workflow, warnings)

/-- The columns of a step as `update_or_create` writes them, over the row of the new call or into a bare one. -/
def duplicateStep (workflow : Workflow) (row : CallWorkflowStep) : Workflow :=
  workflow.upsert
    { step := row.step
      columns := row.columns.saved row.step
      checklist := row.checklist
      rules := (workflow.get? row.step).elim Table.empty CallWorkflowStep.rules
      criteria := (workflow.get? row.step).elim Table.empty CallWorkflowStep.criteria }

/-- The steps of `duplicate_call`. -/
def duplicateSteps (source : Workflow) : Workflow := source.rows.foldl duplicateStep seedWorkflowSteps


/-! ## Orders -/

section Orders

theorem ruleLe_trans (a b c : NotificationRule) (h : ruleLe a b = true) (h' : ruleLe b c = true) : ruleLe a c = true :=
  decide_eq_true ((of_decide_eq_true h).trans (of_decide_eq_true h'))

theorem ruleLe_total (a b : NotificationRule) : (ruleLe a b || ruleLe b a) = true := by
  rw [Bool.or_eq_true]
  exact (le_total _ _).imp decide_eq_true decide_eq_true

theorem criterionLe_trans (a b c : WorkflowCriterion) (h : criterionLe a b = true) (h' : criterionLe b c = true) :
    criterionLe a c = true := decide_eq_true ((of_decide_eq_true h).trans (of_decide_eq_true h'))

theorem criterionLe_total (a b : WorkflowCriterion) : (criterionLe a b || criterionLe b a) = true := by
  rw [Bool.or_eq_true]
  exact (le_total _ _).imp decide_eq_true decide_eq_true

theorem Trigger.text_injective : Function.Injective Trigger.text := by
  intro a b h
  cases a <;> cases b <;> first | rfl | exact absurd h (by decide)

theorem Recipient.text_injective : Function.Injective Recipient.text := by
  intro a b h
  cases a <;> cases b <;> first | rfl | exact absurd h (by decide)

/-- The order of the rules is that of their keys. -/
theorem key_eq_of_ruleLe {a b : NotificationRule} (h : ruleLe a b = true) (h' : ruleLe b a = true) : a.key = b.key := by
  have heq := toLex.injective (le_antisymm (of_decide_eq_true h) (of_decide_eq_true h'))
  exact Prod.ext (Trigger.text_injective (Prod.ext_iff.mp heq).1) (Recipient.text_injective (Prod.ext_iff.mp heq).2)

/-- **Rules are written alike** exactly if they are the same. -/
theorem sorted_rules_eq_iff {rules rules' : Rules} :
    (rules.sorted ruleLe).rows = (rules'.sorted ruleLe).rows ↔ rules.rows.Perm rules'.rows := by
  constructor
  · intro h
    have hperm := (List.mergeSort_perm rules.rows ruleLe).symm
    rw [show rules.rows.mergeSort ruleLe = rules'.rows.mergeSort ruleLe from h] at hperm
    exact hperm.trans (List.mergeSort_perm rules'.rows ruleLe)
  · intro h
    refine List.Perm.eq_of_pairwise (fun a b ha hb hab hba => ?_)
      (List.pairwise_mergeSort ruleLe_trans ruleLe_total _) (List.pairwise_mergeSort ruleLe_trans ruleLe_total _) ?_
    · have hmem : b ∈ rules.rows := h.mem_iff.mpr (List.mem_mergeSort.mp hb)
      exact rules.eq_of_key_eq (List.mem_mergeSort.mp ha) hmem (key_eq_of_ruleLe hab hba)
    · exact (List.mergeSort_perm _ _).trans (h.trans (List.mergeSort_perm _ _).symm)

end Orders

/-! ## What arrives -/

/-- What the database and the checks of the models keep. -/
structure Stored (row : CallWorkflowStep) : Prop where
  role : row.columns.responsibleRole ≠ none
  rules : ∀ rule ∈ row.rules.rows, rule.clean = none
  criteria : ∀ criterion ∈ row.criteria.rows, criterion.clean = none
  checklist : ∀ checklist ∈ row.checklist, checklist.name ≠ "" ∧ checklist.checklistType ≠ ""

/-- A checklist is one of the other portal: there is one that has its name and its type. -/
def Portable (portal : List Checklist) (checklist : Option Checklist) : Prop :=
  ∀ c ∈ checklist, ∃ c', portal.filter (·.ref = c.ref) = [c']

def found (portal : List Checklist) : Option Checklist → Option Checklist
  | none => none
  | some c =>
    match portal.filter (·.ref = c.ref) with
    | [c'] => some c'
    | _ => none

/-- The row that is imported for one that was exported. -/
def arrived (portal : List Checklist) (row : CallWorkflowStep) : CallWorkflowStep where
  step := row.step
  columns := row.columns
  checklist := found portal row.checklist
  rules := row.rules.sorted ruleLe
  criteria := row.criteria.sorted criterionLe

section Arrived

variable {portal : List Checklist} {row : CallWorkflowStep} {source : Workflow}

theorem findChecklist_ref (portal : List Checklist) {checklist : Option Checklist}
    (h : ∀ c ∈ checklist, c.name ≠ "" ∧ c.checklistType ≠ "") :
    ∃ warnings, findChecklist portal (checklist.map Checklist.ref) = .ok (found portal checklist, warnings) := by
  cases checklist with
  | none => exact ⟨[], rfl⟩
  | some c =>
    obtain ⟨hname, htype⟩ := h c rfl
    unfold findChecklist found
    dsimp only [Option.map_some]
    rw [if_neg (show c.ref.name ≠ "" from hname), if_neg (show c.ref.checklistType ≠ "" from htype)]
    rcases hfilter : portal.filter (·.ref = c.ref) with _ | ⟨c', _ | ⟨c'', rest⟩⟩
    · rw [hfilter]
      exact ⟨_, rfl⟩
    · rw [hfilter]
      exact ⟨_, rfl⟩
    · rw [hfilter]
      exact ⟨_, rfl⟩

/-- A checklist is written alike exactly if it was found. -/
theorem ref_found_iff {checklist : Option Checklist} :
    (found portal checklist).map Checklist.ref = checklist.map Checklist.ref ↔ Portable portal checklist := by
  cases checklist with
  | none => exact ⟨fun _ c hc => absurd hc (Option.not_mem_none c), fun _ => rfl⟩
  | some c =>
    unfold found
    constructor
    · intro h c' hc'
      obtain rfl := Option.mem_some_iff.mp hc'
      dsimp only at h
      rcases hfilter : portal.filter (·.ref = c.ref) with _ | ⟨c', _ | ⟨c'', rest⟩⟩
      · rw [hfilter] at h
        exact absurd h nofun
      · exact ⟨c', hfilter⟩
      · rw [hfilter] at h
        exact absurd h nofun
    · intro h
      obtain ⟨c', hc'⟩ := h c rfl
      have hmem : c' ∈ portal.filter (·.ref = c.ref) := hc' ▸ List.mem_cons_self
      dsimp only
      rw [hc']
      exact congrArg some (of_decide_eq_true (List.mem_filter.mp hmem).2)

theorem saved_of_role {columns : Columns} (h : columns.responsibleRole ≠ none) (step : WorkflowStep) :
    columns.saved step = columns := by
  obtain ⟨role, hrole⟩ := Option.ne_none_iff_exists'.mp h
  unfold Columns.saved
  rw [hrole, Option.orElse_some, ← hrole]

theorem insertAll_rules (h : Stored row) :
    Table.insertAll NotificationRule.clean 0 Table.empty (row.rules.sorted ruleLe).rows =
      .ok (row.rules.sorted ruleLe) :=
  Table.insertAll_eq_ok 0 Table.empty (fun rule hrule => h.rules rule (List.mem_mergeSort.mp hrule))
    (row.rules.sorted ruleLe).nodup

theorem insertAll_criteria (h : Stored row) :
    Table.insertAll WorkflowCriterion.clean 0 Table.empty (row.criteria.sorted criterionLe).rows =
      .ok (row.criteria.sorted criterionLe) :=
  Table.insertAll_eq_ok 0 Table.empty
    (fun criterion hcriterion => h.criteria criterion (List.mem_mergeSort.mp hcriterion))
    (row.criteria.sorted criterionLe).nodup

/-- **An entry is read back**, but for its checklist. -/
theorem importStep_exportStep (portal : List Checklist) (h : Stored row) (index : ℕ) :
    ∃ warnings, importStep portal index (exportStep row) = .ok (arrived portal row, warnings) := by
  obtain ⟨warnings, hfind⟩ := findChecklist_ref portal h.checklist
  refine ⟨warnings, ?_⟩
  unfold importStep exportStep
  dsimp only
  rw [hfind, insertAll_rules h, insertAll_criteria h, saved_of_role h.role]
  rfl

/-- The same entry is written for what arrives exactly if the checklist is there. -/
theorem exportStep_arrived_iff : exportStep (arrived portal row) = exportStep row ↔ Portable portal row.checklist := by
  rw [← ref_found_iff]
  have hrules := Table.sorted_sorted ruleLe_trans ruleLe_total row.rules
  have hcriteria := Table.sorted_sorted criterionLe_trans criterionLe_total row.criteria
  unfold exportStep arrived
  dsimp only
  rw [hrules, hcriteria, StepEntry.mk.injEq]
  exact ⟨fun hentry => hentry.2.2.1, fun hchecklist => ⟨rfl, rfl, hchecklist, rfl, rfl⟩⟩

/-- The workflow of the new call. -/
def imported (portal : List Checklist) (source : Workflow) : Workflow :=
  (source.sorted stepLe).rows.foldl (fun workflow row => workflow.upsert (arrived portal row)) seedWorkflowSteps

theorem importEntries_eq (portal : List Checklist) : ∀ (index : ℕ) (workflow : Workflow) {rows : List CallWorkflowStep},
    (∀ row ∈ rows, Stored row) → ∃ warnings, importEntries portal index workflow (rows.map exportStep) =
      .ok (rows.foldl (fun workflow row => workflow.upsert (arrived portal row)) workflow, rows.map (arrived portal),
        warnings)
  | _, _, [], _ => ⟨[], rfl⟩
  | index, workflow, row :: rows, h => by
    obtain ⟨hrow, hrows⟩ := List.forall_mem_cons.mp h
    obtain ⟨warnings, hstep⟩ := importStep_exportStep portal hrow index
    obtain ⟨warnings', hrest⟩ := importEntries_eq portal (index + 1) (workflow.upsert (arrived portal row)) hrows
    refine ⟨warnings ++ warnings', ?_⟩
    rw [List.map_cons, importEntries, hstep]
    dsimp only
    rw [hrest]
    rfl

theorem firstUnclean_eq_none_iff {workflow : Workflow} : ∀ (index : ℕ) {rows : List CallWorkflowStep},
    firstUnclean workflow index rows = none ↔ ∀ row ∈ rows, clean workflow row = none
  | _, [] => ⟨fun _ _ h => absurd h List.not_mem_nil, fun _ => rfl⟩
  | index, row :: rows => by
    rw [List.forall_mem_cons, ← firstUnclean_eq_none_iff (index + 1), firstUnclean]
    cases clean workflow row with
    | none => exact ⟨fun h => ⟨rfl, h⟩, fun h => h.2⟩
    | some error => exact ⟨nofun, fun h => absurd h.1 nofun⟩

/-- What is written last for a step stays. -/
theorem get?_foldl_upsert {f : Workflow → CallWorkflowStep → CallWorkflowStep}
    (hf : ∀ workflow row, (f workflow row).step = row.step) {rows : List CallWorkflowStep}
    (hnodup : (rows.map CallWorkflowStep.step).Nodup) (workflow : Workflow)
    (hlocal : ∀ workflow workflow' : Workflow, ∀ row, workflow.get? row.step = workflow'.get? row.step →
      f workflow row = f workflow' row) (row : CallWorkflowStep) (hrow : row ∈ rows) :
    (rows.foldl (fun workflow row => workflow.upsert (f workflow row)) workflow).get? row.step =
      some (f workflow row) := by
  have hother : ∀ (t : Workflow) (b : CallWorkflowStep) (k : WorkflowStep), k ≠ b.step →
      (t.upsert (f t b)).get? k = t.get? k := fun t b k hk => t.get?_upsert_ne (by rwa [hf])
  obtain ⟨t, ht, hfold⟩ := Table.get?_foldl_mem hother (t := workflow) hnodup hrow
  have hself := t.get?_upsert_self (f t row)
  rw [hf] at hself
  rw [hfold, hself, hlocal t workflow row ht]

end Arrived

/-! ## The round trip -/

section RoundTrip

variable {portal : List Checklist} {row : CallWorkflowStep} {source workflow : Workflow} {step : WorkflowStep}

/-- A step of the call is the one that arrived, any other one that of a new call. -/
theorem get?_imported (portal : List Checklist) (source : Workflow) (step : WorkflowStep) :
    (imported portal source).get? step =
      ((source.get? step).map (arrived portal)).or (seedWorkflowSteps.get? step) := by
  have hsource := source.get?_sorted stepLe step
  cases hget : source.get? step with
  | none =>
    rw [hget] at hsource
    have hother : ∀ (t : Workflow) (b : CallWorkflowStep) (k : WorkflowStep), k ≠ b.step →
        (t.upsert (arrived portal b)).get? k = t.get? k := fun t b k hk => t.get?_upsert_ne hk
    rw [Option.map_none, Option.none_or]
    exact Table.get?_foldl_ne hother (Table.get?_eq_none.mp hsource)
  | some row =>
    rw [hget] at hsource
    obtain ⟨hrow, rfl⟩ := Table.get?_eq_some.mp hsource
    rw [Option.map_some, Option.some_or]
    exact get?_foldl_upsert (f := fun _ row => arrived portal row) (fun _ _ => rfl) (source.sorted stepLe).nodup
      seedWorkflowSteps (fun _ _ _ _ => rfl) row hrow

/-- What `clean` asks of a step. -/
theorem clean_eq_none_iff : clean workflow row = none ↔
    (row.columns.isEnabled = true → ∀ dependency ∈ row.step.dependencies,
      dependency ≠ row.step ∧ ∃ other, workflow.get? dependency = some other ∧ other.columns.isEnabled = true) ∧
    (row.columns.isEnabled = false → row.step.isMandatory = false) := by
  have hfound (dependency : WorkflowStep) : (workflow.rows.any fun other =>
      other.columns.isEnabled && decide (other.step ≠ row.step) && decide (other.step = dependency)) = true ↔
        dependency ≠ row.step ∧ ∃ other, workflow.get? dependency = some other ∧ other.columns.isEnabled = true := by
    rw [List.any_eq_true]
    constructor
    · rintro ⟨other, hother, h⟩
      rw [Bool.and_eq_true, Bool.and_eq_true, decide_eq_true_iff, decide_eq_true_iff] at h
      obtain ⟨⟨henabled, hne⟩, rfl⟩ := h
      exact ⟨hne, other, workflow.get?_of_mem hother, henabled⟩
    · rintro ⟨hne, other, hget, henabled⟩
      obtain ⟨hother, rfl⟩ := Table.get?_eq_some.mp hget
      refine ⟨other, hother, ?_⟩
      rw [Bool.and_eq_true, Bool.and_eq_true, decide_eq_true_iff, decide_eq_true_iff]
      exact ⟨⟨henabled, hne⟩, rfl⟩
  unfold clean
  cases row.columns.isEnabled with
  | true =>
    rw [if_pos rfl, Option.map_eq_none_iff, List.find?_eq_none]
    simp only [Bool.not_eq_true, Bool.not_eq_false', hfound, true_implies]
    exact ⟨fun h => ⟨h, nofun⟩, fun h => h.1⟩
  | false =>
    rw [if_neg Bool.false_ne_true]
    cases row.step.isMandatory with
    | true => exact ⟨nofun, fun h => absurd (h.2 rfl) nofun⟩
    | false => exact ⟨fun _ => ⟨nofun, fun _ => rfl⟩, fun _ => rfl⟩

/-- No step depends on one that a new call has enabled. -/
theorem seeded_of_dependency {dependency : WorkflowStep} (h : dependency ∈ step.dependencies) {row : CallWorkflowStep}
    (hrow : seedWorkflowSteps.get? dependency = some row) : row.columns.isEnabled = false := by
  have hdependency : dependency = .expertReview := by
    cases step
    case panelReview => exact List.mem_singleton.mp h
    all_goals exact absurd h List.not_mem_nil
  obtain ⟨hmem, hstep⟩ := Table.get?_eq_some.mp hrow
  obtain ⟨seeded, -, rfl⟩ := List.mem_map.mp hmem
  obtain rfl : seeded = .expertReview := hstep.trans hdependency
  rfl

/-- A step is as clean in the new call as it was. -/
theorem clean_imported_iff (row : CallWorkflowStep) :
    clean (imported portal source) (arrived portal row) = none ↔ clean source row = none := by
  have hsame : ∀ dependency ∈ row.step.dependencies,
      (∃ other, (imported portal source).get? dependency = some other ∧ other.columns.isEnabled = true) ↔
        ∃ other, source.get? dependency = some other ∧ other.columns.isEnabled = true := by
    intro dependency hdependency
    rw [get?_imported]
    cases hget : source.get? dependency with
    | none =>
      rw [Option.map_none, Option.none_or]
      refine ⟨fun ⟨other, hother, henabled⟩ => ?_, fun ⟨_, hother, _⟩ => absurd hother nofun⟩
      rw [seeded_of_dependency hdependency hother] at henabled
      exact absurd henabled Bool.false_ne_true
    | some other =>
      rw [Option.map_some, Option.some_or]
      constructor
      · rintro ⟨_, hother, henabled⟩
        obtain rfl := Option.some.inj hother
        exact ⟨other, rfl, henabled⟩
      · rintro ⟨_, hother, henabled⟩
        obtain rfl := Option.some.inj hother
        exact ⟨arrived portal other, rfl, henabled⟩
  rw [clean_eq_none_iff, clean_eq_none_iff]
  refine and_congr_left' (imp_congr_right fun _ => forall₂_congr fun dependency hdependency => ?_)
  exact and_congr_right' (hsame dependency hdependency)

theorem seedWorkflowSteps_get? :
    seedWorkflowSteps.get? step = if step = .awardResponse then none else some (seededRow step) := by
  cases step <;> rfl

/-- Workflows are written alike exactly if each step is. -/
theorem exportSteps_perm_iff {workflow' : Workflow} : (exportSteps workflow).Perm (exportSteps workflow') ↔
    ∀ step, (workflow.get? step).map exportStep = (workflow'.get? step).map exportStep := by
  have hget : ∀ step, ((workflow.sorted stepLe).get? step).map exportStep =
      ((workflow'.sorted stepLe).get? step).map exportStep ↔
        (workflow.get? step).map exportStep = (workflow'.get? step).map exportStep := by
    intro step
    rw [Table.get?_sorted, Table.get?_sorted]
  exact (Table.perm_map_iff StepEntry.step fun _ => rfl).trans (forall_congr' hget)

/-- **Over a new call**, a workflow is written alike exactly if its rows are and it has every step of a new call. -/
theorem merged_perm_iff {f : CallWorkflowStep → CallWorkflowStep}
    (h : ∀ step, workflow.get? step = ((source.get? step).map f).or (seedWorkflowSteps.get? step)) :
    (exportSteps workflow).Perm (exportSteps source) ↔
      (∀ step ∈ seededSteps, ∃ row ∈ source.rows, row.step = step) ∧
        ∀ row ∈ source.rows, exportStep (f row) = exportStep row := by
  rw [exportSteps_perm_iff]
  constructor
  · intro hsame
    constructor
    · intro step hstep
      cases hget : source.get? step with
      | some row => exact ⟨row, Table.get?_eq_some.mp hget⟩
      | none =>
        have hne : step ≠ .awardResponse := of_decide_eq_true (List.mem_filter.mp hstep).2
        have hrow := hsame step
        rw [h, hget, seedWorkflowSteps_get?, if_neg hne] at hrow
        exact absurd hrow nofun
    · intro row hrow
      have hentry := hsame row.step
      rw [h, source.get?_of_mem hrow, Option.map_some, Option.some_or, Option.map_some, Option.map_some] at hentry
      exact Option.some.inj hentry
  · rintro ⟨hall, hrows⟩ step
    rw [h]
    cases hget : source.get? step with
    | some row =>
      obtain ⟨hrow, -⟩ := Table.get?_eq_some.mp hget
      rw [Option.map_some, Option.some_or, Option.map_some, Option.map_some, hrows row hrow]
    | none =>
      have haward : step = .awardResponse := by
        by_contra hne
        have hcatalog : step ∈ workflowSteps := by cases step <;> decide
        obtain ⟨row, hrow, rfl⟩ := hall step (List.mem_filter.mpr ⟨hcatalog, decide_eq_true hne⟩)
        exact Table.get?_eq_none.mp hget row hrow rfl
      rw [Option.map_none, Option.none_or, seedWorkflowSteps_get?, if_pos haward]

/-- The import of what was exported. -/
theorem importWorkflowSteps_eq (portal : List Checklist) (h : ∀ row ∈ source.rows, Stored row) : ∃ warnings,
    importWorkflowSteps portal (exportSteps source) =
      match firstUnclean (imported portal source) 0 ((source.sorted stepLe).rows.map (arrived portal)) with
      | some error => .error error
      | none => .ok (imported portal source, warnings) := by
  have hsorted : ∀ row ∈ (source.sorted stepLe).rows, Stored row := fun row hrow =>
    h row (List.mem_mergeSort.mp hrow)
  obtain ⟨warnings, hentries⟩ := importEntries_eq portal 0 seedWorkflowSteps hsorted
  refine ⟨warnings, ?_⟩
  unfold importWorkflowSteps
  rw [show exportSteps source = (source.sorted stepLe).rows.map exportStep from rfl, hentries]
  rfl

/-- **A workflow is read back as it was written** exactly if each step is clean, no step that a new call has was
deleted, and each checklist is one of the other portal. -/
theorem import_export_iff (source : Workflow) (portal : List Checklist) (hstored : ∀ row ∈ source.rows, Stored row) :
    (∃ workflow warnings, importWorkflowSteps portal (exportSteps source) = .ok (workflow, warnings) ∧
      (exportSteps workflow).Perm (exportSteps source)) ↔
    (∀ row ∈ source.rows, clean source row = none) ∧
      (∀ step ∈ seededSteps, ∃ row ∈ source.rows, row.step = step) ∧
      ∀ row ∈ source.rows, Portable portal row.checklist := by
  obtain ⟨warnings, heq⟩ := importWorkflowSteps_eq portal hstored
  have hclean : firstUnclean (imported portal source) 0 ((source.sorted stepLe).rows.map (arrived portal)) = none ↔
      ∀ row ∈ source.rows, clean source row = none := by
    rw [firstUnclean_eq_none_iff, List.forall_mem_map]
    refine forall_congr' fun row => imp_congr List.mem_mergeSort (clean_imported_iff row)
  have hsame : (exportSteps (imported portal source)).Perm (exportSteps source) ↔
      (∀ step ∈ seededSteps, ∃ row ∈ source.rows, row.step = step) ∧
        ∀ row ∈ source.rows, Portable portal row.checklist := by
    rw [merged_perm_iff (get?_imported portal source)]
    exact and_congr_right' (forall₂_congr fun row _ => exportStep_arrived_iff)
  rw [heq, ← hclean, ← hsame]
  cases firstUnclean (imported portal source) 0 ((source.sorted stepLe).rows.map (arrived portal)) with
  | none =>
    constructor
    · rintro ⟨workflow, warnings', hok, hperm⟩
      obtain ⟨rfl, -⟩ := Prod.ext_iff.mp (Except.ok.inj hok)
      exact ⟨rfl, hperm⟩
    · rintro ⟨-, hperm⟩
      exact ⟨_, warnings, rfl, hperm⟩
  | some error => exact ⟨fun ⟨_, _, h, _⟩ => absurd h nofun, fun h => absurd h.1 nofun⟩

/-- The steps of a new call are stored. -/
theorem stored_seeded (step : WorkflowStep) : Stored (seededRow step) where
  role := Option.some_ne_none _
  rules := by cases step <;> decide
  criteria := fun _ h => absurd h List.not_mem_nil
  checklist := fun _ h => absurd h (Option.not_mem_none _)

/-- A new call whose expert review is on, with a form, a criterion and no notifications. -/
def expertReviews : Workflow :=
  seedWorkflowSteps.upsert
    { step := .expertReview
      columns := { responsibleRole := some .reviewer }
      checklist := some ⟨1, "Scores", "workflow_step"⟩
      criteria := ⟨[{ name := "Impact" }], List.nodup_singleton _⟩ }

theorem stored_expertReviews : ∀ row ∈ expertReviews.rows, Stored row := by
  intro row hrow
  have hget := expertReviews.get?_of_mem hrow
  rw [expertReviews, Table.get?_upsert] at hget
  split at hget
  · obtain rfl := Option.some.inj hget
    exact ⟨Option.some_ne_none _, fun _ h => absurd h List.not_mem_nil, by decide, by decide⟩
  · obtain ⟨step, -, rfl⟩ := List.mem_map.mp (Table.get?_eq_some.mp hget).1
    exact stored_seeded step

theorem portable_expertReviews :
    ∀ row ∈ expertReviews.rows, Portable [⟨8, "Scores", "workflow_step"⟩] row.checklist := by
  have hname : ∀ row ∈ expertReviews.rows, ∀ c ∈ row.checklist, c.ref = ⟨"Scores", "workflow_step"⟩ := by decide
  intro row hrow c hc
  rw [hname row hrow c hc]
  exact ⟨⟨8, "Scores", "workflow_step"⟩, rfl⟩

/-- Its form has another number on the other portal. -/
theorem expertReviews_transfer : ∃ workflow warnings,
    importWorkflowSteps [⟨8, "Scores", "workflow_step"⟩] (exportSteps expertReviews) = .ok (workflow, warnings) ∧
      (exportSteps workflow).Perm (exportSteps expertReviews) :=
  (import_export_iff expertReviews [⟨8, "Scores", "workflow_step"⟩] stored_expertReviews).mpr
    ⟨by decide, by decide, portable_expertReviews⟩

end RoundTrip

/-! ## The duplicate -/

section Duplicate

variable {source : Workflow}

/-- The row of a duplicate. -/
def duplicated (row : CallWorkflowStep) : CallWorkflowStep where
  step := row.step
  columns := row.columns.saved row.step
  checklist := row.checklist
  rules := if row.step = .awardResponse then Table.empty else seedNotificationRules row.step
  criteria := Table.empty

theorem get?_duplicateSteps (source : Workflow) (step : WorkflowStep) :
    (duplicateSteps source).get? step = ((source.get? step).map duplicated).or (seedWorkflowSteps.get? step) := by
  cases hget : source.get? step with
  | none =>
    have hother : ∀ (t : Workflow) (b : CallWorkflowStep) (k : WorkflowStep), k ≠ b.step →
        (duplicateStep t b).get? k = t.get? k := fun t b k hk => t.get?_upsert_ne hk
    rw [Option.map_none, Option.none_or]
    exact Table.get?_foldl_ne hother (Table.get?_eq_none.mp hget)
  | some row =>
    obtain ⟨hrow, rfl⟩ := Table.get?_eq_some.mp hget
    rw [Option.map_some, Option.some_or]
    have hfold := get?_foldl_upsert (f := fun workflow row =>
        { step := row.step
          columns := row.columns.saved row.step
          checklist := row.checklist
          rules := (workflow.get? row.step).elim Table.empty CallWorkflowStep.rules
          criteria := (workflow.get? row.step).elim Table.empty CallWorkflowStep.criteria }) (fun _ _ => rfl)
      source.nodup seedWorkflowSteps (fun _ _ _ h => by rw [h]) row hrow
    refine hfold.trans (congrArg some ?_)
    rw [seedWorkflowSteps_get?]
    unfold duplicated
    by_cases haward : row.step = .awardResponse
    · rw [if_pos haward, if_pos haward]
      rfl
    · rw [if_neg haward, if_neg haward]
      rfl

/-- **A duplicate is written as its source** exactly if no step that a new call has was deleted, the rules are those
of a new call, with none for the award response, and there are no criteria. -/
theorem duplicate_export_iff (source : Workflow) (hstored : ∀ row ∈ source.rows, Stored row) :
    (exportSteps (duplicateSteps source)).Perm (exportSteps source) ↔
    (∀ step ∈ seededSteps, ∃ row ∈ source.rows, row.step = step) ∧
      ∀ row ∈ source.rows, row.criteria.rows = [] ∧
        row.rules.rows.Perm (if row.step = .awardResponse then [] else defaultNotificationRules row.step) := by
  have hentry : ∀ row ∈ source.rows, exportStep (duplicated row) = exportStep row ↔ row.criteria.rows = [] ∧
      row.rules.rows.Perm (if row.step = .awardResponse then [] else defaultNotificationRules row.step) := by
    intro row hrow
    have hcriteria : ((Table.empty : Criteria).sorted criterionLe).rows = (row.criteria.sorted criterionLe).rows ↔
        row.criteria.rows = [] := by
      constructor
      · intro h
        have hperm := List.mergeSort_perm row.criteria.rows criterionLe
        rw [show row.criteria.rows.mergeSort criterionLe = [] from h.symm.trans List.mergeSort_nil] at hperm
        exact List.nil_perm.mp hperm
      · intro h
        change ([] : List WorkflowCriterion).mergeSort criterionLe = row.criteria.rows.mergeSort criterionLe
        rw [h]
    have hrules : ((if row.step = .awardResponse then Table.empty else seedNotificationRules row.step : Rules).sorted
        ruleLe).rows = (row.rules.sorted ruleLe).rows ↔
          row.rules.rows.Perm (if row.step = .awardResponse then [] else defaultNotificationRules row.step) := by
      rw [sorted_rules_eq_iff, List.perm_comm]
      split <;> rfl
    rw [← hcriteria, ← hrules]
    unfold exportStep duplicated
    dsimp only
    rw [saved_of_role (hstored row hrow).role, StepEntry.mk.injEq]
    exact ⟨fun h => ⟨h.2.2.2.2, h.2.2.2.1⟩, fun h => ⟨rfl, rfl, rfl, h.2, h.1⟩⟩
  rw [merged_perm_iff (get?_duplicateSteps source)]
  exact and_congr_right' (forall₂_congr hentry)

/-- The criterion is lost, and the notifications are back. -/
theorem expertReviews_not_duplicated :
    ¬ (exportSteps (duplicateSteps expertReviews)).Perm (exportSteps expertReviews) :=
  (duplicate_export_iff expertReviews stored_expertReviews).not.mpr fun h => by
    have hcriteria := (h.2 _ (Table.get?_eq_some.mp (Table.get?_upsert_self _ _)).1).1
    exact absurd hcriteria nofun

end Duplicate

/-! ## Accepted documents -/

section Accepted

variable {portal : List Checklist} {row : CallWorkflowStep} {workflow workflow' : Workflow}
  {entries : List StepEntry} {rows : List CallWorkflowStep} {warnings : List Warning} {index : ℕ}

theorem named_of_findChecklist {ref : Option ChecklistRef} {checklist : Option Checklist}
    (h : findChecklist portal ref = .ok (checklist, warnings)) :
    ∀ c ∈ checklist, c.name ≠ "" ∧ c.checklistType ≠ "" := by
  intro c hc
  obtain rfl := Option.mem_def.mp hc
  cases ref with
  | none => exact absurd (Prod.ext_iff.mp (Except.ok.inj h)).1 nofun
  | some ref =>
    unfold findChecklist at h
    dsimp only at h
    split at h
    · exact absurd h nofun
    next hname =>
      split at h
      · exact absurd h nofun
      next htype =>
        rcases hfilter : portal.filter (·.ref = ref) with _ | ⟨c', _ | ⟨c'', rest⟩⟩
        · rw [hfilter] at h
          exact absurd (Prod.ext_iff.mp (Except.ok.inj h)).1 nofun
        · rw [hfilter] at h
          obtain rfl := Option.some.inj (Prod.ext_iff.mp (Except.ok.inj h)).1
          have hmem : c' ∈ portal.filter (·.ref = ref) := hfilter ▸ List.mem_cons_self
          obtain rfl := of_decide_eq_true (List.mem_filter.mp hmem).2
          exact ⟨hname, htype⟩
        · rw [hfilter] at h
          exact absurd (Prod.ext_iff.mp (Except.ok.inj h)).1 nofun

/-- What is imported of an entry passes the checks of the models. -/
theorem stored_importStep {entry : StepEntry} (h : importStep portal index entry = .ok (row, warnings)) :
    Stored row := by
  unfold importStep at h
  split at h
  · exact absurd h nofun
  next checklist warnings' hfind =>
    split at h
    · exact absurd h nofun
    next rules hrules =>
      split at h
      · exact absurd h nofun
      next criteria hcriteria =>
        obtain ⟨rfl, -⟩ := Prod.ext_iff.mp (Except.ok.inj h)
        refine ⟨?_, ?_, ?_, named_of_findChecklist hfind⟩
        · dsimp only [Columns.saved]
          cases entry.columns.responsibleRole <;> exact nofun
        · exact Table.check_of_insertAll hrules fun _ h => absurd h List.not_mem_nil
        · exact Table.check_of_insertAll hcriteria fun _ h => absurd h List.not_mem_nil

/-- What the entries leave of a call: a row of it or one that was imported, and its steps. -/
theorem importEntries_spec : ∀ {entries : List StepEntry} {index : ℕ} {workflow workflow' : Workflow}
    {rows : List CallWorkflowStep} {warnings : List Warning},
    importEntries portal index workflow entries = .ok (workflow', rows, warnings) →
      (∀ row ∈ rows, Stored row) ∧ (∀ row ∈ workflow'.rows, row ∈ workflow.rows ∨ row ∈ rows) ∧
        ∀ step, workflow.get? step ≠ none → workflow'.get? step ≠ none
  | [], _, _, _, _, _, h => by
    obtain ⟨rfl, hrest⟩ := Prod.ext_iff.mp (Except.ok.inj h)
    obtain ⟨rfl, -⟩ := Prod.ext_iff.mp hrest
    exact ⟨fun _ h => absurd h List.not_mem_nil, fun _ h => Or.inl h, fun _ h => h⟩
  | entry :: entries, index, workflow, _, _, _, h => by
    unfold importEntries at h
    split at h
    · exact absurd h nofun
    next row warnings hstep =>
      split at h
      · exact absurd h nofun
      next workflow'' rows warnings' hrest =>
        obtain ⟨rfl, hpair⟩ := Prod.ext_iff.mp (Except.ok.inj h)
        obtain ⟨rfl, -⟩ := Prod.ext_iff.mp hpair
        obtain ⟨hstored, hrows, hsteps⟩ := importEntries_spec hrest
        refine ⟨List.forall_mem_cons.mpr ⟨stored_importStep hstep, hstored⟩, fun row' hrow' => ?_, fun step hget => ?_⟩
        · rcases hrows row' hrow' with hold | hnew
          · have hget := (workflow.upsert row).get?_of_mem hold
            rw [Table.get?_upsert] at hget
            split at hget
            · obtain rfl := Option.some.inj hget
              exact Or.inr List.mem_cons_self
            · exact Or.inl (Table.get?_eq_some.mp hget).1
          · exact Or.inr (List.mem_cons_of_mem _ hnew)
        · refine hsteps step ?_
          rw [Table.get?_upsert]
          split
          · exact Option.some_ne_none _
          · exact hget

/-- The steps of a new call are clean, whatever the others are. -/
theorem clean_seeded (workflow : Workflow) (step : WorkflowStep) : clean workflow (seededRow step) = none := by
  cases step <;> rfl

/-- **What was accepted goes on**: the workflow that a portal made of any document is written and read on another
portal without a change, exactly if its checklists are there. -/
theorem accepted_export_iff (portal portal' : List Checklist) (entries : List StepEntry) (workflow : Workflow)
    (warnings : List Warning) (h : importWorkflowSteps portal entries = .ok (workflow, warnings)) :
    (∃ workflow' warnings', importWorkflowSteps portal' (exportSteps workflow) = .ok (workflow', warnings') ∧
      (exportSteps workflow').Perm (exportSteps workflow)) ↔
    ∀ row ∈ workflow.rows, Portable portal' row.checklist := by
  unfold importWorkflowSteps at h
  split at h
  · exact absurd h nofun
  next imported rows warnings' hentries =>
    split at h
    · exact absurd h nofun
    next hclean =>
      obtain ⟨rfl, -⟩ := Prod.ext_iff.mp (Except.ok.inj h)
      obtain ⟨hstored, hrows, hsteps⟩ := importEntries_spec hentries
      have hseeded : ∀ row ∈ seedWorkflowSteps.rows, ∃ step, row = seededRow step := by
        intro row hrow
        obtain ⟨step, -, hstep⟩ := List.mem_map.mp hrow
        exact ⟨step, hstep.symm⟩
      rw [import_export_iff imported portal' ?_]
      · refine ⟨fun hall => hall.2.2, fun hportable => ⟨fun row hrow => ?_, fun step hstep => ?_, hportable⟩⟩
        · rcases hrows row hrow with hold | hnew
          · obtain ⟨step, rfl⟩ := hseeded row hold
            exact clean_seeded imported step
          · exact (firstUnclean_eq_none_iff 0).mp hclean row hnew
        · have hpresent : seedWorkflowSteps.get? step ≠ none := by
            rw [seedWorkflowSteps_get?, if_neg (of_decide_eq_true (List.mem_filter.mp hstep).2)]
            exact Option.some_ne_none _
          obtain ⟨row, hget⟩ := Option.ne_none_iff_exists'.mp (hsteps step hpresent)
          exact ⟨row, Table.get?_eq_some.mp hget⟩
      · intro row hrow
        rcases hrows row hrow with hold | hnew
        · obtain ⟨step, rfl⟩ := hseeded row hold
          exact stored_seeded step
        · exact hstored row hnew

/-- A document of one entry. -/
theorem accepted_export_expertReviews : ∃ workflow warnings,
    importWorkflowSteps [⟨8, "Scores", "workflow_step"⟩] (exportSteps expertReviews) = .ok (workflow, warnings) ∧
      (exportSteps workflow).Perm (exportSteps expertReviews) :=
  (accepted_export_iff [⟨1, "Scores", "workflow_step"⟩] [⟨8, "Scores", "workflow_step"⟩]
    [⟨.expertReview, {}, some ⟨"Scores", "workflow_step"⟩, [], [{ name := "Impact" }]⟩] expertReviews [] rfl).mpr
    portable_expertReviews

end Accepted

end CallTransfer

end Waldur.Proposals
