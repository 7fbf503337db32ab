import Mathlib
import Waldur.Checklist.Completion
import Waldur.Lib.Runs

/-!
# Proposals.Workflow — the steps of a proposal and the service that moves it through them

`workflow_service`: the instances of the steps are fixed when a proposal is submitted, and each transition reads the
configuration of the call as it is then.  An operation that raises changes nothing.  `Coherent` is the invariant of
every run, with any edits of the configuration between the operations.
-/

namespace Waldur.Proposals

open Runs
open Checklist (WorkflowStepOutcome Forms Completion GateError enforceStepGates)

/-- `WORKFLOW_STEPS`, by their ids. -/
inductive WorkflowStep
  | administrativeCheck
  | technicalAssessment
  | expertReview
  | panelReview
  | allocationDecision
  | awardResponse
deriving DecidableEq, Repr

/-- `WORKFLOW_STEPS`, in the order of the catalog. -/
def workflowSteps : List WorkflowStep :=
  [.administrativeCheck, .technicalAssessment, .expertReview, .panelReview, .allocationDecision, .awardResponse]

/-- `step_indexes`. -/
def WorkflowStep.index (step : WorkflowStep) : ℕ := workflowSteps.idxOf step

/-- `WorkflowStepInstanceStatuses`. -/
inductive StepStatus
  | pending
  | active
  | completed
  | expired
  | skipped
deriving DecidableEq, Repr

/-- `ProposalStates`. -/
inductive ProposalState
  | draft
  | submitted
  | inReview
  | accepted
  | rejected
  | canceled
deriving DecidableEq, Repr

/-- `TransitionModes`. -/
inductive TransitionMode
  | automaticOnCompletion
  | manual
deriving DecidableEq, Repr

/-- `NEGATIVE_OUTCOMES`. -/
def negativeOutcomes : List WorkflowStepOutcome := [.ineligible, .infeasible, .declined]

/-- `SYSTEM_RESERVED`. -/
def systemReserved : List WorkflowStepOutcome := [.rejected, .expired]

/-- `STEP_ALLOW_LIST`. -/
def stepAllowList : WorkflowStep → List WorkflowStepOutcome
  | .administrativeCheck => [.eligible, .ineligible]
  | .technicalAssessment => [.feasible, .infeasible]
  | .expertReview => [.reviewed]
  | .panelReview => [.approved, .declined]
  | .allocationDecision => [.approved, .declined]
  | .awardResponse => [.accepted, .declined]

/-- A `CallWorkflowStep` as the transitions read it. -/
structure CallStep extends Checklist.CallWorkflowStep where
  isEnabled : Bool := true
  transitionMode : TransitionMode := .automaticOnCompletion

/-- A `ProposalWorkflowStepInstance`. -/
structure StepInstance where
  status : StepStatus
  outcome : Option WorkflowStepOutcome := none

/-- A proposal with its instances, unique for each step, and the configuration of its call; `activated` and
`allocations` record the calls of `_activate_next_step` and `allocate_proposal`. -/
structure Proposal where
  state : ProposalState
  workflowStep : Option WorkflowStep := none
  project : Option ℕ := none
  instances : WorkflowStep → Option StepInstance := fun _ => none
  callSteps : WorkflowStep → Option CallStep
  activated : List WorkflowStep := []
  allocations : ℕ := 0

inductive WorkflowError
  /-- The unique constraint on the proposal and the step. -/
  | instancesExist
  /-- `start_held_evaluations` and `submit` pass over the proposal. -/
  | notSubmitted
  | systemReserved (outcome : WorkflowStepOutcome)
  | notAllowed (outcome : WorkflowStepOutcome) (step : WorkflowStep)
  /-- "Workflow step has changed; refresh and retry." -/
  | stepHasChanged
  | gate (error : GateError)
  /-- "Workflow is not awaiting manual advance." -/
  | notAwaitingManualAdvance
  | allocationFailed

/-- What the gates of a step read: the forms, the completions and the scores of the submitted reviews. -/
structure Evidence where
  forms : Forms
  completionFor : ℕ → Option Completion
  submitted : List ℕ

/-- An operation of the service, with the project that an allocation makes if it does not fail; or an edit of a step
of the call, which adds, changes or removes its row. -/
inductive WorkflowOp
  | createStepInstances
  | activateFirstStep
  | completeStep (step : WorkflowStep) (outcome : WorkflowStepOutcome) (evidence : Evidence) (project : Option ℕ)
  | rejectAtStep (step : WorkflowStep)
  | expireStep (step : WorkflowStep)
  | advanceStep (project : Option ℕ)
  | editCallStep (step : WorkflowStep) (callStep : Option CallStep)

namespace Proposal

variable (p : Proposal)

def status (step : WorkflowStep) : Option StepStatus := (p.instances step).map (·.status)

/-- `_first_pending_step`. -/
def firstPendingStep : Option WorkflowStep :=
  workflowSteps.find? fun step => p.status step == some .pending

/-- `_next_enabled_step`. -/
def nextEnabledStep (current : WorkflowStep) : Option WorkflowStep :=
  (workflowSteps.drop (current.index + 1)).find? fun step => p.status step == some .pending

/-- `_activate_next_step`. -/
def activateNextStep (step : WorkflowStep) : Proposal :=
  { p with
    instances := Function.update p.instances step
      ((p.instances step).map fun i => { i with status := .active })
    activated := p.activated ++ [step] }

/-- `create_step_instances`. -/
def createStepInstances : Except WorkflowError Proposal :=
  if workflowSteps.all fun step => (p.instances step).isNone then
    .ok { p with
      instances := fun step =>
        some { status := if (p.callSteps step).any (·.isEnabled) then .pending else .skipped } }
  else .error .instancesExist

/-- `activate_first_step`, of a submitted proposal. -/
def activateFirstStep : Except WorkflowError Proposal :=
  if p.state = .submitted then
    match p.firstPendingStep with
    | none => .ok p
    | some step => .ok { p.activateNextStep step with state := .inReview, workflowStep := some step }
  else .error .notSubmitted

/-- `validate_outcome` of `CompleteWorkflowStepSerializer`. -/
def validateOutcome (step : WorkflowStep) (outcome : WorkflowStepOutcome) : Except WorkflowError Unit :=
  if outcome ∈ systemReserved then .error (.systemReserved outcome)
  else if outcome ∈ stepAllowList step then .ok ()
  else .error (.notAllowed outcome step)

/-- The locked read of an active instance. -/
def activeInstance (step : WorkflowStep) : Except WorkflowError Unit :=
  if p.status step = some .active then .ok () else .error .stepHasChanged

/-- The save of an instance that ends. -/
def closeInstance (step : WorkflowStep) (status : StepStatus) (outcome : WorkflowStepOutcome) : Proposal :=
  { p with instances := Function.update p.instances step (some ⟨status, some outcome⟩) }

/-- The save of a proposal whose workflow ends. -/
def endWorkflow (state : ProposalState) : Proposal := { p with state := state, workflowStep := none }

/-- `allocate_proposal`, with the project that it makes. -/
def allocateProposal (project : Option ℕ) : Except WorkflowError Proposal :=
  match p.project with
  | some _ => .ok { p with allocations := p.allocations + 1 }
  | none =>
    match project with
    | none => .error .allocationFailed
    | some project => .ok { p with project := some project, allocations := p.allocations + 1 }

/-- `_advance_to_next`. -/
def advanceToNext (fromStep : WorkflowStep) (project : Option ℕ) : Except WorkflowError Proposal :=
  match p.nextEnabledStep fromStep with
  | none => (if p.project.isNone then p.allocateProposal project else .ok p).map (·.endWorkflow .accepted)
  | some step => .ok ({ p with workflowStep := some step }.activateNextStep step)

/-- `complete_step`, as the view calls it. -/
def completeStep (step : WorkflowStep) (outcome : WorkflowStepOutcome) (evidence : Evidence) (project : Option ℕ) :
    Except WorkflowError Proposal := do
  validateOutcome step outcome
  p.activeInstance step
  let callStep := p.callSteps step
  (enforceStepGates evidence.forms evidence.completionFor evidence.submitted outcome
    (callStep.map (·.toCallWorkflowStep))).mapError .gate
  let p := p.closeInstance step .completed outcome
  if outcome ∈ negativeOutcomes then
    return p.endWorkflow (if outcome = .declined ∧ step = .awardResponse then .canceled else .rejected)
  else if callStep.any fun c => decide (c.transitionMode = .manual) then return p
  else p.advanceToNext step project

/-- `is_awaiting_manual_advance`. -/
def isAwaitingManualAdvance : Bool :=
  match p.workflowStep with
  | none => false
  | some step => decide (p.status step = some .completed) &&
      (p.callSteps step).any fun c => decide (c.transitionMode = .manual)

/-- `advance_step`. -/
def advanceStep (project : Option ℕ) : Except WorkflowError Proposal :=
  match p.workflowStep with
  | none => .error .notAwaitingManualAdvance
  | some step =>
    if p.isAwaitingManualAdvance then p.advanceToNext step project else .error .notAwaitingManualAdvance

/-- `reject_at_step`. -/
def rejectAtStep (step : WorkflowStep) : Except WorkflowError Proposal := do
  p.activeInstance step
  return (p.closeInstance step .completed .rejected).endWorkflow .rejected

/-- `expire_step`. -/
def expireStep (step : WorkflowStep) : Except WorkflowError Proposal := do
  p.activeInstance step
  let p := p.closeInstance step .expired .expired
  match p.nextEnabledStep step with
  | none => return p.endWorkflow .rejected
  | some next => return { p with workflowStep := some next }.activateNextStep next

def apply : WorkflowOp → Except WorkflowError Proposal
  | .createStepInstances => p.createStepInstances
  | .activateFirstStep => p.activateFirstStep
  | .completeStep step outcome evidence project => p.completeStep step outcome evidence project
  | .rejectAtStep step => p.rejectAtStep step
  | .expireStep step => p.expireStep step
  | .advanceStep project => p.advanceStep project
  | .editCallStep step callStep => .ok { p with callSteps := Function.update p.callSteps step callStep }

/-- An operation that fails stores nothing. -/
def step (op : WorkflowOp) : Proposal := (leave p (p.apply op)).1

/-- A submitted proposal before its instances are made. -/
def Submitted : Prop := p.state = .submitted ∧ p.workflowStep = none ∧ (∀ step, p.instances step = none) ∧
  p.activated = [] ∧ p.allocations = 0

end Proposal

end Waldur.Proposals
