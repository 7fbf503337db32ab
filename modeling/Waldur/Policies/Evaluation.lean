import Mathlib
import Waldur.Lib.Runs
import Waldur.Policies.Models

/-!
# Policies.Evaluation — the workers that evaluate policies, step by step

`_evaluate_policies` of `policy/utils.py` cut where another worker can come in between: reading
`is_triggered`, the compare-and-set of `has_fired`, and each action or reset after it.  A reset reads the
lock-out set before its transaction and a SLURM action reads its resources without a lock, so both are
two steps.  `evaluate_resource_against_policy` of `policy/tasks.py` holds the row lock of its resource
and is one.  What `is_triggered` answers and how far a resource is used are inputs of the step.
-/

namespace Waldur.Policies

open Relational

abbrev PolicyKey := PolicyClass × ℕ

/-- What a worker still has to do after its compare-and-set. -/
inductive Task
  | run (action : ActionName)
  | reset (action : ActionName)
  /-- a reset that has read the lock-out set -/
  | clear (f : Flag) (locked : List ℕ)
  /-- a SLURM action that has read its resources -/
  | save (f : Flag) (values : List (ℕ × Bool))
deriving DecidableEq

inductive Phase
  | idle
  | evaluating (policy : PolicyKey) (triggered reconcileAlreadyFired : Bool)
  | acting (policy : PolicyKey) (tasks : List Task)

/-- The phase of a worker with these tasks left. -/
def Phase.ofTasks (policy : PolicyKey) : List Task → Phase
  | [] => .idle
  | task :: tasks => .acting policy (task :: tasks)

/-- The tasks between a compare-and-set and the end of its actions. -/
def Phase.tasks : Phase → List Task
  | .acting _ tasks => tasks
  | _ => []

/-- The policy a worker is at. -/
def Phase.policy? : Phase → Option PolicyKey
  | .idle => none
  | .evaluating policy _ _ => some policy
  | .acting policy _ => some policy

structure Worker where
  id : ℕ
  phase : Phase := .idle

structure State where
  policies : Table PolicyKey Policy Policy.key
  resources : Table ℕ Resource Resource.id
  workers : Table ℕ Worker Worker.id
  /-- the actions that have run, with their policy -/
  journal : List (PolicyKey × ActionName) := []

/-- No worker is evaluating a policy, and no action has run yet. -/
def State.Initial (s : State) : Prop := (∀ w ∈ s.workers.rows, w.phase = .idle) ∧ s.journal = []

def State.setPhase (s : State) (worker : ℕ) (phase : Phase) : State :=
  { s with workers := s.workers.update worker (fun w => { w with phase := phase }) (fun _ => rfl) }

def State.setFired (s : State) (policy : PolicyKey) (fired : Bool) : State :=
  { s with policies := s.policies.update policy (fun p => p.withFired fired) (fun _ => rfl) }

/-! ### Actions -/

/-- `_resources_locked_by_other_policies`. -/
def lockedByOtherPolicies (s : State) (policy : PolicyKey) (f : Flag) : List ℕ :=
  (s.resources.rows.filter fun r => r.get f &&
    s.policies.rows.any fun other => other.key != policy && other.wantsKept f && other.inScope r).map (·.id)

/-- What the loop of `_apply_generic_action` does to one resource. -/
def applyToResource (p : Policy) (f : Flag) (newValue : Bool) (locked : List ℕ) (r : Resource) : Resource :=
  if p.inScope r && f.eligible r then
    if r.get f == newValue then r
    else if newValue == false && locked.contains r.id then r
    else r.set newValue f
  else r

@[simp] theorem id_applyToResource (p : Policy) (f : Flag) (v : Bool) (locked : List ℕ) (r : Resource) :
    (applyToResource p f v locked r).id = r.id := by
  unfold applyToResource
  split_ifs <;> simp

/-- `_apply_generic_action` after the lock-out set is read. -/
def applyGenericAction (s : State) (p : Policy) (f : Flag) (newValue : Bool) (locked : List ℕ) : State :=
  { s with resources := s.resources.mapRows (applyToResource p f newValue locked) (by simp) }

/-- `(1 + policy.grace_ratio) * 100`. -/
def Policy.graceLimit (p : Policy) : ℚ := (1 + p.graceRatio) * 100

/-- What the loops of the two SLURM actions set on one resource. -/
def slurmValue (p : Policy) (f : Flag) (limit : ℚ) (usage : ℕ → ℚ) (r : Resource) : Option (ℕ × Bool) :=
  if p.inScope r && f.eligible r then
    if limit ≤ usage r.id ∧ r.get f = false then some (r.id, true)
    else if r.get f = true ∧ usage r.id < limit then some (r.id, false)
    else none
  else none

/-- `request_slurm_resource_pausing`, up to its transaction. -/
def requestSlurmResourcePausing (s : State) (p : Policy) (usage : ℕ → ℚ) : Task :=
  .save .paused (s.resources.rows.filterMap (slurmValue p .paused p.graceLimit usage))

/-- `request_slurm_resource_downscaling`, up to its transaction. -/
def requestSlurmResourceDownscaling (s : State) (p : Policy) (usage : ℕ → ℚ) : Task :=
  .save .downscaled (s.resources.rows.filterMap (slurmValue p .downscaled 100 usage))

/-- The value written to one resource when the transaction commits. -/
def saveToResource (f : Flag) (values : List (ℕ × Bool)) (r : Resource) : Resource :=
  match values.lookup r.id with
  | some value => r.set value f
  | none => r

@[simp] theorem id_saveToResource (f : Flag) (values : List (ℕ × Bool)) (r : Resource) :
    (saveToResource f values r).id = r.id := by
  unfold saveToResource
  split <;> simp

/-- `action.method(policy)`.  The notifications and the termination orders leave the flags alone. -/
def runAction (s : State) (p : Policy) (usage : ℕ → ℚ) : ActionName → State × List Task
  | .requestPausing => (applyGenericAction s p .paused true [], [])
  | .requestDownscaling => (applyGenericAction s p .downscaled true [], [])
  | .restrictMembers => (applyGenericAction s p .restrictMemberAccess true [], [])
  | .requestSlurmResourcePausing =>
    -- a policy without a usage percentage falls back to the generic action
    if p.cls = .slurmPeriodicUsage then (s, [requestSlurmResourcePausing s p usage])
    else (applyGenericAction s p .paused true [], [])
  | .requestSlurmResourceDownscaling =>
    if p.cls = .slurmPeriodicUsage then (s, [requestSlurmResourceDownscaling s p usage])
    else (applyGenericAction s p .downscaled true [], [])
  | _ => (s, [])

/-- One task of a worker: the state after it and the tasks it leaves. -/
def execute (s : State) (p : Policy) (usage : ℕ → ℚ) : Task → State × List Task
  | .run action => ({ (runAction s p usage action).1 with journal := (p.key, action) :: s.journal },
      (runAction s p usage action).2)
  | .reset action =>
    match action.resetField with
    | some f => (s, [.clear f (lockedByOtherPolicies s p.key f)])
    | none => (s, [])
  | .clear f locked => (applyGenericAction s p f false locked, [])
  | .save f values => ({ s with resources := s.resources.mapRows (saveToResource f values) (by simp) }, [])

/-! ### `_evaluate_policies` -/

/-- The actions a fire runs. -/
def Policy.fireTasks (p : Policy) : List Task := p.getImmediateActions.map .run

/-- `_reconcile_idempotent_actions`. -/
def Policy.reconcileTasks (p : Policy) : List Task :=
  (p.getImmediateActions.filter (fun a => a.resetField.isSome)).map .run

/-- The resets of the immediate and then of the threshold actions. -/
def Policy.resetTasks (p : Policy) : List Task :=
  ((p.getImmediateActions ++ p.getThresholdActions).filter (fun a => a.resetField.isSome)).map .reset

/-- The compare-and-set of a worker that has read `is_triggered`. -/
def compareAndSet (s : State) (worker : ℕ) (p : Policy) (triggered reconcileAlreadyFired : Bool) : State :=
  match triggered, p.hasFired with
  | true, false => (s.setFired p.key true).setPhase worker (.ofTasks p.key p.fireTasks)
  | true, true =>
    s.setPhase worker (if reconcileAlreadyFired then .ofTasks p.key p.reconcileTasks else .idle)
  | false, true => (s.setFired p.key false).setPhase worker (.ofTasks p.key p.resetTasks)
  | false, false => s.setPhase worker .idle

/-- The first task of a worker, with its policy and the tasks after it. -/
def State.nextTask (s : State) (worker : ℕ) : Option (Policy × Task × List Task) :=
  match (s.workers.get? worker).map Worker.phase with
  | some (.acting policy (task :: tasks)) => (s.policies.get? policy).map fun p => (p, task, tasks)
  | _ => none

/-! ### `evaluate_resource_against_policy` -/

/-- What a SLURM evaluation measures: the usage of every resource in percent, and whether the owners were
notified in this period. -/
structure Reading where
  usage : ℕ → ℚ
  alreadyNotified : Bool := false

/-- The project is in its grace period and the offering supports pausing. -/
def Resource.inLifecycleGrace (r : Resource) : Bool := r.project.isInGracePeriod && r.offering.supportsPausing

/-- `"pause" in actions_needed`. -/
def pauseNeeded (p : Policy) (r : Resource) (usage : ℚ) : Bool :=
  (decide (p.graceLimit ≤ usage) && p.actions.contains .requestSlurmResourcePausing) || r.inLifecycleGrace

/-- `"downscale" in actions_needed`. -/
def downscaleNeeded (p : Policy) (usage : ℚ) : Bool :=
  decide (100 ≤ usage) && p.actions.contains .requestSlurmResourceDownscaling

/-- `"notify" in actions_needed`. -/
def notifyNeeded (p : Policy) (usage : ℚ) (alreadyNotified : Bool) : Bool :=
  decide (80 ≤ usage) && p.actions.contains .notifyOrganizationOwners && !alreadyNotified

/-- The pausing of a resource after its evaluation. -/
def evaluatedPaused (p : Policy) (usage : ℚ) (r : Resource) : Bool :=
  if pauseNeeded p r usage then true
  else if r.paused ∧ usage < p.graceLimit then
    if r.inLifecycleGrace then r.paused else false
  else r.paused

/-- The downscaling of a resource after its evaluation. -/
def evaluatedDownscaled (p : Policy) (usage : ℚ) (r : Resource) : Bool :=
  if downscaleNeeded p usage then true
  else if r.downscaled ∧ usage < 100 then false
  else r.downscaled

/-- `_check_other_resources_triggered`. -/
def otherResourcesTriggered (s : State) (p : Policy) (resource : ℕ) (usage : ℕ → ℚ) : Bool :=
  s.resources.rows.any fun r => r.offering.id == p.scope && r.id != resource &&
    r.state != .terminated && r.state != .terminating && decide (80 ≤ usage r.id)

/-- `policy.has_fired` after an evaluation. -/
def evaluatedFired (s : State) (p : Policy) (r : Resource) (reading : Reading) : Bool :=
  let actionsNeeded := pauseNeeded p r (reading.usage r.id) || downscaleNeeded p (reading.usage r.id) ||
    notifyNeeded p (reading.usage r.id) reading.alreadyNotified
  if actionsNeeded then true
  else p.hasFired && otherResourcesTriggered s p r.id reading.usage

def evaluateResourceAgainstPolicy (s : State) (p : Policy) (r : Resource) (reading : Reading) : State :=
  let s' := { s with
    resources := s.resources.update r.id (fun r =>
      { r with
        paused := evaluatedPaused p (reading.usage r.id) r
        downscaled := evaluatedDownscaled p (reading.usage r.id) r }) (fun _ => rfl) }
  s'.setFired p.key (evaluatedFired s' p r reading)

/-! ### The system -/

/-- The steps of the system; a step whose worker is not at it changes nothing. -/
inductive Op
  | read (worker : ℕ) (policy : PolicyKey) (triggered reconcileAlreadyFired : Bool)
  | compareAndSet (worker : ℕ)
  | act (worker : ℕ) (usage : ℕ → ℚ)
  | evaluateResource (policy : ℕ) (resource : ℕ) (reading : Reading)

def step (s : State) : Op → State
  | .read worker policy triggered reconcileAlreadyFired =>
    match (s.workers.get? worker).map Worker.phase with
    | some .idle => s.setPhase worker (.evaluating policy triggered reconcileAlreadyFired)
    | _ => s
  | .compareAndSet worker =>
    match (s.workers.get? worker).map Worker.phase with
    | some (.evaluating policy triggered reconcileAlreadyFired) =>
      match s.policies.get? policy with
      | some p => Policies.compareAndSet s worker p triggered reconcileAlreadyFired
      | none => s.setPhase worker .idle
    | _ => s
  | .act worker usage =>
    match s.nextTask worker with
    | some (p, task, tasks) =>
      (execute s p usage task).1.setPhase worker (.ofTasks p.key ((execute s p usage task).2 ++ tasks))
    | none => s
  | .evaluateResource policy resource reading =>
    match s.policies.get? (.slurmPeriodicUsage, policy), s.resources.get? resource with
    | some p, some r => evaluateResourceAgainstPolicy s p r reading
    | _, _ => s

end Waldur.Policies
