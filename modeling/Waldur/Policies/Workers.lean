import Mathlib
import Waldur.Policies.Lockout

/-!
# Policies.Workers — concurrent evaluations of one policy

The compare-and-set lets one worker run the actions of each fire, so a notification or a termination runs
once for each time `has_fired` rises.  It does not order the actions of a fire with those of a reset: a
request that runs after the reset of a later evaluation is finished leaves its flag set for good.
-/

namespace Waldur.Policies

open Relational Runs

/-! ### The runs of one policy -/

/-- The step belongs to an evaluation of the policy. -/
def Op.Evaluates (policy : PolicyKey) : Op → Prop
  | .read _ p _ _ => p = policy
  | .evaluateResource _ _ _ => False
  | _ => True

/-- `has_fired` of the policy. -/
def fired (s : State) (policy : PolicyKey) : Bool := (s.policies.get? policy).any (·.hasFired)

/-- The changes of `has_fired` from `False` to `True` in a run. -/
def rises (policy : PolicyKey) : State → List Op → ℕ
  | _, [] => 0
  | s, op :: ops =>
    (if fired s policy = false ∧ fired (step s op) policy = true then 1 else 0) + rises policy (step s op) ops

/-- No worker is between its compare-and-set and the end of its actions. -/
def Quiet (s : State) : Prop := ∀ w ∈ s.workers.rows, w.phase.tasks = []

/-- A task that will still clear the flag. -/
def Task.resets (f : Flag) : Task → Bool
  | .reset action => action == f.requestAction
  | .clear g _ => g == f
  | _ => false

/-- Some worker still has a reset of the flag to do. -/
def ResetPending (f : Flag) (s : State) : Prop := ∃ w ∈ s.workers.rows, ∃ t ∈ w.phase.tasks, t.resets f = true

/-- A request that sets the flag of the resource runs while the policy is fired, or while a reset of the
flag is still to be done. -/
def RestrictsInTime (f : Flag) (policy : PolicyKey) (resource : ℕ) (s : State) : Op → Prop
  | .act worker _ =>
    match s.nextTask worker with
    | some (p, .run action, _) => action = f.requestAction → ∀ r, s.resources.get? resource = some r →
        p.inScope r = true → f.eligible r = true → r.get f = false → fired s policy = true ∨ ResetPending f s
    | _ => True
  | _ => True

/-- What the other policies do not want kept: no other fired cost policy holds the flag of the resource. -/
def HeldByNoOther (f : Flag) (policy : PolicyKey) (s : State) (r : Resource) : Prop :=
  ∀ q ∈ s.policies.rows, q.key ≠ policy → q.wantsKept f = true → q.inScope r = false

/-! ### What a step does to the workers and the policies -/

section Frame

variable {s : State}

theorem nextTask_eq_some {worker : ℕ} {p : Policy} {task : Task} {tasks : List Task} :
    s.nextTask worker = some (p, task, tasks) ↔
      ∃ w, s.workers.get? worker = some w ∧ w.phase = .acting p.key (task :: tasks) ∧
        s.policies.get? p.key = some p := by
  constructor
  · intro h
    have hp := nextTask_policy h
    unfold State.nextTask at h
    split at h
    · next policy task' tasks' hphase =>
      obtain ⟨w, hw, hwphase⟩ := Option.map_eq_some_iff.mp hphase
      obtain ⟨p', hp', heq⟩ := Option.map_eq_some_iff.mp h
      obtain ⟨rfl, htasks⟩ := Prod.mk.inj heq
      obtain ⟨rfl, rfl⟩ := Prod.mk.inj htasks
      exact ⟨w, hw, by rw [hwphase, (Table.get?_eq_some.mp hp').2], hp⟩
    · cases h
  · rintro ⟨w, hw, hphase, hp⟩
    simp [State.nextTask, hw, hphase, hp]

@[simp] theorem tasks_ofTasks (policy : PolicyKey) (tasks : List Task) :
    (Phase.ofTasks policy tasks).tasks = tasks := by
  cases tasks <;> rfl

theorem policy?_ofTasks {policy k : PolicyKey} {tasks : List Task} (h : (Phase.ofTasks policy tasks).policy? = some k) :
    k = policy := by
  cases tasks with
  | nil => cases h
  | cons t ts => exact (Option.some.inj h).symm

/-- An action or a reset touches neither the workers nor the policies. -/
theorem execute_frame (s : State) (p : Policy) (usage : ℕ → ℚ) (task : Task) :
    (execute s p usage task).1.workers = s.workers ∧ (execute s p usage task).1.policies = s.policies := by
  cases task with
  | run a =>
    rcases runAction_cases s p usage a with ⟨f, h⟩ | ⟨f, values, -, h⟩ | h <;>
      simp [execute, h, applyGenericAction]
  | reset a => simp only [execute]; split <;> exact ⟨rfl, rfl⟩
  | clear f locked => exact ⟨rfl, rfl⟩
  | save f values => exact ⟨rfl, rfl⟩

/-- Only an action is entered in the journal. -/
theorem journal_execute (s : State) (p : Policy) (usage : ℕ → ℚ) (task : Task) :
    (execute s p usage task).1.journal =
      match task with
      | .run action => (p.key, action) :: s.journal
      | _ => s.journal := by
  cases task with
  | run a =>
    rcases runAction_cases s p usage a with ⟨f, h⟩ | ⟨f, values, -, h⟩ | h <;>
      simp [execute, h, applyGenericAction]
  | reset a => simp only [execute]; split <;> rfl
  | clear f locked => rfl
  | save f values => rfl

/-- No task leaves an action to run. -/
theorem count_run_execute (s : State) (p : Policy) (usage : ℕ → ℚ) (task : Task) (a : ActionName) :
    (execute s p usage task).2.count (.run a) = 0 := by
  refine List.count_eq_zero.mpr fun h => ?_
  cases task with
  | run b =>
    rcases runAction_cases s p usage b with ⟨f, hrun⟩ | ⟨f, values, -, hrun⟩ | hrun <;>
      simp [execute, hrun] at h
  | reset b =>
    simp only [execute] at h
    split at h <;> simp at h
  | clear f locked => cases h
  | save f values => cases h

theorem mem_workers_setPhase {worker : ℕ} {phase : Phase} {w' : Worker} :
    w' ∈ (s.setPhase worker phase).workers.rows ↔
      ∃ w ∈ s.workers.rows, w' = if w.id = worker then { w with phase := phase } else w :=
  @Table.mem_update ℕ Worker Worker.id _ s.workers worker (fun w => { w with phase := phase }) (fun _ => rfl) w'

theorem get?_setFired_self {policy : PolicyKey} {b : Bool} {p : Policy} (h : s.policies.get? policy = some p) :
    (s.setFired policy b).policies.get? policy = some (p.withFired b) :=
  (Table.get?_update_self s.policies policy (fun p => p.withFired b) (fun _ => rfl)).trans (by rw [h]; rfl)

theorem get?_setFired_ne {policy policy' : PolicyKey} {b : Bool} (h : policy' ≠ policy) :
    (s.setFired policy b).policies.get? policy' = s.policies.get? policy' :=
  Table.get?_update_ne s.policies (fun p => p.withFired b) (fun _ => rfl) h

@[simp] theorem fired_setPhase {worker : ℕ} {phase : Phase} {policy : PolicyKey} :
    fired (s.setPhase worker phase) policy = fired s policy := rfl

theorem fired_setFired_self {p : Policy} {b : Bool} (h : s.policies.get? p.key = some p) :
    fired (s.setFired p.key b) p.key = b := by
  rw [fired, get?_setFired_self h]
  rfl

theorem fired_setFired_ne {policy policy' : PolicyKey} {b : Bool} (h : policy' ≠ policy) :
    fired (s.setFired policy b) policy' = fired s policy' := by
  rw [fired, fired, get?_setFired_ne h]

/-- What a step of an evaluation of the policy does. -/
inductive Transition (policy : PolicyKey) (s : State) (op : Op) : State → Prop
  | stutter : Transition policy s op s
  | wait {worker : ℕ} {w : Worker} {phase : Phase} (hw : s.workers.get? worker = some w)
      (hbefore : w.phase.tasks = []) (hafter : phase.tasks = [])
      (hpolicy : ∀ k, phase.policy? = some k → k = policy) : Transition policy s op (s.setPhase worker phase)
  | fire {worker : ℕ} {w : Worker} {p : Policy} (hw : s.workers.get? worker = some w)
      (hbefore : w.phase.tasks = []) (hpolicy : w.phase.policy? = some p.key)
      (hp : s.policies.get? p.key = some p) (hfired : p.hasFired = false) :
      Transition policy s op ((s.setFired p.key true).setPhase worker (.ofTasks p.key p.fireTasks))
  | reconcile {worker : ℕ} {w : Worker} {p : Policy} (hw : s.workers.get? worker = some w)
      (hbefore : w.phase.tasks = []) (hpolicy : w.phase.policy? = some p.key)
      (hp : s.policies.get? p.key = some p) (hfired : p.hasFired = true) :
      Transition policy s op (s.setPhase worker (.ofTasks p.key p.reconcileTasks))
  | reset {worker : ℕ} {w : Worker} {p : Policy} (hw : s.workers.get? worker = some w)
      (hbefore : w.phase.tasks = []) (hpolicy : w.phase.policy? = some p.key)
      (hp : s.policies.get? p.key = some p) (hfired : p.hasFired = true) :
      Transition policy s op ((s.setFired p.key false).setPhase worker (.ofTasks p.key p.resetTasks))
  | act {worker : ℕ} {usage : ℕ → ℚ} {w : Worker} {p : Policy} {task : Task} {tasks : List Task}
      (hop : op = .act worker usage) (hw : s.workers.get? worker = some w)
      (hphase : w.phase = .acting p.key (task :: tasks)) (hp : s.policies.get? p.key = some p) :
      Transition policy s op ((execute s p usage task).1.setPhase worker
        (.ofTasks p.key ((execute s p usage task).2 ++ tasks)))

theorem transition_compareAndSet {policy : PolicyKey} {op : Op} {worker : ℕ} {w : Worker} {p : Policy}
    (hw : s.workers.get? worker = some w) (hbefore : w.phase.tasks = []) (hpolicy : w.phase.policy? = some p.key)
    (hp : s.policies.get? p.key = some p) (triggered reconcile : Bool) :
    Transition policy s op (compareAndSet s worker p triggered reconcile) := by
  unfold compareAndSet
  split
  · next hfired => exact .fire hw hbefore hpolicy hp hfired
  · next hfired =>
    split
    · exact .reconcile hw hbefore hpolicy hp hfired
    · exact .wait hw hbefore rfl nofun
  · next hfired => exact .reset hw hbefore hpolicy hp hfired
  · exact .wait hw hbefore rfl nofun

/-- Every step of an evaluation is one of these. -/
theorem transition_step {op : Op} {policy : PolicyKey} (hop : op.Evaluates policy) :
    Transition policy s op (step s op) := by
  cases op with
  | evaluateResource _ _ _ => exact hop.elim
  | read worker policy' triggered reconcile =>
    simp only [step]
    split
    · next hphase =>
      obtain ⟨w, hw, hidle⟩ := Option.map_eq_some_iff.mp hphase
      exact .wait hw (by rw [hidle]; rfl) rfl fun k hk => (Option.some.inj hk).symm.trans hop
    · exact .stutter
  | compareAndSet worker =>
    simp only [step]
    split
    · next policy' triggered reconcile hphase =>
      obtain ⟨w, hw, hevaluating⟩ := Option.map_eq_some_iff.mp hphase
      have hbefore : w.phase.tasks = [] := by rw [hevaluating]; rfl
      split
      · next p hp =>
        obtain rfl := (Table.get?_eq_some.mp hp).2
        exact transition_compareAndSet hw hbefore (by rw [hevaluating]; rfl) hp triggered reconcile
      · refine .wait hw hbefore rfl fun k hk => ?_
        cases hk
    · exact .stutter
  | act worker usage =>
    simp only [step]
    split
    · next p task tasks hnext =>
      obtain ⟨w, hw, hphase, hp⟩ := nextTask_eq_some.mp hnext
      exact .act rfl hw hphase hp
    · exact .stutter

end Frame

/-! ### The one-shot actions -/

section OneShot

/-- The runs of an action that a worker in this phase has still to do for the policy. -/
def Phase.pendingRuns (policy : PolicyKey) (a : ActionName) : Phase → ℕ
  | .acting p tasks => if p = policy then tasks.count (.run a) else 0
  | _ => 0

/-- The runs of an action that the workers have still to do for the policy. -/
def pendingRuns (s : State) (policy : PolicyKey) (a : ActionName) : ℤ :=
  (s.workers.rows.map fun w => (w.phase.pendingRuns policy a : ℤ)).sum

theorem pendingRuns_ofTasks (policy p : PolicyKey) (a : ActionName) (tasks : List Task) :
    (Phase.ofTasks p tasks).pendingRuns policy a = if p = policy then tasks.count (.run a) else 0 := by
  cases tasks <;> simp [Phase.ofTasks, Phase.pendingRuns]

theorem pendingRuns_setPhase {s : State} {worker : ℕ} {w : Worker} (h : s.workers.get? worker = some w)
    (phase : Phase) (policy : PolicyKey) (a : ActionName) :
    pendingRuns (s.setPhase worker phase) policy a =
      pendingRuns s policy a - w.phase.pendingRuns policy a + phase.pendingRuns policy a :=
  Table.sum_update s.workers h (fun w => { w with phase := phase }) (fun _ => rfl) _

theorem count_fireTasks (p : Policy) (a : ActionName) :
    p.fireTasks.count (.run a) = p.getImmediateActions.count a :=
  List.count_map_of_injective _ _ (fun _ _ h => Task.run.inj h) _

/-- A reconciliation leaves the actions without a reset alone. -/
theorem count_reconcileTasks (p : Policy) {a : ActionName} (ha : a.resetField = none) :
    p.reconcileTasks.count (.run a) = 0 := by
  unfold Policy.reconcileTasks
  rw [List.count_map_of_injective _ _ (fun _ _ h => Task.run.inj h)]
  exact List.count_eq_zero.mpr fun h => by simp [ha] at h

theorem count_resetTasks (p : Policy) (a : ActionName) : p.resetTasks.count (.run a) = 0 :=
  List.count_eq_zero.mpr fun h => by
    obtain ⟨b, -, hb⟩ := List.mem_map.mp h
    cases hb

/-- The row of a policy through its evaluations: only `has_fired` moves. -/
def RowOf (P : Policy) (s : State) : Prop := ∃ b, s.policies.get? P.key = some (P.withFired b)

variable {P : Policy} {s : State} {op : Op}

theorem rowOf_setFired (h : RowOf P s) (policy : PolicyKey) (b : Bool) : RowOf P (s.setFired policy b) := by
  obtain ⟨b', hb'⟩ := h
  by_cases hk : P.key = policy
  · subst hk
    have hrow := get?_setFired_self (b := b) hb'
    exact ⟨b, hrow⟩
  · exact ⟨b', (get?_setFired_ne hk).trans hb'⟩

theorem rowOf_step (hop : op.Evaluates P.key) (h : RowOf P s) : RowOf P (step s op) := by
  have ht := transition_step (s := s) hop
  generalize step s op = s' at ht
  cases ht with
  | stutter => exact h
  | wait hw hbefore hafter hpolicy => exact h
  | fire hw hbefore hpolicy hp hfired => exact rowOf_setFired h _ true
  | reconcile hw hbefore hpolicy hp hfired => exact h
  | reset hw hbefore hpolicy hp hfired => exact rowOf_setFired h _ false
  | act hop hw hphase hp =>
    obtain ⟨b, hb⟩ := h
    refine ⟨b, ?_⟩
    rw [← hb]
    exact congrArg (fun t => Table.get? t P.key) (execute_frame s _ _ _).2

theorem pendingRuns_of_tasks {phase : Phase} (h : phase.tasks = []) (policy : PolicyKey) (a : ActionName) :
    phase.pendingRuns policy a = 0 := by
  cases phase with
  | acting p tasks =>
    obtain rfl : tasks = [] := h
    simp [Phase.pendingRuns]
  | _ => rfl

/-- What runs and what is still to be run grows by one round of actions when the policy fires. -/
theorem ran_add_pending_step (hop : op.Evaluates P.key) (h : RowOf P s) {a : ActionName}
    (ha : a.resetField = none) :
    ((step s op).journal.count (P.key, a) : ℤ) + pendingRuns (step s op) P.key a =
      s.journal.count (P.key, a) + pendingRuns s P.key a +
        (if fired s P.key = false ∧ fired (step s op) P.key = true then P.getImmediateActions.count a else 0) := by
  have ht := transition_step (s := s) hop
  generalize step s op = s' at ht
  have hsame : ∀ s' : State, fired s' P.key = fired s P.key →
      ¬ (fired s P.key = false ∧ fired s' P.key = true) := fun s' heq ⟨hbefore, hafter⟩ => by
    rw [heq, hbefore] at hafter
    cases hafter
  cases ht with
  | stutter =>
    rw [if_neg (hsame s rfl)]
    omega
  | @wait worker w phase hw hbefore hafter hpolicy =>
    rw [if_neg (hsame (s.setPhase worker phase) rfl), pendingRuns_setPhase hw, pendingRuns_of_tasks hbefore,
      pendingRuns_of_tasks hafter]
    show (s.journal.count _ : ℤ) + _ = _
    omega
  | @reconcile worker w p hw hbefore hpolicy hp hfired =>
    rw [if_neg (hsame (s.setPhase worker _) rfl), pendingRuns_setPhase hw, pendingRuns_of_tasks hbefore,
      pendingRuns_ofTasks, count_reconcileTasks _ ha]
    show (s.journal.count _ : ℤ) + _ = _
    simp
  | @reset worker w p hw hbefore hpolicy hp hfired =>
    have hnot : ¬ (fired s P.key = false ∧ fired (s.setFired p.key false) P.key = true) := by
      by_cases hk : P.key = p.key
      · rw [hk, fired_setFired_self hp]
        exact fun h => Bool.false_ne_true h.2
      · exact hsame _ (fired_setFired_ne hk)
    have hw' : (s.setFired p.key false).workers.get? worker = some w := hw
    rw [fired_setPhase, if_neg hnot, pendingRuns_setPhase hw', pendingRuns_of_tasks hbefore, pendingRuns_ofTasks,
      count_resetTasks]
    show (s.journal.count _ : ℤ) + (pendingRuns s P.key a - _ + _) = _
    simp
  | @fire worker w p hw hbefore hpolicy hp hfired =>
    have hw' : (s.setFired p.key true).workers.get? worker = some w := hw
    rw [fired_setPhase, pendingRuns_setPhase hw', pendingRuns_of_tasks hbefore, pendingRuns_ofTasks, count_fireTasks]
    show (s.journal.count _ : ℤ) + (pendingRuns s P.key a - _ + _) = _
    by_cases hk : p.key = P.key
    · obtain ⟨b, hb⟩ := h
      have hrise : fired s P.key = false ∧ fired (s.setFired p.key true) P.key = true := by
        rw [← hk, fired_setFired_self hp]
        exact ⟨by rw [fired, hp]; exact hfired, rfl⟩
      have hactions : p.getImmediateActions = P.getImmediateActions := by
        rw [← hk, hp] at hb
        rw [Option.some.inj hb, getImmediateActions_withFired]
      rw [if_pos hk, if_pos hrise, hactions]
      simp
      omega
    · rw [if_neg hk, if_neg (hsame _ (fired_setFired_ne (Ne.symm hk)))]
      simp
  | @act worker usage w p task tasks hop hw hphase hp =>
    obtain ⟨hworkers, hpolicies⟩ := execute_frame s p usage task
    have hw' : (execute s p usage task).1.workers.get? worker = some w := by rw [hworkers, hw]
    have hpending : pendingRuns (execute s p usage task).1 P.key a = pendingRuns s P.key a := by
      unfold pendingRuns
      rw [hworkers]
    have hfired : fired (execute s p usage task).1 P.key = fired s P.key := by rw [fired, fired, hpolicies]
    rw [fired_setPhase, if_neg (hsame _ hfired), pendingRuns_setPhase hw', hpending, hphase, pendingRuns_ofTasks]
    show ((execute s p usage task).1.journal.count (P.key, a) : ℤ) + _ = _
    rw [journal_execute, List.count_append, count_run_execute, Nat.zero_add]
    simp only [Phase.pendingRuns, List.count_cons]
    by_cases hkey : p.key = P.key
    · rw [if_pos hkey, if_pos hkey]
      cases task with
      | run b =>
        by_cases hb : b = a
        · simp [hb, hkey]
          omega
        · simp [hb]
      | _ => simp
    · rw [if_neg hkey, if_neg hkey]
      cases task with
      | run b => simp [hkey]
      | _ => simp

/-- The same for a run. -/
theorem ran_add_pending_run {a : ActionName} (ha : a.resetField = none) : ∀ {ops : List Op} {s : State},
    (∀ op ∈ ops, op.Evaluates P.key) → RowOf P s →
    ((run step s ops).journal.count (P.key, a) : ℤ) + pendingRuns (run step s ops) P.key a =
      s.journal.count (P.key, a) + pendingRuns s P.key a + rises P.key s ops * P.getImmediateActions.count a
  | [], s, _, _ => by simp [rises]
  | op :: ops, s, hops, h => by
    have hop := hops op List.mem_cons_self
    have hstep := ran_add_pending_step hop h ha
    have hrun := ran_add_pending_run ha (fun op' hop' => hops op' (List.mem_cons_of_mem op hop')) (rowOf_step hop h)
    rw [run_cons, hrun, hstep, rises]
    split_ifs with hrise
    · push_cast
      ring
    · push_cast
      ring

theorem pendingRuns_of_quiet (h : Quiet s) (policy : PolicyKey) (a : ActionName) : pendingRuns s policy a = 0 := by
  refine List.sum_eq_zero fun n hn => ?_
  obtain ⟨w, hw, rfl⟩ := List.mem_map.mp hn
  rw [pendingRuns_of_tasks (h w hw)]
  rfl

theorem quiet_of_initial (h : s.Initial) : Quiet s := by
  intro w hw
  rw [h.1 w hw]
  rfl

theorem rowOf_of_get? (h : s.policies.get? P.key = some P) : RowOf P s := ⟨P.hasFired, h⟩

end OneShot

end Waldur.Policies
