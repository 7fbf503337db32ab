import Mathlib
import Waldur.Policies.Evaluation

/-!
# Policies.Lockout — one mechanism lifts what another holds

A fired cost policy holds a flag on every resource in its scope.  The lock-out check of
`_apply_generic_action` keeps a reset from clearing such a flag; the two SLURM paths have no such check,
and the check of a reset is outdated when a policy fires before the reset is written.
-/

namespace Waldur.Policies

open Relational Runs

/-! ### What a step does to the resources -/

@[simp] theorem resources_setPhase (s : State) (worker : ℕ) (phase : Phase) :
    (s.setPhase worker phase).resources = s.resources := rfl

@[simp] theorem resources_setFired (s : State) (policy : PolicyKey) (fired : Bool) :
    (s.setFired policy fired).resources = s.resources := rfl

@[simp] theorem resources_compareAndSet (s : State) (worker : ℕ) (p : Policy) (triggered reconcile : Bool) :
    (compareAndSet s worker p triggered reconcile).resources = s.resources := by
  unfold compareAndSet
  split <;> rfl

/-- An action sets a flag, or leaves a SLURM transaction to do, or does nothing to the resources. -/
theorem runAction_cases (s : State) (p : Policy) (usage : ℕ → ℚ) (a : ActionName) :
    (∃ f, runAction s p usage a = (applyGenericAction s p f true [], [])) ∨
      (∃ f values, p.cls = .slurmPeriodicUsage ∧ runAction s p usage a = (s, [.save f values])) ∨
      runAction s p usage a = (s, []) := by
  cases a
  case requestPausing => exact .inl ⟨.paused, rfl⟩
  case requestDownscaling => exact .inl ⟨.downscaled, rfl⟩
  case restrictMembers => exact .inl ⟨.restrictMemberAccess, rfl⟩
  case requestSlurmResourcePausing =>
    by_cases h : p.cls = .slurmPeriodicUsage
    · exact .inr (.inl ⟨_, _, h, if_pos h⟩)
    · exact .inl ⟨.paused, if_neg h⟩
  case requestSlurmResourceDownscaling =>
    by_cases h : p.cls = .slurmPeriodicUsage
    · exact .inr (.inl ⟨_, _, h, if_pos h⟩)
    · exact .inl ⟨.downscaled, if_neg h⟩
  all_goals exact .inr (.inr rfl)

/-- Applying an action with the value `true` clears no flag. -/
theorem get_applyToResource_true (p : Policy) (f g : Flag) (locked : List ℕ) {r : Resource} (h : r.get f = true) :
    (applyToResource p g true locked r).get f = true := by
  unfold applyToResource
  split_ifs
  · exact h
  · exact h
  · by_cases hfg : f = g
    · rw [hfg, get_set_self]
    · rw [get_set_ne r true hfg, h]
  · exact h

/-- What a reset may still clear. -/
def clearable (p : Policy) (f : Flag) (locked : List ℕ) (r : Resource) : Bool :=
  p.inScope r && f.eligible r && r.get f && !locked.contains r.id

/-- A reset clears the flag of what it may clear, and no other. -/
theorem get_applyToResource_false (p : Policy) (f : Flag) (locked : List ℕ) (r : Resource) :
    (applyToResource p f false locked r).get f = (r.get f && !clearable p f locked r) := by
  unfold applyToResource clearable
  cases hsel : (p.inScope r && f.eligible r) <;> cases hget : r.get f <;> cases hlocked : locked.contains r.id <;>
    simp [hget]

theorem get_applyToResource_ne (p : Policy) {f g : Flag} (hfg : f ≠ g) (v : Bool) (locked : List ℕ) (r : Resource) :
    (applyToResource p g v locked r).get f = r.get f := by
  unfold applyToResource
  split_ifs <;> first | rfl | exact get_set_ne r v hfg

theorem get_saveToResource (f : Flag) (values : List (ℕ × Bool)) (r : Resource) :
    (saveToResource f values r).get f = (values.lookup r.id).getD (r.get f) := by
  unfold saveToResource
  cases values.lookup r.id <;> simp

theorem get_saveToResource_ne {f g : Flag} (hfg : f ≠ g) (values : List (ℕ × Bool)) (r : Resource) :
    (saveToResource g values r).get f = r.get f := by
  unfold saveToResource
  split
  · exact get_set_ne r _ hfg
  · rfl

/-! ### The flags that fired cost policies hold -/

/-- A fired cost policy that carries the request action has the resource in its scope. -/
def held (s : State) (f : Flag) (r : Resource) : Bool :=
  s.policies.rows.any fun p => p.wantsKept f && p.inScope r

/-- The step clears no flag that a fired cost policy holds. -/
def NoneLifted (f : Flag) (s : State) (op : Op) : Prop :=
  ∀ r ∈ s.resources.rows, r.get f = true → held s f r = true →
    ∀ r', (step s op).resources.get? r.id = some r' → r'.get f = true

/-- The branch of a SLURM evaluation that clears the flag. -/
def evaluationClears (p : Policy) (usage : ℚ) (r : Resource) : Flag → Bool
  | .paused => r.paused && decide (usage < p.graceLimit) && !pauseNeeded p r usage
  | .downscaled => r.downscaled && decide (usage < 100) && !downscaleNeeded p usage
  | .restrictMemberAccess => false

/-- The lock-out is respected by a step: a reset is written while its policy has not fired again, or has
nothing left to clear, and while the lock-out set it has read is complete; a SLURM evaluation or action
comes to its clearing branch only for resources that no fired cost policy holds. -/
def LockOutRespected (f : Flag) (s : State) : Op → Prop
  | .act worker _ =>
    match s.nextTask worker with
    | some (p, .clear g locked, _) => g = f →
      (p.wantsKept f = true → ∀ r ∈ s.resources.rows, clearable p f locked r = false) ∧
        ∀ r ∈ s.resources.rows, clearable p f locked r = true → r.id ∉ lockedByOtherPolicies s p.key f
    | some (_, .save g values, _) => g = f →
      ∀ r ∈ s.resources.rows, r.get f = true → values.lookup r.id = some false → held s f r = false
    | _ => True
  | .evaluateResource policy resource reading =>
    ∀ p r, s.policies.get? (.slurmPeriodicUsage, policy) = some p → s.resources.get? resource = some r →
      evaluationClears p (reading.usage r.id) r f = true → held s f r = false
  | _ => True

section Step

variable {f : Flag} {s : State} {op : Op}

theorem noneLifted_of_resources (h : (step s op).resources = s.resources) : NoneLifted f s op := by
  intro r hr hget _ r' hr'
  rw [h, Table.get?_eq_some.mpr ⟨hr, rfl⟩] at hr'
  obtain rfl := Option.some.inj hr'
  exact hget

/-- A step that rewrites every resource lifts nothing where the held flags survive. -/
theorem noneLifted_mapRows {g : Resource → Resource} {hg : ∀ r, (g r).id = r.id}
    (h : (step s op).resources = s.resources.mapRows g hg) :
    NoneLifted f s op ↔ ∀ r ∈ s.resources.rows, r.get f = true → held s f r = true → (g r).get f = true := by
  refine forall₂_congr fun r hr => forall₂_congr fun _ _ => ?_
  rw [h, Table.get?_mapRows, Table.get?_eq_some.mpr ⟨hr, rfl⟩]
  exact ⟨fun h' => h' _ rfl, fun h' r' hr' => by obtain rfl := Option.some.inj hr'; exact h'⟩

theorem nextTask_policy {worker : ℕ} {p : Policy} {task : Task} {tasks : List Task}
    (h : s.nextTask worker = some (p, task, tasks)) : s.policies.get? p.key = some p := by
  unfold State.nextTask at h
  split at h
  · obtain ⟨p', hp', heq⟩ := Option.map_eq_some_iff.mp h
    obtain ⟨rfl, -⟩ := Prod.mk.inj heq
    rw [(Table.get?_eq_some.mp hp').2]
    exact hp'
  · cases h

theorem mem_lockedByOtherPolicies {policy : PolicyKey} {r : Resource} (hr : r ∈ s.resources.rows)
    (hget : r.get f = true) :
    r.id ∈ lockedByOtherPolicies s policy f ↔
      ∃ other ∈ s.policies.rows, other.key ≠ policy ∧ other.wantsKept f = true ∧ other.inScope r = true := by
  unfold lockedByOtherPolicies
  simp only [List.mem_map, List.mem_filter, Bool.and_eq_true, List.any_eq_true, bne_iff_ne]
  constructor
  · rintro ⟨r', ⟨hr', -, other, hmem, ⟨hne, hwants⟩, hscope⟩, hid⟩
    obtain rfl := s.resources.eq_of_key_eq hr' hr hid
    exact ⟨other, hmem, hne, hwants, hscope⟩
  · rintro ⟨other, hmem, hne, hwants, hscope⟩
    exact ⟨r, ⟨hr, hget, other, hmem, ⟨hne, hwants⟩, hscope⟩, rfl⟩

/-- A resource in the scope of a policy is held by that policy or by another. -/
theorem held_iff {p : Policy} (hp : s.policies.get? p.key = some p) {r : Resource} (hr : r ∈ s.resources.rows)
    (hget : r.get f = true) (hscope : p.inScope r = true) :
    held s f r = true ↔ p.wantsKept f = true ∨ r.id ∈ lockedByOtherPolicies s p.key f := by
  have hmem := (Table.get?_eq_some.mp hp).1
  rw [mem_lockedByOtherPolicies hr hget]
  simp only [held, List.any_eq_true, Bool.and_eq_true]
  constructor
  · rintro ⟨q, hq, hwants, hqscope⟩
    by_cases hkey : q.key = p.key
    · obtain rfl := s.policies.eq_of_key_eq hq hmem hkey
      exact .inl hwants
    · exact .inr ⟨q, hq, hkey, hwants, hqscope⟩
  · rintro (hwants | ⟨q, hq, -, hwants, hqscope⟩)
    · exact ⟨p, hmem, hwants, hscope⟩
    · exact ⟨q, hq, hwants, hqscope⟩

/-- A reset is written under the lock-out exactly when it clears nothing that is held. -/
theorem noneLifted_clear {worker : ℕ} {usage : ℕ → ℚ} {p : Policy} {locked : List ℕ} {tasks : List Task}
    (h : s.nextTask worker = some (p, .clear f locked, tasks)) :
    NoneLifted f s (.act worker usage) ↔ LockOutRespected f s (.act worker usage) := by
  have hstep : (step s (.act worker usage)).resources =
      s.resources.mapRows (applyToResource p f false locked) (by simp) := by
    simp only [step, h, execute]
    rfl
  have hp := nextTask_policy h
  rw [noneLifted_mapRows hstep]
  simp only [LockOutRespected, h, forall_const]
  have hclears : ∀ r ∈ s.resources.rows, r.get f = true → (held s f r = true →
      (applyToResource p f false locked r).get f = true) →
      clearable p f locked r = true → ¬ p.wantsKept f = true ∧ r.id ∉ lockedByOtherPolicies s p.key f := by
    intro r hr hget hkept hclear
    have hscope : p.inScope r = true := by
      simp only [clearable, Bool.and_eq_true] at hclear
      exact hclear.1.1.1
    have hnot : ¬ held s f r = true := fun hheld => by
      have := hkept hheld
      rw [get_applyToResource_false, hclear, Bool.not_true, Bool.and_false] at this
      cases this
    rw [held_iff hp hr hget hscope, not_or] at hnot
    exact hnot
  constructor
  · intro hkept
    refine ⟨fun hwants r hr => ?_, fun r hr hclear => ?_⟩
    · by_contra hclear
      rw [Bool.not_eq_false] at hclear
      have hget : r.get f = true := by
        simp only [clearable, Bool.and_eq_true] at hclear
        exact hclear.1.2
      exact (hclears r hr hget (hkept r hr hget) hclear).1 hwants
    · have hget : r.get f = true := by
        simp only [clearable, Bool.and_eq_true] at hclear
        exact hclear.1.2
      exact (hclears r hr hget (hkept r hr hget) hclear).2
  · rintro ⟨hrefired, hlocked⟩ r hr hget hheld
    rw [get_applyToResource_false, hget, Bool.true_and, Bool.not_eq_true']
    by_contra hclear
    rw [Bool.not_eq_false] at hclear
    have hscope : p.inScope r = true := by
      simp only [clearable, Bool.and_eq_true] at hclear
      exact hclear.1.1.1
    rcases (held_iff hp hr hget hscope).mp hheld with hwants | hmem
    · rw [hrefired hwants r hr] at hclear
      cases hclear
    · exact hlocked r hr hclear hmem

/-- A SLURM transaction lifts nothing exactly when what it clears is not held. -/
theorem noneLifted_save {worker : ℕ} {usage : ℕ → ℚ} {p : Policy} {values : List (ℕ × Bool)} {tasks : List Task}
    (h : s.nextTask worker = some (p, .save f values, tasks)) :
    NoneLifted f s (.act worker usage) ↔ LockOutRespected f s (.act worker usage) := by
  have hstep : (step s (.act worker usage)).resources = s.resources.mapRows (saveToResource f values) (by simp) := by
    simp only [step, h, execute]
    rfl
  rw [noneLifted_mapRows hstep]
  simp only [LockOutRespected, h, forall_const]
  refine forall₂_congr fun r hr => forall_congr' fun hget => ?_
  rw [get_saveToResource, hget]
  cases values.lookup r.id with
  | none => simp
  | some v => cases v <;> simp

/-- A flag that is set before a SLURM evaluation is cleared in its clearing branch and nowhere else. -/
theorem get_evaluated (p : Policy) (usage : ℚ) {r : Resource} (hget : r.get f = true) :
    Resource.get { r with
      paused := evaluatedPaused p usage r
      downscaled := evaluatedDownscaled p usage r } f = !evaluationClears p usage r f := by
  cases f with
  | paused =>
    have hpaused : r.paused = true := hget
    simp only [Resource.get, evaluatedPaused, evaluationClears, hpaused, Bool.true_and, true_and]
    by_cases hneeded : pauseNeeded p r usage = true
    · simp [hneeded]
    · have hgrace : r.inLifecycleGrace = false := by
        simp only [pauseNeeded, Bool.or_eq_true, not_or] at hneeded
        exact Bool.eq_false_iff.mpr hneeded.2
      by_cases hlt : usage < p.graceLimit <;> simp [hneeded, hgrace, hlt]
  | downscaled =>
    have hdown : r.downscaled = true := hget
    simp only [Resource.get, evaluatedDownscaled, evaluationClears, hdown, Bool.true_and, true_and]
    by_cases hneeded : downscaleNeeded p usage = true
    · simp [hneeded]
    · by_cases hlt : usage < 100 <;> simp [hneeded, hlt]
  | restrictMemberAccess => exact hget

/-- A SLURM evaluation lifts nothing exactly when it does not clear what is held. -/
theorem noneLifted_evaluateResource {policy resource : ℕ} {reading : Reading} :
    NoneLifted f s (.evaluateResource policy resource reading) ↔
      LockOutRespected f s (.evaluateResource policy resource reading) := by
  simp only [LockOutRespected]
  cases hp : s.policies.get? (.slurmPeriodicUsage, policy) with
  | none =>
    refine iff_of_true (noneLifted_of_resources ?_) (fun _ _ h => nomatch h)
    simp only [step, hp]
  | some p =>
  cases hr₀ : s.resources.get? resource with
  | none =>
    refine iff_of_true (noneLifted_of_resources ?_) (fun _ _ _ h => nomatch h)
    simp only [step, hp, hr₀]
  | some r₀ =>
  obtain ⟨hmem, rfl⟩ := Table.get?_eq_some.mp hr₀
  have hstep : (step s (.evaluateResource policy r₀.id reading)).resources =
      s.resources.update r₀.id (fun r => { r with
        paused := evaluatedPaused p (reading.usage r.id) r
        downscaled := evaluatedDownscaled p (reading.usage r.id) r }) (fun _ => rfl) := by
    simp only [step, hp, hr₀]
    rfl
  constructor
  · intro hkept p' r' hp' hr' hclears
    obtain rfl := Option.some.inj hp'
    obtain rfl := Option.some.inj hr'
    have hget : r₀.get f = true := by
      cases f <;> simp only [evaluationClears, Bool.and_eq_true, Bool.false_eq_true] at hclears <;>
        exact hclears.1.1
    refine Bool.eq_false_iff.mpr fun hheld => ?_
    have hafter := hkept r₀ hmem hget hheld _ (by rw [hstep, Table.get?_update_self, hr₀]; rfl)
    rw [get_evaluated p _ hget, hclears] at hafter
    cases hafter
  · intro hrespected r hr hget hheld r' hr'
    by_cases hid : r.id = r₀.id
    · obtain rfl := s.resources.eq_of_key_eq hr hmem hid
      rw [hstep, Table.get?_update_self, hr₀] at hr'
      obtain rfl := Option.some.inj hr'
      rw [get_evaluated p _ hget, Bool.not_eq_true']
      refine Bool.eq_false_iff.mpr fun hclears => ?_
      rw [hrespected p r rfl rfl hclears] at hheld
      cases hheld
    · rw [hstep, Table.get?_update_ne _ _ _ hid, Table.get?_eq_some.mpr ⟨hr, rfl⟩] at hr'
      obtain rfl := Option.some.inj hr'
      exact hget

/-- Running an action clears no flag. -/
theorem noneLifted_run {worker : ℕ} {usage : ℕ → ℚ} {p : Policy} {a : ActionName} {tasks : List Task}
    (h : s.nextTask worker = some (p, .run a, tasks)) : NoneLifted f s (.act worker usage) := by
  rcases runAction_cases s p usage a with ⟨g, hrun⟩ | ⟨g, values, -, hrun⟩ | hrun
  · have hstep : (step s (.act worker usage)).resources =
        s.resources.mapRows (applyToResource p g true []) (by simp) := by
      simp only [step, h, execute, hrun]
      rfl
    exact (noneLifted_mapRows hstep).mpr fun r _ hget _ => get_applyToResource_true p f g [] hget
  · exact noneLifted_of_resources (by simp only [step, h, execute, hrun]; rfl)
  · exact noneLifted_of_resources (by simp only [step, h, execute, hrun]; rfl)

/-- One step, by the kind of step. -/
theorem noneLifted_iff_lockOutRespected (f : Flag) (s : State) (op : Op) :
    NoneLifted f s op ↔ LockOutRespected f s op := by
  cases op with
  | read worker policy triggered reconcile =>
    refine iff_of_true (noneLifted_of_resources ?_) trivial
    simp only [step]
    split <;> rfl
  | compareAndSet worker =>
    refine iff_of_true (noneLifted_of_resources ?_) trivial
    simp only [step]
    split
    · split
      · exact resources_compareAndSet s worker _ _ _
      · rfl
    · rfl
  | evaluateResource policy resource reading => exact noneLifted_evaluateResource
  | act worker usage =>
    match hnext : s.nextTask worker with
    | none =>
      refine iff_of_true (noneLifted_of_resources ?_) ?_
      · simp only [step, hnext]
      · simp only [LockOutRespected, hnext]
    | some (p, .run a, tasks) =>
      refine iff_of_true (noneLifted_run hnext) ?_
      simp only [LockOutRespected, hnext]
    | some (p, .reset a, tasks) =>
      refine iff_of_true (noneLifted_of_resources ?_) ?_
      · simp only [step, hnext, execute]
        split <;> rfl
      · simp only [LockOutRespected, hnext]
    | some (p, .clear g locked, tasks) =>
      by_cases hg : g = f
      · subst hg
        exact noneLifted_clear hnext
      · have hstep : (step s (.act worker usage)).resources =
            s.resources.mapRows (applyToResource p g false locked) (by simp) := by
          simp only [step, hnext, execute]
          rfl
        refine iff_of_true ((noneLifted_mapRows hstep).mpr fun r _ hget _ => ?_) ?_
        · rw [get_applyToResource_ne p (Ne.symm hg), hget]
        · simp only [LockOutRespected, hnext]
          exact fun h => absurd h hg
    | some (p, .save g values, tasks) =>
      by_cases hg : g = f
      · subst hg
        exact noneLifted_save hnext
      · have hstep : (step s (.act worker usage)).resources =
            s.resources.mapRows (saveToResource g values) (by simp) := by
          simp only [step, hnext, execute]
          rfl
        refine iff_of_true ((noneLifted_mapRows hstep).mpr fun r _ hget _ => ?_) ?_
        · rw [get_saveToResource_ne (Ne.symm hg), hget]
        · simp only [LockOutRespected, hnext]
          exact fun h => absurd h hg

end Step

section Example

/-- A project cost policy that pauses, and the SLURM policy of the offering its resource belongs to. -/
def pausingAndSlurm : State where
  policies :=
    ⟨[{ cls := .projectEstimatedCost, pk := 1, scope := 1, actions := [.requestPausing] },
      { cls := .slurmPeriodicUsage, pk := 1, scope := 1, actions := [.requestSlurmResourcePausing],
        graceRatio := 1 / 5 }], by decide⟩
  resources := ⟨[{ id := 1, project := ⟨1, 1, false⟩, offering := { id := 1, supportsPausing := true } }], by decide⟩
  workers := ⟨[{ id := 1 }], by decide⟩

/-- The cost policy fires and pauses the resource; then the resource reports no usage. -/
def pausedThenEvaluated : List Op :=
  [.read 1 (.projectEstimatedCost, 1) true false, .compareAndSet 1, .act 1 (fun _ => 0),
    .evaluateResource 1 1 { usage := fun _ => 0 }]

end Example

end Waldur.Policies
