import Mathlib
import Waldur.Policies.Workers

/-!
# Policies.Orphans — a restriction outlives the fire that made it

The flags of a resource that only one policy ever set, through any interleaving of the workers that
evaluate the policy.  The invariant: a set flag has a fired policy behind it or a reset of it before it.
-/

namespace Waldur.Policies

open Relational Runs

/-! ### What the tasks of a cost policy do to one resource -/

section Resource

@[simp] theorem inScope_applyToResource (q p : Policy) (f : Flag) (v : Bool) (locked : List ℕ) (r : Resource) :
    q.inScope (applyToResource p f v locked r) = q.inScope r := by
  unfold applyToResource
  split_ifs <;> simp

@[simp] theorem eligible_applyToResource (g : Flag) (p : Policy) (f : Flag) (v : Bool) (locked : List ℕ)
    (r : Resource) : g.eligible (applyToResource p f v locked r) = g.eligible r := by
  unfold applyToResource
  split_ifs <;> simp

/-- What a request sets is in the scope of its policy and eligible. -/
theorem of_get_applyToResource_true {p : Policy} {f : Flag} {locked : List ℕ} {r : Resource}
    (h : (applyToResource p f true locked r).get f = true) :
    r.get f = true ∨ (p.inScope r = true ∧ f.eligible r = true ∧ r.get f = false) := by
  by_cases hget : r.get f = true
  · exact .inl hget
  · refine .inr ?_
    unfold applyToResource at h
    split_ifs at h with hsel
    · exact absurd h hget
    · cases ‹(true == false && _) = true›
    · rw [Bool.and_eq_true] at hsel
      exact ⟨hsel.1, hsel.2, Bool.eq_false_iff.mpr hget⟩
    · exact absurd h hget

/-- The SLURM actions are not available to a cost policy. -/
theorem slurm_unavailable {c : PolicyClass} (h : c.isCost = true) :
    .requestSlurmResourcePausing ∉ c.availableActions ∧ .requestSlurmResourceDownscaling ∉ c.availableActions := by
  revert h
  cases c <;> decide

/-- An immediate action of a cost policy sets the flag it requests, or leaves the resources alone. -/
theorem runAction_of_cost {p : Policy} (hcost : p.cls.isCost = true) {a : ActionName}
    (ha : a ∈ p.getImmediateActions) (s : State) (usage : ℕ → ℚ) :
    (∃ f : Flag, a = f.requestAction ∧ runAction s p usage a = (applyGenericAction s p f true [], [])) ∨
      runAction s p usage a = (s, []) := by
  have havailable : a ∈ p.cls.availableActions := by
    simp only [Policy.getImmediateActions, Policy.getAllActions, List.mem_filter, List.contains_iff_mem] at ha
    exact ha.1.2
  cases a
  case requestPausing => exact .inl ⟨.paused, rfl, rfl⟩
  case requestDownscaling => exact .inl ⟨.downscaled, rfl, rfl⟩
  case restrictMembers => exact .inl ⟨.restrictMemberAccess, rfl, rfl⟩
  case requestSlurmResourcePausing => exact absurd havailable (slurm_unavailable hcost).1
  case requestSlurmResourceDownscaling => exact absurd havailable (slurm_unavailable hcost).2
  all_goals exact .inr rfl

/-- The request of a flag is run immediately, so a reset of the policy comes to it. -/
theorem reset_mem_resetTasks {p : Policy} {f : Flag} (h : f.requestAction ∈ p.getImmediateActions) :
    Task.reset f.requestAction ∈ p.resetTasks :=
  List.mem_map_of_mem (List.mem_filter.mpr ⟨List.mem_append_left _ h, by simp⟩)

end Resource

/-! ### Resets that are still to be done -/

section Pending

variable {f : Flag} {s : State} {worker : ℕ} {w : Worker} {phase : Phase}

theorem resetPending_of_mem (hw : s.workers.get? worker = some w) {t : Task} (ht : t ∈ phase.tasks)
    (hresets : t.resets f = true) : ResetPending f (s.setPhase worker phase) :=
  ⟨{ w with phase := phase },
    mem_workers_setPhase.mpr ⟨w, (Table.get?_eq_some.mp hw).1, (if_pos (Table.get?_eq_some.mp hw).2).symm⟩,
    t, ht, hresets⟩

/-- A pending reset stays pending while its worker does not lose it. -/
theorem resetPending_setPhase (hw : s.workers.get? worker = some w)
    (hkeeps : ∀ t ∈ w.phase.tasks, t.resets f = true → ∃ t' ∈ phase.tasks, t'.resets f = true)
    (h : ResetPending f s) : ResetPending f (s.setPhase worker phase) := by
  obtain ⟨w', hw', t, ht, hresets⟩ := h
  by_cases hid : w'.id = worker
  · obtain rfl : w' = w := s.workers.eq_of_key_eq hw' (Table.get?_eq_some.mp hw).1
      (hid.trans (Table.get?_eq_some.mp hw).2.symm)
    obtain ⟨t', ht', hresets'⟩ := hkeeps t ht hresets
    exact resetPending_of_mem hw ht' hresets'
  · exact ⟨w', mem_workers_setPhase.mpr ⟨w', hw', (if_neg hid).symm⟩, t, ht, hresets⟩

end Pending

/-! ### The invariant -/

/-- A task that an evaluation of the policy leaves to do. -/
def OwnTask (f : Flag) (P : Policy) (resource : ℕ) : Task → Prop
  | .run action => action ∈ P.getImmediateActions
  | .reset _ => True
  | .clear g locked => g = f → resource ∉ locked
  | .save _ _ => False

/-- The state of the evaluations of `P`, as far as it concerns one flag of one resource. -/
structure Accounted (f : Flag) (P : Policy) (r₀ : Resource) (s : State) : Prop where
  row : RowOf P s
  unheld : HeldByNoOther f P.key s r₀
  policy : ∀ w ∈ s.workers.rows, ∀ k, w.phase.policy? = some k → k = P.key
  own : ∀ w ∈ s.workers.rows, ∀ t ∈ w.phase.tasks, OwnTask f P r₀.id t
  same : ∀ r, s.resources.get? r₀.id = some r → (∀ q : Policy, q.inScope r = q.inScope r₀) ∧
    f.eligible r = f.eligible r₀
  kept : ∀ r, s.resources.get? r₀.id = some r → r.get f = true →
    P.inScope r₀ = true ∧ f.eligible r₀ = true ∧ f.requestAction ∈ P.getImmediateActions ∧
      (fired s P.key = true ∨ ResetPending f s)

theorem accounted_of_initial {f : Flag} {P : Policy} {r₀ : Resource} {s : State} (hinit : s.Initial)
    (hP : s.policies.get? P.key = some P) (hr₀ : r₀ ∈ s.resources.rows) (hget : r₀.get f = false)
    (hother : HeldByNoOther f P.key s r₀) : Accounted f P r₀ s where
  row := rowOf_of_get? hP
  unheld := hother
  policy w hw k hk := by rw [hinit.1 w hw] at hk; cases hk
  own w hw t ht := by rw [hinit.1 w hw] at ht; cases ht
  same r hr := by
    rw [Table.get?_eq_some.mpr ⟨hr₀, rfl⟩] at hr
    obtain rfl := Option.some.inj hr
    exact ⟨fun _ => rfl, rfl⟩
  kept r hr hset := by
    rw [Table.get?_eq_some.mpr ⟨hr₀, rfl⟩] at hr
    obtain rfl := Option.some.inj hr
    rw [hget] at hset
    cases hset

section Step

variable {f : Flag} {P : Policy} {r₀ : Resource} {s s' : State} {worker : ℕ} {w : Worker} {phase : Phase} {op : Op}

/-- The policy a worker is at is `P`, up to `has_fired`. -/
theorem eq_withFired (h : Accounted f P r₀ s) {p : Policy} (hw : s.workers.get? worker = some w)
    (hpolicy : w.phase.policy? = some p.key) (hp : s.policies.get? p.key = some p) : ∃ b, p = P.withFired b := by
  obtain ⟨b, hb⟩ := h.row
  have hkey : p.key = P.key := h.policy w (Table.get?_eq_some.mp hw).1 p.key hpolicy
  rw [hkey, hb] at hp
  exact ⟨b, (Option.some.inj hp).symm⟩

/-- A worker goes on to another phase: what it has to do is its policy's, and it loses no reset of the flag
unless the flag is cleared. -/
theorem accounted_setPhase (h : Accounted f P r₀ s) (hw : s.workers.get? worker = some w)
    (hpolicy : ∀ k, phase.policy? = some k → k = P.key) (hown : ∀ t ∈ phase.tasks, OwnTask f P r₀.id t)
    (hkeeps : (∀ t ∈ w.phase.tasks, t.resets f = true → ∃ t' ∈ phase.tasks, t'.resets f = true) ∨
      ∀ r, s.resources.get? r₀.id = some r → r.get f = false) :
    Accounted f P r₀ (s.setPhase worker phase) where
  row := h.row
  unheld := h.unheld
  policy w' hw' k hk := by
    obtain ⟨w'', hw'', rfl⟩ := mem_workers_setPhase.mp hw'
    split at hk
    · exact hpolicy k hk
    · exact h.policy w'' hw'' k hk
  own w' hw' t ht := by
    obtain ⟨w'', hw'', rfl⟩ := mem_workers_setPhase.mp hw'
    split at ht
    · exact hown t ht
    · exact h.own w'' hw'' t ht
  same := h.same
  kept r hr hset := by
    obtain ⟨hscope, heligible, haction, hbehind⟩ := h.kept r hr hset
    refine ⟨hscope, heligible, haction, ?_⟩
    rcases hkeeps with hkeeps | hclear
    · exact hbehind.imp_right (resetPending_setPhase hw hkeeps)
    · rw [hclear r hr] at hset
      cases hset

theorem unheld_setFired (h : HeldByNoOther f P.key s r₀) (b : Bool) :
    HeldByNoOther f P.key (s.setFired P.key b) r₀ := by
  intro q hq hne hwants
  have hget := Table.get?_eq_some.mpr ⟨hq, rfl⟩
  rw [get?_setFired_ne hne] at hget
  exact h q (Table.get?_eq_some.mp hget).1 hne hwants

/-- The policy fires, or is reset by a worker that has the reset of the flag to do. -/
theorem accounted_setFired (h : Accounted f P r₀ s) (hw : s.workers.get? worker = some w)
    {b : Bool} {tasks : List Task} (hown : ∀ t ∈ tasks, OwnTask f P r₀.id t)
    (hbehind : f.requestAction ∈ P.getImmediateActions → b = true ∨ ∃ t ∈ tasks, t.resets f = true) :
    Accounted f P r₀ ((s.setFired P.key b).setPhase worker (.ofTasks P.key tasks)) := by
  obtain ⟨b', hb'⟩ := h.row
  have hw' : (s.setFired P.key b).workers.get? worker = some w := hw
  refine ⟨rowOf_setFired h.row P.key b, unheld_setFired h.unheld b, fun w' hw'' k hk => ?_, fun w' hw'' t ht => ?_,
    h.same, fun r hr hset => ?_⟩
  · obtain ⟨w₀, hw₀, rfl⟩ := mem_workers_setPhase.mp hw''
    split at hk
    · exact policy?_ofTasks hk
    · exact h.policy w₀ hw₀ k hk
  · obtain ⟨w₀, hw₀, rfl⟩ := mem_workers_setPhase.mp hw''
    split at ht
    · rw [tasks_ofTasks] at ht
      exact hown t ht
    · exact h.own w₀ hw₀ t ht
  · obtain ⟨hscope, heligible, haction, -⟩ := h.kept r hr hset
    refine ⟨hscope, heligible, haction, ?_⟩
    rcases hbehind haction with rfl | ⟨t, ht, hresets⟩
    · have hrow := get?_setFired_self (b := true) hb'
      have hfired : fired (s.setFired P.key true) P.key = true := by
        rw [fired, hrow]
        rfl
      exact .inl hfired
    · exact .inr (resetPending_of_mem hw' (by rwa [tasks_ofTasks]) hresets)

/-- A task that rewrites the resources: a flag it sets has a fired policy or a pending reset behind it. -/
theorem accounted_mapRows (h : Accounted f P r₀ s) (hpolicies : s'.policies = s.policies)
    (hworkers : s'.workers = s.workers) {g : Resource → Resource} {hg : ∀ r, (g r).id = r.id}
    (hresources : s'.resources = s.resources.mapRows g hg) (hscope : ∀ (q : Policy) r, q.inScope (g r) = q.inScope r)
    (heligible : ∀ r, f.eligible (g r) = f.eligible r)
    (hset : ∀ r, s.resources.get? r₀.id = some r → (g r).get f = true → r.get f = true ∨
      (P.inScope r = true ∧ f.eligible r = true ∧ f.requestAction ∈ P.getImmediateActions ∧
        (fired s P.key = true ∨ ResetPending f s))) : Accounted f P r₀ s' := by
  have hresource : ∀ r', s'.resources.get? r₀.id = some r' → ∃ r, s.resources.get? r₀.id = some r ∧ r' = g r := by
    intro r' hr'
    rw [hresources, Table.get?_mapRows] at hr'
    obtain ⟨r, hr, rfl⟩ := Option.map_eq_some_iff.mp hr'
    exact ⟨r, hr, rfl⟩
  have hbehind : fired s P.key = true ∨ ResetPending f s → fired s' P.key = true ∨ ResetPending f s' := by
    unfold fired ResetPending
    rw [hpolicies, hworkers]
    exact id
  refine ⟨?_, ?_, ?_, ?_, fun r' hr' => ?_, fun r' hr' hget => ?_⟩
  · unfold RowOf
    rw [hpolicies]
    exact h.row
  · unfold HeldByNoOther
    rw [hpolicies]
    exact h.unheld
  · rw [hworkers]
    exact h.policy
  · rw [hworkers]
    exact h.own
  · obtain ⟨r, hr, rfl⟩ := hresource r' hr'
    obtain ⟨hscopes, helig⟩ := h.same r hr
    exact ⟨fun q => (hscope q r).trans (hscopes q), (heligible r).trans helig⟩
  · obtain ⟨r, hr, rfl⟩ := hresource r' hr'
    rcases hset r hr hget with hold | ⟨hin, helig, haction, hnew⟩
    · obtain ⟨hin, helig, haction, hold⟩ := h.kept r hr hold
      exact ⟨hin, helig, haction, hbehind hold⟩
    · obtain ⟨hscopes, heq⟩ := h.same r hr
      exact ⟨hscopes P ▸ hin, heq ▸ helig, haction, hbehind hnew⟩

/-- The resources after a request that runs in time. -/
theorem accounted_run (h : Accounted f P r₀ s) (hcost : P.cls.isCost = true) {usage : ℕ → ℚ} {b : Bool}
    {a : ActionName} {tasks : List Task} (hnext : s.nextTask worker = some (P.withFired b, .run a, tasks))
    (ha : a ∈ P.getImmediateActions) (hintime : RestrictsInTime f P.key r₀.id s (.act worker usage)) :
    Accounted f P r₀ (execute s (P.withFired b) usage (.run a)).1 := by
  obtain ⟨hworkers, hpolicies⟩ := execute_frame s (P.withFired b) usage (.run a)
  rcases runAction_of_cost (p := P.withFired b) hcost ha s usage with ⟨g, rfl, hrun⟩ | hrun
  · have hresources : (execute s (P.withFired b) usage (.run g.requestAction)).1.resources =
        s.resources.mapRows (applyToResource (P.withFired b) g true []) (by simp) := by
      simp only [execute, hrun]
      rfl
    refine accounted_mapRows h hpolicies hworkers hresources (by simp) (by simp) fun r hr hget => ?_
    by_cases hg : f = g
    · subst hg
      rcases of_get_applyToResource_true hget with hold | ⟨hscope, heligible, hclear⟩
      · exact .inl hold
      · simp only [RestrictsInTime, hnext] at hintime
        exact .inr ⟨hscope, heligible, ha, hintime trivial r hr hscope heligible hclear⟩
    · rw [get_applyToResource_ne _ hg] at hget
      exact .inl hget
  · have hresources : (execute s (P.withFired b) usage (.run a)).1.resources =
        s.resources.mapRows id (fun _ => rfl) := by
      simp only [execute, hrun]
      exact Table.ext (List.map_id _).symm
    exact accounted_mapRows h hpolicies hworkers hresources (fun _ _ => rfl) (fun _ => rfl) fun r _ hget => .inl hget

/-- The lock-out set of a reset leaves out the resource. -/
theorem not_mem_locked (h : Accounted f P r₀ s) : r₀.id ∉ lockedByOtherPolicies s P.key f := by
  intro hlocked
  simp only [lockedByOtherPolicies, List.mem_map, List.mem_filter, Bool.and_eq_true, List.any_eq_true,
    bne_iff_ne] at hlocked
  obtain ⟨r, ⟨hr, -, q, hq, ⟨hne, hwants⟩, hscope⟩, hid⟩ := hlocked
  have hsame := (h.same r (Table.get?_eq_some.mpr ⟨hr, hid⟩)).1 q
  rw [hscope, h.unheld q hq hne hwants] at hsame
  cases hsame

/-- A reset that is written clears the flag of the resource. -/
theorem cleared_of_accounted (h : Accounted f P r₀ s) {locked : List ℕ} (hlocked : r₀.id ∉ locked) {b : Bool}
    {r : Resource} (hr : s.resources.get? r₀.id = some r) :
    (applyToResource (P.withFired b) f false locked r).get f = false := by
  rw [get_applyToResource_false]
  by_cases hset : r.get f = true
  · obtain ⟨hscope, heligible, -, -⟩ := h.kept r hr hset
    obtain ⟨hscopes, helig⟩ := h.same r hr
    have hclear : clearable (P.withFired b) f locked r = true := by
      have hout : locked.contains r.id = false := by
        rw [(Table.get?_eq_some.mp hr).2]
        exact Bool.eq_false_iff.mpr fun hin => hlocked (List.contains_iff_mem.mp hin)
      rw [clearable, inScope_withFired, hscopes P, hscope, helig, heligible, hset, hout]
      rfl
    rw [hclear, Bool.not_true, Bool.and_false]
  · rw [Bool.eq_false_iff.mpr hset, Bool.false_and]

/-- The next task of a worker. -/
theorem accounted_act (h : Accounted f P r₀ s) (hcost : P.cls.isCost = true) {usage : ℕ → ℚ} {p : Policy}
    {task : Task} {tasks : List Task} (hw : s.workers.get? worker = some w)
    (hphase : w.phase = .acting p.key (task :: tasks)) (hp : s.policies.get? p.key = some p)
    (hintime : RestrictsInTime f P.key r₀.id s (.act worker usage)) :
    Accounted f P r₀ ((execute s p usage task).1.setPhase worker
      (.ofTasks p.key ((execute s p usage task).2 ++ tasks))) := by
  have hmem := (Table.get?_eq_some.mp hw).1
  obtain ⟨b, rfl⟩ := eq_withFired h hw (by rw [hphase]; rfl) hp
  have hnext := nextTask_eq_some.mpr ⟨w, hw, hphase, hp⟩
  have hown : ∀ t ∈ task :: tasks, OwnTask f P r₀.id t := fun t ht => h.own w hmem t (by rw [hphase]; exact ht)
  have htask := hown task List.mem_cons_self
  have hrest : ∀ t ∈ tasks, OwnTask f P r₀.id t := fun t ht => hown t (List.mem_cons_of_mem task ht)
  obtain ⟨hworkers, hpolicies⟩ := execute_frame s (P.withFired b) usage task
  have hw' : (execute s (P.withFired b) usage task).1.workers.get? worker = some w := by rw [hworkers, hw]
  -- the tasks behind the first stay, so a reset can only be lost at the head
  have hkeeps : ∀ ts, (task.resets f = true → ∃ t' ∈ ts, t'.resets f = true) →
      ∀ t ∈ w.phase.tasks, t.resets f = true →
        ∃ t' ∈ (Phase.ofTasks P.key (ts ++ tasks)).tasks, t'.resets f = true := by
    intro ts hhead t ht hresets
    rw [tasks_ofTasks]
    rw [hphase] at ht
    rcases List.mem_cons.mp ht with rfl | ht
    · obtain ⟨t', ht', hresets'⟩ := hhead hresets
      exact ⟨t', List.mem_append_left _ ht', hresets'⟩
    · exact ⟨t, List.mem_append_right _ ht, hresets⟩
  cases task with
  | run a =>
    have hnone : (execute s (P.withFired b) usage (.run a)).2 = [] := by
      rcases runAction_of_cost (p := P.withFired b) hcost htask s usage with ⟨g, rfl, hrun⟩ | hrun <;>
        simp only [execute, hrun]
    rw [hnone]
    refine accounted_setPhase (accounted_run h hcost hnext htask hintime) hw' (fun _ => policy?_ofTasks)
      (by rw [tasks_ofTasks]; exact hrest) (.inl (hkeeps [] fun hresets => absurd hresets Bool.false_ne_true))
  | reset a =>
    cases hfield : a.resetField with
    | none =>
      simp only [execute, hfield]
      refine accounted_setPhase h hw (fun _ => policy?_ofTasks) (by rw [tasks_ofTasks]; exact hrest)
        (.inl (hkeeps [] fun hresets => ?_))
      rw [eq_of_beq hresets, resetField_requestAction] at hfield
      cases hfield
    | some g =>
      simp only [execute, hfield]
      refine accounted_setPhase h hw (fun _ => policy?_ofTasks) ?_ (.inl (hkeeps [_] fun hresets => ?_))
      · rw [tasks_ofTasks]
        rintro t (_ | ⟨_, ht⟩)
        · rintro rfl
          have hout : r₀.id ∉ lockedByOtherPolicies s P.key g := not_mem_locked h
          exact hout
        · exact hrest t ht
      · rw [eq_of_beq hresets, resetField_requestAction] at hfield
        obtain rfl := Option.some.inj hfield
        exact ⟨_, List.mem_singleton_self _, beq_self_eq_true f⟩
  | clear g locked =>
    have hresources : (execute s (P.withFired b) usage (.clear g locked)).1.resources =
        s.resources.mapRows (applyToResource (P.withFired b) g false locked) (by simp) := rfl
    have hclear : ∀ r, g = f → s.resources.get? r₀.id = some r →
        (applyToResource (P.withFired b) g false locked r).get f = false := by
      rintro r rfl hr
      exact cleared_of_accounted h (htask rfl) hr
    have hafter : Accounted f P r₀ (execute s (P.withFired b) usage (.clear g locked)).1 := by
      refine accounted_mapRows h hpolicies hworkers hresources (by simp) (by simp) fun r hr hget => .inl ?_
      by_cases hg : f = g
      · rw [hclear r hg.symm hr] at hget
        cases hget
      · rwa [get_applyToResource_ne _ hg] at hget
    refine accounted_setPhase hafter hw' (fun _ => policy?_ofTasks) (by rw [tasks_ofTasks]; exact hrest) ?_
    by_cases hg : g = f
    · refine .inr fun r' hr' => ?_
      rw [hresources, Table.get?_mapRows] at hr'
      obtain ⟨r, hr, rfl⟩ := Option.map_eq_some_iff.mp hr'
      exact hclear r hg hr
    · exact .inl (hkeeps [] fun hresets => absurd (eq_of_beq hresets) hg)
  | save g values => exact htask.elim

/-- One step of the evaluations of `P`, by what it does. -/
theorem accounted_step (hcost : P.cls.isCost = true) (hop : op.Evaluates P.key) (h : Accounted f P r₀ s)
    (hintime : RestrictsInTime f P.key r₀.id s op) : Accounted f P r₀ (step s op) := by
  have ht := transition_step (s := s) hop
  generalize step s op = s' at ht
  cases ht with
  | stutter => exact h
  | @wait worker w phase hw hbefore hafter hpolicy =>
    refine accounted_setPhase h hw hpolicy (by rw [hafter]; nofun) (.inl ?_)
    rw [hbefore]
    nofun
  | @fire worker w p hw hbefore hpolicy hp hfired =>
    obtain ⟨b, rfl⟩ := eq_withFired h hw hpolicy hp
    refine accounted_setFired h hw (fun t ht => ?_) (fun _ => .inl rfl)
    obtain ⟨a, ha, rfl⟩ := List.mem_map.mp ht
    exact ha
  | @reconcile worker w p hw hbefore hpolicy hp hfired =>
    obtain ⟨b, rfl⟩ := eq_withFired h hw hpolicy hp
    refine accounted_setPhase h hw (fun _ => policy?_ofTasks) (fun t ht => ?_) (.inl ?_)
    · rw [tasks_ofTasks] at ht
      obtain ⟨a, ha, rfl⟩ := List.mem_map.mp ht
      exact (List.mem_filter.mp ha).1
    · rw [hbefore]
      nofun
  | @reset worker w p hw hbefore hpolicy hp hfired =>
    obtain ⟨b, rfl⟩ := eq_withFired h hw hpolicy hp
    refine accounted_setFired h hw (fun t ht => ?_) fun haction => .inr ?_
    · obtain ⟨a, -, rfl⟩ := List.mem_map.mp ht
      trivial
    · exact ⟨_, reset_mem_resetTasks haction, beq_self_eq_true _⟩
  | @act worker usage w p task tasks hop hw hphase hp =>
    subst hop
    exact accounted_act h hcost hw hphase hp hintime

/-- In a quiet state a set flag has a fired policy behind it. -/
theorem fired_of_quiet (h : Accounted f P r₀ s) (hquiet : Quiet s) {r : Resource}
    (hr : s.resources.get? r₀.id = some r) (hset : r.get f = true) : fired s P.key = true := by
  obtain ⟨-, -, -, hfired | ⟨w, hw, t, ht, -⟩⟩ := h.kept r hr hset
  · exact hfired
  · rw [hquiet w hw] at ht
    cases ht

end Step

/-! ### The runs -/

theorem pendingRuns_nonneg (s : State) (policy : PolicyKey) (a : ActionName) : 0 ≤ pendingRuns s policy a :=
  List.sum_nonneg fun n hn => by
    obtain ⟨w, -, rfl⟩ := List.mem_map.mp hn
    omega

/-- An action has run once for each rise of `has_fired`, but for what the workers have still to do. -/
theorem ran_add_pending {s : State} {P : Policy} {ops : List Op} (hinit : s.Initial)
    (hP : s.policies.get? P.key = some P) (hops : ∀ op ∈ ops, op.Evaluates P.key) {a : ActionName}
    (ha : a.resetField = none) :
    ((run step s ops).journal.count (P.key, a) : ℤ) + pendingRuns (run step s ops) P.key a =
      rises P.key s ops * P.getImmediateActions.count a := by
  have hran := ran_add_pending_run ha hops (rowOf_of_get? hP)
  rw [pendingRuns_of_quiet (quiet_of_initial hinit), hinit.2, List.count_nil] at hran
  push_cast at hran
  omega

/-- The workers leave no orphan where every request runs in time. -/
theorem fired_of_set {s : State} {P : Policy} {ops : List Op} (hinit : s.Initial)
    (hP : s.policies.get? P.key = some P) (hcost : P.cls.isCost = true) (hops : ∀ op ∈ ops, op.Evaluates P.key)
    {f : Flag} {r₀ : Resource} (hr₀ : r₀ ∈ s.resources.rows) (hget : r₀.get f = false)
    (hother : HeldByNoOther f P.key s r₀) (hintime : Along step (RestrictsInTime f P.key r₀.id) s ops)
    (hquiet : Quiet (run step s ops)) {r : Resource} (hr : (run step s ops).resources.get? r₀.id = some r)
    (hset : r.get f = true) : fired (run step s ops) P.key = true := by
  have hrun : ∀ (ops : List Op) (s : State), Accounted f P r₀ s → (∀ op ∈ ops, op.Evaluates P.key) →
      Along step (RestrictsInTime f P.key r₀.id) s ops → Accounted f P r₀ (run step s ops) := by
    intro ops
    induction ops with
    | nil => exact fun s h _ _ => h
    | cons op ops ih =>
      intro s h hops hintime
      exact ih _ (accounted_step hcost (hops op List.mem_cons_self) h hintime.1)
        (fun op' hop' => hops op' (List.mem_cons_of_mem op hop')) hintime.2
  exact fired_of_quiet (hrun ops s (accounted_of_initial hinit hP hr₀ hget hother) hops hintime) hquiet hr hset

/-- **Concurrent evaluations of one cost policy: no one-shot action runs more than once for each rise of
`has_fired`, and exactly once when no worker has actions left; and then a resource that only this policy ever
paused is paused only while it is fired, where every request to pause it runs in time.** -/
theorem one_shot_exact_and_no_orphan {s : State} {P : Policy} {ops : List Op} (hinit : s.Initial)
    (hP : s.policies.get? P.key = some P) (hcost : P.cls.isCost = true) (hops : ∀ op ∈ ops, op.Evaluates P.key) :
    (∀ a : ActionName, a.resetField = none →
      (run step s ops).journal.count (P.key, a) ≤ rises P.key s ops * P.getImmediateActions.count a ∧
      (Quiet (run step s ops) →
        (run step s ops).journal.count (P.key, a) = rises P.key s ops * P.getImmediateActions.count a)) ∧
    ∀ r₀ ∈ s.resources.rows, r₀.paused = false → HeldByNoOther .paused P.key s r₀ →
      Along step (RestrictsInTime .paused P.key r₀.id) s ops → Quiet (run step s ops) →
      ∀ r, (run step s ops).resources.get? r₀.id = some r → r.paused = true →
        fired (run step s ops) P.key = true := by
  refine ⟨fun a ha => ?_, fun r₀ hr₀ hget hother hintime hquiet r hr hset => ?_⟩
  · have hran := ran_add_pending hinit hP hops ha
    refine ⟨?_, fun hquiet => ?_⟩
    · have hpending := pendingRuns_nonneg (run step s ops) P.key a
      have hle : ((run step s ops).journal.count (P.key, a) : ℤ) ≤
          ((rises P.key s ops * P.getImmediateActions.count a : ℕ) : ℤ) := by
        push_cast
        omega
      exact Int.ofNat_le.mp hle
    · rw [pendingRuns_of_quiet hquiet, add_zero] at hran
      exact_mod_cast hran
  · exact fired_of_set (f := .paused) hinit hP hcost hops hr₀ hget hother hintime hquiet hr hset

section Example

/-- A project cost policy that notifies and pauses, one resource of its project, and two workers. -/
def pausingPolicy : Policy where
  cls := .projectEstimatedCost
  pk := 1
  scope := 1
  actions := [.notifyProjectTeam, .requestPausing]

theorem twoWorkers_resources : (([{ id := 1, project := ⟨1, 1, false⟩, offering := { id := 1, supportsPausing := true } }] :
    List Resource).map (·.id)).Nodup := List.nodup_singleton _

def twoWorkers : State where
  policies := ⟨[pausingPolicy], by decide⟩
  resources := ⟨[{ id := 1, project := ⟨1, 1, false⟩, offering := { id := 1, supportsPausing := true } }],
    twoWorkers_resources⟩
  workers := ⟨[{ id := 1 }, { id := 2 }], by decide⟩

/-- The first worker fires and runs its actions, the second resets after it. -/
def fireThenReset : List Op :=
  [.read 1 (.projectEstimatedCost, 1) true false, .compareAndSet 1, .act 1 (fun _ => 0), .act 1 (fun _ => 0),
    .read 2 (.projectEstimatedCost, 1) false false, .compareAndSet 2, .act 2 (fun _ => 0), .act 2 (fun _ => 0)]

theorem twoWorkers_initial : twoWorkers.Initial := ⟨by simp [twoWorkers], rfl⟩

theorem twoWorkers_policy : twoWorkers.policies.get? pausingPolicy.key = some pausingPolicy :=
  Table.get?_eq_some.mpr ⟨List.mem_singleton_self _, rfl⟩

/-- After a fire and a reset the team was notified once and the resource is not paused. -/
theorem notified_once_and_not_paused :
    (run step twoWorkers fireThenReset).journal.count (pausingPolicy.key, .notifyProjectTeam) = 1 ∧
      ∀ r, (run step twoWorkers fireThenReset).resources.get? 1 = some r → r.paused = false := by
  have hquiet : Quiet (run step twoWorkers fireThenReset) := by
    unfold Quiet
    decide +kernel
  have hops : ∀ op ∈ fireThenReset, op.Evaluates pausingPolicy.key := by
    simp [fireThenReset, Op.Evaluates, pausingPolicy, Policy.key]
  have hmain := one_shot_exact_and_no_orphan twoWorkers_initial twoWorkers_policy rfl hops
  have hintime : Along step (RestrictsInTime .paused pausingPolicy.key 1) twoWorkers fireThenReset := by
    refine ⟨trivial, trivial, ?_, ?_, trivial, trivial, ?_, ?_, trivial⟩
    · exact nofun
    · exact fun _ _ _ _ _ _ => .inl (by decide +kernel)
    · trivial
    · trivial
  refine ⟨((hmain.1 .notifyProjectTeam rfl).2 hquiet).trans (by decide +kernel), fun r hr => ?_⟩
  refine Bool.eq_false_iff.mpr fun hset => ?_
  have hfired := hmain.2 _ (List.mem_singleton_self _) rfl (by simp [HeldByNoOther, twoWorkers]) hintime hquiet
    r hr hset
  exact absurd hfired (by decide +kernel)

/-- The second worker resets between the compare-and-set of the first and its request. -/
def resetOvertakesRequest : List Op :=
  [.read 1 (.projectEstimatedCost, 1) true false, .compareAndSet 1, .act 1 (fun _ => 0),
    .read 2 (.projectEstimatedCost, 1) false false, .compareAndSet 2, .act 2 (fun _ => 0), .act 2 (fun _ => 0),
    .act 1 (fun _ => 0)]

/-- The request of the first worker pauses the resource after the reset: nobody unpauses it. -/
theorem reset_overtaken_by_request :
    ¬ ∀ (s : State) (P : Policy) (ops : List Op), s.Initial → s.policies.get? P.key = some P →
      P.cls.isCost = true → (∀ op ∈ ops, op.Evaluates P.key) → Quiet (run step s ops) →
      (∀ a : ActionName, a.resetField = none → P.getImmediateActions.count a = 1 →
        (run step s ops).journal.count (P.key, a) = rises P.key s ops) ∧
      ∀ r₀ ∈ s.resources.rows, r₀.paused = false → HeldByNoOther .paused P.key s r₀ →
        ∀ r, (run step s ops).resources.get? r₀.id = some r → r.paused = true →
          fired (run step s ops) P.key = true := by
  intro h
  have hquiet : Quiet (run step twoWorkers resetOvertakesRequest) := by
    unfold Quiet
    decide +kernel
  have hfired := (h twoWorkers pausingPolicy resetOvertakesRequest twoWorkers_initial twoWorkers_policy rfl
    (by simp [resetOvertakesRequest, Op.Evaluates, pausingPolicy, Policy.key]) hquiet).2
    { id := 1, project := ⟨1, 1, false⟩, offering := { id := 1, supportsPausing := true } }
    (List.mem_singleton_self _) rfl (by simp [HeldByNoOther, twoWorkers])
    { id := 1, project := ⟨1, 1, false⟩, offering := { id := 1, supportsPausing := true }, paused := true }
    (by decide +kernel) rfl
  exact absurd hfired (by decide +kernel)

end Example

end Waldur.Policies
