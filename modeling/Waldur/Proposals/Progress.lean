import Mathlib
import Waldur.Proposals.Workflow

/-!
# Proposals.Progress — what holds of a proposal in every run of the workflow

`Coherent` is the invariant: the active instance is the current step, every pending one lies ahead of it and of all
that were activated.  The edits of the call do not enter it, so no edit can break it.
-/

namespace Waldur.Proposals

open Runs
open Checklist (WorkflowStepOutcome)

/-! ## The catalog -/

section Catalog

variable {s t current : WorkflowStep}

theorem mem_workflowSteps (s : WorkflowStep) : s ∈ workflowSteps := by cases s <;> decide

theorem mem_drop_workflowSteps : s ∈ workflowSteps.drop (current.index + 1) ↔ current.index < s.index := by
  cases current <;> cases s <;> decide

theorem workflowSteps_increasing : workflowSteps.Pairwise fun s t => s.index < t.index := by decide

/-- The first step of an increasing list that passes a test. -/
theorem find?_increasing {l : List WorkflowStep} {f : WorkflowStep → Bool}
    (hl : l.Pairwise fun s t => s.index < t.index) (h : l.find? f = some t) :
    f t = true ∧ t ∈ l ∧ ∀ s ∈ l, f s = true → t.index ≤ s.index := by
  obtain ⟨ht, before, after, rfl, hbefore⟩ := List.find?_eq_some_iff_append.mp h
  refine ⟨ht, List.mem_append_right _ List.mem_cons_self, fun s hs hfs => ?_⟩
  obtain ⟨-, htail, -⟩ := List.pairwise_append.mp hl
  rcases List.mem_append.mp hs with hs | hs
  · have hno := hbefore s hs
    rw [hfs] at hno
    cases hno
  · rcases List.mem_cons.mp hs with rfl | hs
    · exact le_rfl
    · exact ((List.pairwise_cons.mp htail).1 s hs).le

end Catalog

namespace Proposal

variable {p q : Proposal} {s t current : WorkflowStep} {op : WorkflowOp} {outcome : WorkflowStepOutcome}
  {project : Option ℕ}

theorem firstPendingStep_spec (h : p.firstPendingStep = some t) : p.status t = some .pending ∧
    ∀ s, p.status s = some .pending → t.index ≤ s.index := by
  obtain ⟨ht, -, hfirst⟩ := find?_increasing workflowSteps_increasing h
  exact ⟨beq_iff_eq.mp ht, fun s hs => hfirst s (mem_workflowSteps s) (beq_iff_eq.mpr hs)⟩

theorem nextEnabledStep_some (h : p.nextEnabledStep current = some t) : p.status t = some .pending ∧
    current.index < t.index ∧ ∀ s, p.status s = some .pending → current.index < s.index → t.index ≤ s.index := by
  obtain ⟨ht, hmem, hfirst⟩ := find?_increasing (workflowSteps_increasing.sublist (List.drop_sublist _ _)) h
  refine ⟨beq_iff_eq.mp ht, mem_drop_workflowSteps.mp hmem, fun s hs hlt => ?_⟩
  exact hfirst s (mem_drop_workflowSteps.mpr hlt) (beq_iff_eq.mpr hs)

theorem nextEnabledStep_none (h : p.nextEnabledStep current = none) (hs : p.status s = some .pending) :
    ¬ current.index < s.index := by
  intro hlt
  have hno := List.find?_eq_none.mp h s (mem_drop_workflowSteps.mpr hlt)
  exact hno (beq_iff_eq.mpr hs)

/-! ## Statuses after a write -/

theorem status_activateNextStep_self (hp : p.status s = some .pending) :
    (p.activateNextStep s).status s = some .active := by
  unfold status at hp
  obtain ⟨i, hi, -⟩ := Option.map_eq_some_iff.mp hp
  simp [status, activateNextStep, hi]

theorem status_activateNextStep_ne (hne : t ≠ s) : (p.activateNextStep s).status t = p.status t := by
  simp [status, activateNextStep, hne]

theorem status_closeInstance_self {st : StepStatus} : (p.closeInstance s st outcome).status s = some st := by
  simp [status, closeInstance]

theorem status_closeInstance_ne {st : StepStatus} (hne : t ≠ s) :
    (p.closeInstance s st outcome).status t = p.status t := by
  simp [status, closeInstance, hne]

/-- A step that is pending after an activation was so before, and is not the activated one. -/
theorem pending_activateNextStep (hp : p.status s = some .pending)
    (h : (p.activateNextStep s).status t = some .pending) : t ≠ s ∧ p.status t = some .pending := by
  by_cases hts : t = s
  · subst hts
    rw [status_activateNextStep_self hp] at h
    cases h
  · rw [status_activateNextStep_ne hts] at h
    exact ⟨hts, h⟩

theorem status_of_closeInstance {st st' : StepStatus} (hne : st ≠ st')
    (h : (p.closeInstance s st outcome).status t = some st') : t ≠ s ∧ p.status t = some st' := by
  by_cases hts : t = s
  · subst hts
    rw [status_closeInstance_self] at h
    exact absurd (Option.some.inj h) hne
  · rw [status_closeInstance_ne hts] at h
    exact ⟨hts, h⟩

/-! ## What an operation does -/

theorem activeInstance_ok {u : Unit} (h : p.activeInstance s = .ok u) : p.status s = some .active := by
  unfold activeInstance at h
  split at h
  · assumption
  · cases h

theorem validateOutcome_ok {u : Unit} (h : validateOutcome s outcome = .ok u) : outcome ∉ systemReserved := by
  unfold validateOutcome at h
  split at h
  · cases h
  · assumption

/-- An advance activates the next pending step, or accepts the proposal and allocates it if it has no project. -/
theorem advanceToNext_cases (h : p.advanceToNext current project = .ok q) :
    (∃ t, p.nextEnabledStep current = some t ∧ q = { p with workflowStep := some t }.activateNextStep t) ∨
      p.nextEnabledStep current = none ∧ ∃ project' allocations, allocations ≤ p.allocations + 1 ∧
        q = { p with project := project', allocations := allocations }.endWorkflow .accepted := by
  unfold advanceToNext at h
  cases hnext : p.nextEnabledStep current with
  | some t =>
    rw [hnext] at h
    exact Or.inl ⟨t, rfl, (Except.ok.inj h).symm⟩
  | none =>
    rw [hnext] at h
    obtain ⟨p', hp', rfl⟩ := map_eq_ok.mp h
    refine Or.inr ⟨rfl, ?_⟩
    unfold allocateProposal at hp'
    split at hp'
    · split at hp'
      · obtain rfl := Except.ok.inj hp'
        exact ⟨_, _, le_rfl, rfl⟩
      · split at hp'
        · cases hp'
        · obtain rfl := Except.ok.inj hp'
          exact ⟨_, _, le_rfl, rfl⟩
    · obtain rfl := Except.ok.inj hp'
      exact ⟨_, _, Nat.le_succ _, rfl⟩

/-- A completion ends the workflow on a negative outcome, waits for an advance, or advances. -/
theorem completeStep_cases {evidence : Evidence} (h : p.completeStep s outcome evidence project = .ok q) :
    outcome ∉ systemReserved ∧ p.status s = some .active ∧
      (outcome ∈ negativeOutcomes ∧ (∃ state, (state = .rejected ∨ state = .canceled) ∧
          q = (p.closeInstance s .completed outcome).endWorkflow state) ∨
        outcome ∉ negativeOutcomes ∧ q = p.closeInstance s .completed outcome ∧
          ((p.callSteps s).any fun c => decide (c.transitionMode = .manual)) = true ∨
        outcome ∉ negativeOutcomes ∧ (p.closeInstance s .completed outcome).advanceToNext s project = .ok q) := by
  obtain ⟨u, hvalid, h⟩ := bind_eq_ok.mp h
  obtain ⟨u', hactive, h⟩ := bind_eq_ok.mp h
  obtain ⟨u'', -, h⟩ := bind_eq_ok.mp h
  refine ⟨validateOutcome_ok hvalid, activeInstance_ok hactive, ?_⟩
  dsimp only at h
  split at h
  · next hneg =>
    obtain rfl := Except.ok.inj h
    refine Or.inl ⟨hneg, _, ?_, rfl⟩
    split
    · exact Or.inr rfl
    · exact Or.inl rfl
  · next hneg =>
    split at h
    · next hmanual => exact Or.inr (Or.inl ⟨hneg, (Except.ok.inj h).symm, hmanual⟩)
    · exact Or.inr (Or.inr ⟨hneg, h⟩)

theorem advanceStep_cases (h : p.advanceStep project = .ok q) :
    ∃ s, p.workflowStep = some s ∧ p.status s = some .completed ∧ p.advanceToNext s project = .ok q := by
  unfold advanceStep at h
  split at h
  · cases h
  · next s hs =>
    split at h
    · next hawaits =>
      unfold isAwaitingManualAdvance at hawaits
      rw [hs] at hawaits
      exact ⟨s, hs, of_decide_eq_true (Bool.and_eq_true_iff.mp hawaits).1, h⟩
    · cases h

theorem rejectAtStep_cases (h : p.rejectAtStep s = .ok q) : p.status s = some .active ∧
    q = (p.closeInstance s .completed .rejected).endWorkflow .rejected := by
  obtain ⟨u, hactive, h⟩ := bind_eq_ok.mp h
  exact ⟨activeInstance_ok hactive, (Except.ok.inj h).symm⟩

theorem expireStep_cases (h : p.expireStep s = .ok q) : p.status s = some .active ∧
    (q = (p.closeInstance s .expired .expired).endWorkflow .rejected ∨
      ∃ t, (p.closeInstance s .expired .expired).nextEnabledStep s = some t ∧
        q = { p.closeInstance s .expired .expired with workflowStep := some t }.activateNextStep t) := by
  obtain ⟨u, hactive, h⟩ := bind_eq_ok.mp h
  refine ⟨activeInstance_ok hactive, ?_⟩
  dsimp only at h
  split at h
  · exact Or.inl (Except.ok.inj h).symm
  · next t ht => exact Or.inr ⟨t, ht, (Except.ok.inj h).symm⟩

theorem activateFirstStep_cases (h : p.activateFirstStep = .ok q) : p.state = .submitted ∧
    (q = p ∨ ∃ t, p.firstPendingStep = some t ∧
      q = { p.activateNextStep t with state := .inReview, workflowStep := some t }) := by
  unfold activateFirstStep at h
  split at h
  · next hsubmitted =>
    refine ⟨hsubmitted, ?_⟩
    split at h
    · exact Or.inl (Except.ok.inj h).symm
    · next t ht => exact Or.inr ⟨t, ht, (Except.ok.inj h).symm⟩
  · cases h

theorem createStepInstances_cases (h : p.createStepInstances = .ok q) : (∀ s, p.instances s = none) ∧
    ∃ instances, (∀ s, ∃ i : StepInstance, instances s = some i ∧ (i.status = .pending ∨ i.status = .skipped)) ∧
      q = { p with instances := instances } := by
  unfold createStepInstances at h
  split at h
  · next hnone =>
    refine ⟨fun s => Option.isNone_iff_eq_none.mp (List.all_eq_true.mp hnone s (mem_workflowSteps s)), _, fun s => ?_,
      (Except.ok.inj h).symm⟩
    refine ⟨_, rfl, ?_⟩
    dsimp only
    split
    · exact Or.inl rfl
    · exact Or.inr rfl
  · cases h

/-! ## The invariant -/

/-- What holds of a proposal between two operations. -/
structure Coherent (p : Proposal) : Prop where
  active : ∀ s, p.status s = some .active → p.workflowStep = some s
  reviewed : ∀ s, p.workflowStep = some s → p.state = .inReview
  located : p.state = .inReview → ∃ s, p.workflowStep = some s
  ahead : ∀ s t, p.workflowStep = some s → p.status t = some .pending → s.index < t.index
  positive : p.state ≠ .rejected → p.state ≠ .canceled → ∀ s i, p.instances s = some i → i.status = .completed →
    ∀ o, i.outcome = some o → o ∉ negativeOutcomes ∧ o ≠ .rejected
  settled : p.state = .accepted → ∀ s, p.status s ≠ some .pending
  increasing : p.activated.Pairwise fun s t => s.index < t.index
  below : ∀ s ∈ p.activated, ∀ t, p.status t = some .pending → s.index < t.index
  once : p.allocations = 0 ∨ p.allocations = 1 ∧ p.state = .accepted
  fresh : (∀ s, p.instances s = none) → p.state = .submitted ∧ p.activated = []

/-- No instance is active. -/
def Idle (p : Proposal) : Prop := ∀ s, p.status s ≠ some .active

theorem Coherent.of_submitted (h : p.Submitted) : p.Coherent := by
  obtain ⟨hstate, hstep, hinstances, hactivated, hallocations⟩ := h
  have hstatus : ∀ s, p.status s = none := fun s => by simp [status, hinstances]
  constructor
  · intro s hs
    simp [hstatus] at hs
  · intro s hs
    simp [hstep] at hs
  · intro hreview
    simp [hstate] at hreview
  · intro s t hs
    simp [hstep] at hs
  · intro _ _ s i hi
    simp [hinstances] at hi
  · intro haccepted
    simp [hstate] at haccepted
  · rw [hactivated]
    exact List.Pairwise.nil
  · intro s hs
    simp [hactivated] at hs
  · exact Or.inl hallocations
  · exact fun _ => ⟨hstate, hactivated⟩

theorem Coherent.inReview (h : p.Coherent) (ha : p.status s = some .active) : p.state = .inReview :=
  h.reviewed s (h.active s ha)

theorem instances_of_status {st : StepStatus} (h : p.status s = some st) : ¬ ∀ s, p.instances s = none := by
  intro hnone
  simp [status, hnone] at h

/-- An activated step comes after all that were activated and before all that are pending. -/
theorem Coherent.activate (h : p.Coherent) (hidle : p.Idle) (hstate : p.state = .submitted ∨ p.state = .inReview)
    (ht : p.status t = some .pending) (hfirst : ∀ s, p.status s = some .pending → t.index ≤ s.index) :
    Coherent { p.activateNextStep t with state := .inReview, workflowStep := some t } := by
  have hahead : ∀ s, (p.activateNextStep t).status s = some .pending → t.index < s.index := by
    intro s hs
    obtain ⟨hne, hpending⟩ := pending_activateNextStep ht hs
    refine lt_of_le_of_ne (hfirst s hpending) fun heq => hne ?_
    revert heq
    cases s <;> cases t <;> decide
  constructor
  · intro s hs
    by_cases hne : s = t
    · rw [hne]
    · have hs' : (p.activateNextStep t).status s = some .active := hs
      rw [status_activateNextStep_ne hne] at hs'
      exact absurd hs' (hidle s)
  · exact fun _ _ => rfl
  · exact fun _ => ⟨t, rfl⟩
  · intro s u hs hu
    obtain rfl := Option.some.inj hs
    exact hahead u hu
  · intro _ _ s i hi hcompleted o ho
    have hopen : p.state ≠ .rejected ∧ p.state ≠ .canceled := by
      rcases hstate with hstate | hstate <;> simp [hstate]
    refine h.positive hopen.1 hopen.2 s i ?_ hcompleted o ho
    by_cases hne : s = t
    · subst hne
      simp only [activateNextStep, Function.update_self] at hi
      obtain ⟨i', -, rfl⟩ := Option.map_eq_some_iff.mp hi
      cases hcompleted
    · simpa [activateNextStep, hne] using hi
  · intro haccepted
    cases haccepted
  · refine List.pairwise_append.mpr ⟨h.increasing, List.pairwise_singleton _ _, fun s hs u hu => ?_⟩
    obtain rfl := List.mem_singleton.mp hu
    exact h.below s hs u ht
  · intro s hs u hu
    rcases List.mem_append.mp hs with hs | hs
    · exact h.below s hs u (pending_activateNextStep ht hu).2
    · obtain rfl := List.mem_singleton.mp hs
      exact hahead u hu
  · refine Or.inl (h.once.resolve_right fun hand => ?_)
    rcases hstate with hstate | hstate <;> simp [hstate] at hand
  · intro hnone
    have hne := instances_of_status (status_activateNextStep_self ht)
    exact absurd hnone hne

/-- Only the instance that ends was active. -/
theorem Coherent.idle_close {st : StepStatus} (h : p.Coherent) (ha : p.status s = some .active) (hactive : st ≠ .active) :
    (p.closeInstance s st outcome).Idle := by
  intro t ht
  obtain ⟨hne, ht'⟩ := status_of_closeInstance hactive ht
  exact hne (Option.some.inj ((h.active t ht').symm.trans (h.active s ha)))

/-- A workflow that ends without an acceptance. -/
theorem Coherent.refuse {st : StepStatus} {state : ProposalState} (h : p.Coherent) (ha : p.status s = some .active)
    (hactive : st ≠ .active) (hpending : st ≠ .pending) (hstate : state = .rejected ∨ state = .canceled) :
    ((p.closeInstance s st outcome).endWorkflow state).Coherent := by
  have hidle : (p.closeInstance s st outcome).Idle := h.idle_close ha hactive
  have hreview := h.inReview ha
  constructor
  · exact fun t ht => absurd ht (hidle t)
  · intro t ht
    cases ht
  · rintro rfl
    rcases hstate with hstate | hstate <;> cases hstate
  · intro t u ht
    cases ht
  · intro hrejected hcanceled
    exact absurd hstate (not_or.mpr ⟨hrejected, hcanceled⟩)
  · rintro rfl
    rcases hstate with hstate | hstate <;> cases hstate
  · exact h.increasing
  · exact fun t ht u hu => h.below t ht u (status_of_closeInstance hpending hu).2
  · refine Or.inl (h.once.resolve_right fun hand => ?_)
    simp [hreview] at hand
  · intro hnone
    exact absurd hnone (instances_of_status (p := p.closeInstance s st outcome) status_closeInstance_self)

/-- The end of an instance that does not end the workflow. -/
theorem Coherent.close {st : StepStatus} (h : p.Coherent) (ha : p.status s = some .active)
    (hpending : st ≠ .pending) (hactive : st ≠ .active)
    (hpositive : st = .completed → outcome ∉ negativeOutcomes ∧ outcome ≠ .rejected) :
    (p.closeInstance s st outcome).Coherent ∧ (p.closeInstance s st outcome).Idle := by
  refine ⟨?_, h.idle_close ha hactive⟩
  constructor
  · exact fun t ht => h.active t (status_of_closeInstance hactive ht).2
  · exact h.reviewed
  · exact h.located
  · exact fun t u ht hu => h.ahead t u ht (status_of_closeInstance hpending hu).2
  · intro hrejected hcanceled t i hi hcompleted o ho
    by_cases hne : t = s
    · subst hne
      simp only [closeInstance, Function.update_self, Option.some.injEq] at hi
      subst hi
      obtain rfl := Option.some.inj ho
      exact hpositive hcompleted
    · simp only [closeInstance, Function.update_of_ne hne] at hi
      exact h.positive hrejected hcanceled t i hi hcompleted o ho
  · exact fun haccepted t ht => h.settled haccepted t (status_of_closeInstance hpending ht).2
  · exact h.increasing
  · exact fun t ht u hu => h.below t ht u (status_of_closeInstance hpending hu).2
  · exact h.once
  · intro hnone
    exact absurd hnone (instances_of_status (p := p.closeInstance s st outcome) status_closeInstance_self)

/-- An advance from the current step, which is not active any more. -/
theorem Coherent.advance (h : p.Coherent) (hidle : p.Idle) (hs : p.workflowStep = some s)
    (hq : p.advanceToNext s project = .ok q) : q.Coherent := by
  have hreview := h.reviewed s hs
  rcases advanceToNext_cases hq with ⟨t, ht, rfl⟩ | ⟨hnone, project', allocations, hle, rfl⟩
  · obtain ⟨hpending, -, hfirst⟩ := nextEnabledStep_some ht
    have hfirst' : ∀ u, p.status u = some .pending → t.index ≤ u.index :=
      fun u hu => hfirst u hu (h.ahead s u hs hu)
    have hactivate := h.activate hidle (Or.inr hreview) hpending hfirst'
    rw [← hreview] at hactivate
    exact hactivate
  · have hnot : ∀ u, p.status u ≠ some .pending := by
      intro u hu
      exact nextEnabledStep_none hnone hu (h.ahead s u hs hu)
    constructor
    · exact fun u hu => absurd hu (hidle u)
    · intro u hu
      cases hu
    · intro hin
      cases hin
    · intro u v hu
      cases hu
    · intro _ _ u i hi hcompleted o ho
      exact h.positive (by simp [hreview]) (by simp [hreview]) u i hi hcompleted o ho
    · exact fun _ u hu => hnot u hu
    · exact h.increasing
    · exact fun u _ v hv => absurd hv (hnot v)
    · have hzero := h.once.resolve_right fun hand => by simp [hreview] at hand
      rcases Nat.le_one_iff_eq_zero_or_eq_one.mp (hzero ▸ hle) with h0 | h1
      · exact Or.inl h0
      · exact Or.inr ⟨h1, rfl⟩
    · intro hnone'
      have hsubmitted := (h.fresh hnone').1
      rw [hreview] at hsubmitted
      cases hsubmitted

theorem Coherent.create (h : p.Coherent) (hq : p.createStepInstances = .ok q) : q.Coherent := by
  obtain ⟨hnone, instances, hinstances, rfl⟩ := createStepInstances_cases hq
  obtain ⟨hstate, hactivated⟩ := h.fresh hnone
  have hstatus : ∀ s st, Proposal.status { p with instances := instances } s = some st →
      st = .pending ∨ st = .skipped := by
    intro s st hs
    obtain ⟨i, hi, hor⟩ := hinstances s
    simp only [status, hi, Option.map_some, Option.some.injEq] at hs
    rwa [hs] at hor
  have hnot : ∀ s, p.workflowStep ≠ some s := by
    intro s hs
    have hreview := h.reviewed s hs
    rw [hstate] at hreview
    cases hreview
  constructor
  · intro s hs
    rcases hstatus s _ hs with h' | h' <;> cases h'
  · exact fun s hs => absurd hs (hnot s)
  · exact h.located
  · exact fun s t hs => absurd hs (hnot s)
  · intro _ _ s i hi hcompleted
    rcases hstatus s .completed (by simpa [status, hcompleted] using ⟨i, hi, hcompleted⟩) with h' | h' <;> cases h'
  · intro haccepted
    dsimp only at haccepted
    rw [hstate] at haccepted
    cases haccepted
  · exact h.increasing
  · intro s hs
    dsimp only at hs
    rw [hactivated] at hs
    cases hs
  · exact h.once
  · intro hnone'
    obtain ⟨i, hi, -⟩ := hinstances .administrativeCheck
    have hi' : instances .administrativeCheck = none := hnone' .administrativeCheck
    rw [hi] at hi'
    cases hi'

/-- What one operation of the service does to a proposal that it does not refuse. -/
theorem Coherent.apply (h : p.Coherent) (hq : p.apply op = .ok q) : q.Coherent := by
  cases op with
  | createStepInstances => exact h.create hq
  | activateFirstStep =>
    obtain ⟨hsubmitted, rfl | ⟨t, ht, rfl⟩⟩ := activateFirstStep_cases hq
    · exact h
    · obtain ⟨hpending, hfirst⟩ := firstPendingStep_spec ht
      refine h.activate (fun s hs => ?_) (Or.inl hsubmitted) hpending hfirst
      have hreview := h.inReview hs
      rw [hsubmitted] at hreview
      cases hreview
  | completeStep s outcome evidence project =>
    obtain ⟨hreserved, ha, hcases⟩ := completeStep_cases hq
    have hrejected : outcome ≠ .rejected := by
      rintro rfl
      exact hreserved (by decide)
    have hclose : outcome ∉ negativeOutcomes →
        (p.closeInstance s .completed outcome).Coherent ∧ (p.closeInstance s .completed outcome).Idle :=
      fun hneg => h.close ha (by decide) (by decide) fun _ => ⟨hneg, hrejected⟩
    rcases hcases with ⟨hneg, state, hstate, rfl⟩ | ⟨hneg, rfl, -⟩ | ⟨hneg, hadvance⟩
    · exact h.refuse ha (by decide) (by decide) hstate
    · exact (hclose hneg).1
    · obtain ⟨hclosed, hidle⟩ := hclose hneg
      exact hclosed.advance hidle (h.active s ha) hadvance
  | rejectAtStep s =>
    obtain ⟨ha, rfl⟩ := rejectAtStep_cases hq
    exact h.refuse ha (by decide) (by decide) (Or.inl rfl)
  | expireStep s =>
    obtain ⟨ha, rfl | ⟨t, ht, rfl⟩⟩ := expireStep_cases hq
    · exact h.refuse ha (by decide) (by decide) (Or.inl rfl)
    · have hnocompleted : StepStatus.expired = .completed → WorkflowStepOutcome.expired ∉ negativeOutcomes ∧
          WorkflowStepOutcome.expired ≠ .rejected := fun heq => StepStatus.noConfusion heq
      obtain ⟨hclosed, hidle⟩ := h.close ha (by decide) (by decide) hnocompleted
      have hadvance : (p.closeInstance s .expired .expired).advanceToNext s none = .ok
          ({ p.closeInstance s .expired .expired with workflowStep := some t }.activateNextStep t) := by
        unfold advanceToNext
        rw [ht]
      exact hclosed.advance hidle (h.active s ha) hadvance
  | advanceStep project =>
    obtain ⟨s, hs, hcompleted, hadvance⟩ := advanceStep_cases hq
    refine h.advance (fun t ht => ?_) hs hadvance
    obtain rfl := Option.some.inj (hs.symm.trans (h.active t ht))
    rw [hcompleted] at ht
    cases ht
  | editCallStep s callStep =>
    obtain rfl := Except.ok.inj hq
    exact ⟨h.active, h.reviewed, h.located, h.ahead, h.positive, h.settled, h.increasing, h.below, h.once, h.fresh⟩

/-- An operation changes nothing, or is not refused. -/
theorem step_cases : p.step op = p ∨ p.apply op = .ok (p.step op) := by
  unfold step
  cases p.apply op with
  | error e => exact Or.inl rfl
  | ok q => exact Or.inr rfl

theorem Coherent.step (h : p.Coherent) : (p.step op).Coherent := by
  rcases @step_cases p op with heq | hq
  · rw [heq]
    exact h
  · exact h.apply hq

theorem Coherent.run (h : p.Coherent) (ops : List WorkflowOp) : (run Proposal.step p ops).Coherent :=
  run_invariant (fun _ _ hp => hp.step) ops p h

/-! ## What never comes back -/

/-- An instance that was skipped or has ended keeps its status. -/
theorem status_step {st : StepStatus} (hs : p.status s = some st) (hpending : st ≠ .pending) (hactive : st ≠ .active) :
    (p.step op).status s = some st := by
  have hactivate : ∀ {q : Proposal} {t}, q.status s = some st → q.status t = some .pending →
      (q.activateNextStep t).status s = some st := by
    intro q t hq ht
    rw [status_activateNextStep_ne, hq]
    rintro rfl
    exact hpending (Option.some.inj (hq.symm.trans ht))
  have hclose : ∀ {t st' outcome}, p.status t = some .active →
      (p.closeInstance t st' outcome).status s = some st := by
    intro t st' outcome ht
    rw [status_closeInstance_ne, hs]
    rintro rfl
    exact hactive (Option.some.inj (hs.symm.trans ht))
  have hadvance : ∀ {q q' : Proposal} {t project}, q.status s = some st → q.advanceToNext t project = .ok q' →
      q'.status s = some st := by
    intro q q' t project hq hq'
    rcases advanceToNext_cases hq' with ⟨u, hu, rfl⟩ | ⟨-, project', allocations, -, rfl⟩
    · exact hactivate hq (nextEnabledStep_some hu).1
    · exact hq
  rcases @step_cases p op with heq | hq
  · rw [heq]
    exact hs
  · generalize p.step op = q at hq ⊢
    cases op with
    | createStepInstances =>
      obtain ⟨hnone, -⟩ := createStepInstances_cases hq
      exact absurd hnone (instances_of_status hs)
    | activateFirstStep =>
      obtain ⟨-, rfl | ⟨t, ht, rfl⟩⟩ := activateFirstStep_cases hq
      · exact hs
      · exact hactivate hs (firstPendingStep_spec ht).1
    | completeStep t outcome evidence project =>
      obtain ⟨-, ha, ⟨-, state, -, rfl⟩ | ⟨-, rfl, -⟩ | ⟨-, hq'⟩⟩ := completeStep_cases hq
      · exact hclose ha
      · exact hclose ha
      · exact hadvance (hclose ha) hq'
    | rejectAtStep t =>
      obtain ⟨ha, rfl⟩ := rejectAtStep_cases hq
      exact hclose ha
    | expireStep t =>
      obtain ⟨ha, rfl | ⟨u, hu, rfl⟩⟩ := expireStep_cases hq
      · exact hclose ha
      · exact hactivate (hclose ha) (nextEnabledStep_some hu).1
    | advanceStep project =>
      obtain ⟨t, -, -, hq'⟩ := advanceStep_cases hq
      exact hadvance hs hq'
    | editCallStep t callStep =>
      obtain rfl := Except.ok.inj hq
      exact hs

/-- A proposal that is not under review, and whose instances are made, keeps its state. -/
theorem Coherent.state_step (h : p.Coherent) (hsubmitted : p.state ≠ .submitted) (hreview : p.state ≠ .inReview) :
    (p.step op).state = p.state := by
  have hidle : ∀ s, p.status s ≠ some .active := fun s hs => hreview (h.inReview hs)
  rcases @step_cases p op with heq | hq
  · rw [heq]
  · generalize p.step op = q at hq ⊢
    cases op with
    | createStepInstances =>
      obtain ⟨-, instances, -, rfl⟩ := createStepInstances_cases hq
      rfl
    | activateFirstStep => exact absurd (activateFirstStep_cases hq).1 hsubmitted
    | completeStep s outcome evidence project => exact absurd (completeStep_cases hq).2.1 (hidle s)
    | rejectAtStep s => exact absurd (rejectAtStep_cases hq).1 (hidle s)
    | expireStep s => exact absurd (expireStep_cases hq).1 (hidle s)
    | advanceStep project =>
      obtain ⟨s, hs, -⟩ := advanceStep_cases hq
      exact absurd (h.reviewed s hs) hreview
    | editCallStep s callStep =>
      obtain rfl := Except.ok.inj hq
      rfl

theorem Coherent.state_run (h : p.Coherent) (hsubmitted : p.state ≠ .submitted) (hreview : p.state ≠ .inReview)
    (ops : List WorkflowOp) : (Runs.run Proposal.step p ops).state = p.state := by
  have hstep : ∀ (q : Proposal) (op : WorkflowOp), q.Coherent ∧ q.state = p.state →
      (q.step op).Coherent ∧ (q.step op).state = p.state := by
    rintro q op ⟨hq, hstate⟩
    rw [← hstate] at hsubmitted hreview
    exact ⟨hq.step, (hq.state_step hsubmitted hreview).trans hstate⟩
  exact (@run_invariant _ _ Proposal.step (fun q => q.Coherent ∧ q.state = p.state) hstep ops p ⟨h, rfl⟩).2

/-- **The invariants of the workflow**, of a submitted proposal, in every state and whatever is edited: one active
instance, activations in the order of the catalog, no ended instance active again, an acceptance with nothing left to do
and no negative outcome, no way out of a final state, and one allocation. -/
theorem workflow_invariants (p : Proposal) (hp : p.Submitted) (ops : List WorkflowOp) :
    let q := Runs.run Proposal.step p ops
    (∀ s t, q.status s = some .active → q.status t = some .active → s = t) ∧
    (q.activated.Pairwise fun s t => s.index < t.index) ∧
    (q.state = .accepted → (∀ s, q.status s ≠ some .pending ∧ q.status s ≠ some .active) ∧
      ∀ s i, q.instances s = some i → i.status = .completed → ∀ o, i.outcome = some o →
        o ∉ negativeOutcomes ∧ o ≠ .rejected) ∧
    q.allocations ≤ 1 ∧
    ∀ later : List WorkflowOp, let r := Runs.run Proposal.step q later
      (∀ s, q.status s = some .skipped ∨ q.status s = some .completed ∨ q.status s = some .expired →
        r.status s ≠ some .active) ∧
      (q.state = .accepted ∨ q.state = .rejected ∨ q.state = .canceled → r.state = q.state) := by
  intro q
  have hq : q.Coherent := (Coherent.of_submitted hp).run ops
  refine ⟨fun s t hs ht => ?_, hq.increasing, fun haccepted => ⟨fun s => ⟨hq.settled haccepted s, fun hs => ?_⟩, ?_⟩,
    ?_, fun later => ⟨fun s hs => ?_, fun hstate => ?_⟩⟩
  · exact Option.some.inj ((hq.active s hs).symm.trans (hq.active t ht))
  · have hreview := hq.inReview hs
    rw [haccepted] at hreview
    cases hreview
  · exact hq.positive (by simp [haccepted]) (by simp [haccepted])
  · rcases hq.once with h | ⟨h, -⟩ <;> omega
  · have hkeeps : ∀ {st : StepStatus}, st ≠ .pending → st ≠ .active → q.status s = some st →
        (Runs.run Proposal.step q later).status s = some st := by
      intro st hpending hactive hst
      exact @run_invariant _ _ Proposal.step (fun r => r.status s = some st)
        (fun r op hr => status_step hr hpending hactive) later q hst
    rcases hs with hs | hs | hs <;>
      rw [hkeeps (by decide) (by decide) hs] <;> decide
  · refine hq.state_run ?_ ?_ later <;> rcases hstate with h | h | h <;> simp [h]

/-- A proposal of a call whose one step is the administrative check. -/
def checkedOnce : Proposal where
  state := .submitted
  callSteps step := if step = .administrativeCheck then some {} else none

/-- No forms, completions or reviews. -/
def noEvidence : Evidence := ⟨⟨Relational.Table.empty, Relational.Table.empty⟩, fun _ => none, []⟩

/-- It is accepted and allocated once. -/
theorem checkedOnce_accepted :
    let q := Runs.run Proposal.step checkedOnce [.createStepInstances, .activateFirstStep,
      .completeStep .administrativeCheck .eligible noEvidence (some 1), .advanceStep (some 2)]
    (q.state = .accepted ∧ q.project = some 1) ∧
      (q.activated.Pairwise fun s t => s.index < t.index) ∧ q.allocations ≤ 1 := by
  intro q
  have hstart : checkedOnce.Submitted := ⟨rfl, rfl, fun _ => rfl, rfl, rfl⟩
  have hinvariants := workflow_invariants checkedOnce hstart [.createStepInstances, .activateFirstStep,
    .completeStep .administrativeCheck .eligible noEvidence (some 1), .advanceStep (some 2)]
  exact ⟨⟨rfl, rfl⟩, hinvariants.2.1, hinvariants.2.2.2.1⟩

end Proposal

end Waldur.Proposals
