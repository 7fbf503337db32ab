import Mathlib
import Waldur.Proposals.Progress

/-!
# Proposals.Stranded — a proposal in review that no operation can move

Whether a completed step waits for an advance is read from the configuration of the call, not stored.  While a
proposal waits, an edit that makes its step automatic, or removes it, leaves the proposal with no active instance and
nothing to advance: `KeepsManual` is the exact condition.
-/

namespace Waldur.Proposals

open Runs
open Checklist (WorkflowStepOutcome)

namespace Proposal

variable {p q : Proposal} {s t : WorkflowStep} {op : WorkflowOp} {project : Option ℕ}

/-- In review, either exactly the current step is active, or it is completed and waits for an advance. -/
def Movable (p : Proposal) : Prop :=
  p.state = .inReview →
    (∃ s, p.workflowStep = some s ∧ ∀ t, p.status t = some .active ↔ t = s) ∨ p.isAwaitingManualAdvance = true

/-- **The edits that strand nothing**: while the current step is completed, its row stays and stays manual. -/
def KeepsManual (p : Proposal) : WorkflowOp → Prop
  | .editCallStep s callStep => p.workflowStep = some s → p.status s = some .completed →
      (callStep.any fun c => decide (c.transitionMode = .manual)) = true
  | _ => True

theorem isAwaitingManualAdvance_iff (hs : p.workflowStep = some s) : p.isAwaitingManualAdvance = true ↔
    p.status s = some .completed ∧ ((p.callSteps s).any fun c => decide (c.transitionMode = .manual)) = true := by
  unfold isAwaitingManualAdvance
  rw [hs]
  simp only [Bool.and_eq_true, decide_eq_true_eq]

/-- A movable proposal under review has its current step active or completed. -/
theorem Movable.current (h : p.Movable) (hp : p.Coherent) (hs : p.workflowStep = some s) :
    p.status s = some .active ∨
      p.status s = some .completed ∧ ((p.callSteps s).any fun c => decide (c.transitionMode = .manual)) = true := by
  rcases h (hp.reviewed s hs) with ⟨t, ht, hactive⟩ | hawaits
  · obtain rfl := Option.some.inj (hs.symm.trans ht)
    exact Or.inl ((hactive s).mpr rfl)
  · exact Or.inr ((isAwaitingManualAdvance_iff hs).mp hawaits)

/-- An active current step is the only active one. -/
theorem Coherent.movable_of_active (hp : p.Coherent) (hs : p.status s = some .active) : p.Movable := by
  intro _
  refine Or.inl ⟨s, hp.active s hs, fun t => ⟨fun ht => ?_, ?_⟩⟩
  · exact Option.some.inj ((hp.active t ht).symm.trans (hp.active s hs))
  · rintro rfl
    exact hs

theorem movable_of_state (h : p.state ≠ .inReview) : p.Movable := fun hreview => absurd hreview h

/-- An advance leaves an active step, or an accepted proposal. -/
theorem movable_advance (hq : q.Coherent) (h : p.advanceToNext s project = .ok q) : q.Movable := by
  rcases advanceToNext_cases h with ⟨t, ht, rfl⟩ | ⟨-, project', allocations, -, rfl⟩
  · have hpending : Proposal.status { p with workflowStep := some t } t = some .pending := (nextEnabledStep_some ht).1
    exact hq.movable_of_active (status_activateNextStep_self hpending)
  · exact movable_of_state fun hin => ProposalState.noConfusion hin

/-- The operations of the service leave a proposal movable. -/
theorem movable_apply (hp : p.Coherent) (h : p.Movable) (hservice : ∀ s callStep, op ≠ .editCallStep s callStep)
    (hq : p.apply op = .ok q) : q.Movable := by
  have hcoherent : q.Coherent := hp.apply hq
  cases op with
  | createStepInstances =>
    obtain ⟨hnone, instances, -, rfl⟩ := createStepInstances_cases hq
    refine movable_of_state fun hin => ?_
    have hsubmitted := (hp.fresh hnone).1
    rw [show p.state = .inReview from hin] at hsubmitted
    cases hsubmitted
  | activateFirstStep =>
    obtain ⟨hsubmitted, rfl | ⟨t, ht, rfl⟩⟩ := activateFirstStep_cases hq
    · exact h
    · exact hcoherent.movable_of_active (status_activateNextStep_self (firstPendingStep_spec ht).1)
  | completeStep s outcome evidence project =>
    obtain ⟨-, ha, ⟨-, state, hstate, rfl⟩ | ⟨-, rfl, hmanual⟩ | ⟨-, hadvance⟩⟩ := completeStep_cases hq
    · refine movable_of_state ?_
      rintro rfl
      rcases hstate with hstate | hstate <;> cases hstate
    · intro _
      have hs : (p.closeInstance s .completed outcome).workflowStep = some s := hp.active s ha
      exact Or.inr ((isAwaitingManualAdvance_iff hs).mpr ⟨status_closeInstance_self, hmanual⟩)
    · exact movable_advance hcoherent hadvance
  | rejectAtStep s =>
    obtain ⟨-, rfl⟩ := rejectAtStep_cases hq
    exact movable_of_state fun hin => ProposalState.noConfusion hin
  | expireStep s =>
    obtain ⟨-, rfl | ⟨t, ht, rfl⟩⟩ := expireStep_cases hq
    · exact movable_of_state fun hin => ProposalState.noConfusion hin
    · have hpending : Proposal.status { p.closeInstance s .expired .expired with workflowStep := some t } t =
          some .pending := (nextEnabledStep_some ht).1
      exact hcoherent.movable_of_active (status_activateNextStep_self hpending)
  | advanceStep project =>
    obtain ⟨s, -, -, hadvance⟩ := advanceStep_cases hq
    exact movable_advance hcoherent hadvance
  | editCallStep s callStep => exact absurd rfl (hservice s callStep)

/-- An edit leaves a proposal movable exactly where it keeps a completed current step manual. -/
theorem movable_edit {callStep : Option CallStep} (hp : p.Coherent) (h : p.Movable) :
    (p.step (.editCallStep s callStep)).Movable ↔ p.KeepsManual (.editCallStep s callStep) := by
  have hcoherent : (p.step (.editCallStep s callStep)).Coherent := hp.step
  constructor
  · intro hmovable hs hcompleted
    rcases hmovable.current hcoherent hs with hactive | ⟨-, hmanual⟩
    · have hactive' : p.status s = some .active := hactive
      rw [hcompleted] at hactive'
      cases hactive'
    · have hmanual' : ((Function.update p.callSteps s callStep s).any fun c =>
          decide (c.transitionMode = .manual)) = true := hmanual
      rwa [Function.update_self] at hmanual'
  · intro hkeeps hreview
    obtain ⟨t, ht⟩ := hp.located hreview
    rcases h.current hp ht with hactive | ⟨hcompleted, hmanual⟩
    · exact hcoherent.movable_of_active hactive hreview
    · have ht' : (p.step (.editCallStep s callStep)).workflowStep = some t := ht
      refine Or.inr ((isAwaitingManualAdvance_iff ht').mpr ⟨hcompleted, ?_⟩)
      show ((Function.update p.callSteps s callStep t).any fun c => decide (c.transitionMode = .manual)) = true
      by_cases hts : t = s
      · subst hts
        rw [Function.update_self]
        exact hkeeps ht hcompleted
      · rwa [Function.update_of_ne hts]

theorem movable_step (hp : p.Coherent) (h : p.Movable) : (p.step op).Movable ↔ p.KeepsManual op := by
  have hservice : (∀ s callStep, op ≠ .editCallStep s callStep) → (p.step op).Movable := by
    intro hne
    rcases @step_cases p op with heq | hq
    · rwa [heq]
    · exact movable_apply hp h hne hq
  cases op with
  | editCallStep s callStep => exact movable_edit hp h
  | _ => exact iff_of_true (hservice fun _ _ heq => WorkflowOp.noConfusion heq) trivial

/-- An advance whose allocation does not fail succeeds. -/
theorem advanceToNext_succeeds (p : Proposal) (s : WorkflowStep) (n : ℕ) :
    ∃ q, p.advanceToNext s (some n) = .ok q := by
  unfold advanceToNext allocateProposal
  cases p.nextEnabledStep s with
  | some t => exact ⟨_, rfl⟩
  | none => cases p.project <;> exact ⟨_, rfl⟩

/-- **A movable proposal moves**: some operation of the service succeeds and changes the current step. -/
theorem Movable.moves (h : p.Movable) (hp : p.Coherent) (hreview : p.state = .inReview) :
    ∃ op q, (∀ s callStep, op ≠ .editCallStep s callStep) ∧ p.apply op = .ok q ∧ q.workflowStep ≠ p.workflowStep := by
  obtain ⟨s, hs⟩ := hp.located hreview
  rw [hs]
  rcases h.current hp hs with hactive | ⟨hcompleted, hmanual⟩
  · refine ⟨.rejectAtStep s, (p.closeInstance s .completed .rejected).endWorkflow .rejected,
      fun _ _ heq => WorkflowOp.noConfusion heq, ?_, ?_⟩
    · dsimp only [apply, rejectAtStep, activeInstance]
      rw [if_pos hactive]
      rfl
    · intro hnone
      cases hnone
  · obtain ⟨q, hq⟩ := advanceToNext_succeeds p s 0
    refine ⟨.advanceStep (some 0), q, fun _ _ heq => WorkflowOp.noConfusion heq, ?_, ?_⟩
    · dsimp only [apply, advanceStep]
      rw [hs]
      dsimp only
      rw [if_pos ((isAwaitingManualAdvance_iff hs).mpr ⟨hcompleted, hmanual⟩)]
      exact hq
    · rcases advanceToNext_cases hq with ⟨t, ht, rfl⟩ | ⟨-, project', allocations, -, rfl⟩
      · obtain ⟨-, hlt, -⟩ := nextEnabledStep_some ht
        intro heq
        obtain rfl : t = s := Option.some.inj heq
        omega
      · intro hnone
        cases hnone

/-- **When a proposal is never stranded**: in every run of a submitted proposal, at every state, exactly if no edit
takes the manual mode from a completed current step. -/
theorem movable_along_iff (p : Proposal) (hp : p.Submitted) (ops : List WorkflowOp) :
    Along Proposal.step (fun p op => (p.step op).Movable) p ops ↔ Along Proposal.step KeepsManual p ops := by
  have hmovable : p.Movable := movable_of_state (by rw [hp.1]; decide)
  have hinv : p.Coherent ∧ p.Movable := ⟨.of_submitted hp, hmovable⟩
  refine @along_congr _ _ Proposal.step (fun p => p.Coherent ∧ p.Movable) _ _ ?_ ?_ ops p hinv
  · intro q op hq
    exact movable_step hq.1 hq.2
  · intro q op hq hnext
    exact ⟨hq.1.step, hnext⟩

/-- A proposal of a call with a manual administrative check before the technical assessment. -/
def checkedByHand : Proposal where
  state := .submitted
  callSteps step :=
    if step = .administrativeCheck then some { transitionMode := .manual }
    else if step = .technicalAssessment then some {} else none

theorem checkedByHand_submitted : checkedByHand.Submitted := ⟨rfl, rfl, fun _ => rfl, rfl, rfl⟩

/-- The check is completed and the proposal waits. -/
def untilCompleted : List WorkflowOp :=
  [.createStepInstances, .activateFirstStep, .completeStep .administrativeCheck .eligible noEvidence none]

/-- The advance that it waits for leaves it movable, whatever happens to the rows of other steps before. -/
theorem checkedByHand_advanced : Along Proposal.step (fun p op => (p.step op).Movable) checkedByHand
    (untilCompleted ++ [.editCallStep .technicalAssessment none, .advanceStep none]) := by
  refine (movable_along_iff checkedByHand checkedByHand_submitted _).mpr ?_
  refine ⟨trivial, trivial, trivial, ?_, trivial, trivial⟩
  intro hstep
  cases hstep

/-- With the row made automatic, or removed, before the advance, nothing is active and nothing waits. -/
theorem checkedByHand_stranded : ¬ ∀ (p : Proposal) (ops : List WorkflowOp), p.Submitted →
    (Runs.run Proposal.step p ops).Movable := by
  intro hall
  have hmovable := hall checkedByHand (untilCompleted ++ [.editCallStep .administrativeCheck (some {})])
    checkedByHand_submitted
  rcases hmovable rfl with ⟨s, hs, hactive⟩ | hawaits
  · have hnone := (hactive s).mpr rfl
    obtain rfl := Option.some.inj hs
    cases hnone
  · cases hawaits

end Proposal

end Waldur.Proposals
