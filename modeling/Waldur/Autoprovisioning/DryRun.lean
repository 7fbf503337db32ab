import Mathlib
import Waldur.Autoprovisioning.Reconciliation

/-!
# Autoprovisioning.DryRun — what a dry run reports

A dry run lists every asserted pair without an active row, the real run only those that the policy accepts.  Both revoke
the same rows, since the loop over the asserted pairs touches no stale one.
-/

namespace Waldur.Autoprovisioning

open Relational Permissions

variable {w : Directory} {rules : List Rule} {user : User} {now : ℤ} {rows before : UserRoles}

/-- The pairs that a run is to grant. -/
def missing (w : Directory) (rules : List Rule) (user : User) (rows : UserRoles) : List (Pair × Rule) :=
  (getAssertedGrants w rules user).filter fun e => !existing user rows e.1

theorem foldl_dryRun (l : List (Pair × Rule)) (s : UserRoles × List String) :
    l.foldl (grantOne w rules user true now before) s =
      (s.1, s.2 ++ (l.filter fun e => !existing user before e.1).map fun e => w.label e.1) := by
  induction l generalizing s with
  | nil => simp
  | cons e l ih =>
    rw [List.foldl_cons, ih]
    unfold grantOne
    cases hexisting : existing user before e.1 with
    | true => simp [hexisting]
    | false => simp [hexisting]

theorem foldl_granted (l : List (Pair × Rule)) (s : UserRoles × List String) :
    (l.foldl (grantOne w rules user false now before) s).2 = s.2 ++
      ((l.filter fun e => !existing user before e.1).filter fun e => accepts w.policy e.1).map fun e => w.label e.1 := by
  induction l generalizing s with
  | nil => simp
  | cons e l ih =>
    rw [List.foldl_cons, ih]
    rcases @grantOne_cases w rules user now before s e with ⟨hskip, hs⟩ | ⟨hnot, haccepts, hs, -⟩
    · rw [hs]
      rcases hskip with hexisting | hrefused
      · simp [hexisting]
      · cases hexisting : existing user before e.1 with
        | true => simp [hexisting]
        | false => simp [hexisting, hrefused]
    · rw [hs]
      simp [hnot, haccepts]

/-- The loop of a real run leaves the stale rows as they were. -/
theorem filter_stale_granted :
    (granted w rules user false now rows).1.rows.filter (stale w rules user) = rows.rows.filter (stale w rules user) := by
  refine filter_grants wellAsserted.1 (fun e he => grantSource_mem he) (fun e _ => untouched_start) ?_
  intro e he r _ hpair _
  rw [← Bool.not_eq_true, stale_iff]
  rintro ⟨-, -, -, hnone⟩
  exact hnone ⟨e, he, hpair.symm⟩

theorem reconcile_dryRun (h : rules ≠ []) : reconcile w rules user true now rows =
    (rows, ⟨(missing w rules user rows).map fun e => w.label e.1,
      (rows.rows.filter (stale w rules user)).map fun r => w.label r.pair⟩) := by
  unfold reconcile missing
  rw [if_neg (by simpa using h), foldl_dryRun]
  simp

theorem report_reconcile (h : rules ≠ []) : (reconcile w rules user false now rows).2 =
    ⟨((missing w rules user rows).filter fun e => accepts w.policy e.1).map fun e => w.label e.1,
      (rows.rows.filter (stale w rules user)).map fun r => w.label r.pair⟩ := by
  have hgranted := @foldl_granted w rules user now rows (getAssertedGrants w rules user) (rows, [])
  have hstale := @filter_stale_granted w rules user now rows
  unfold granted at hstale
  unfold reconcile missing
  rw [if_neg (by simpa using h)]
  simp only [Bool.false_eq_true, if_false, hgranted, hstale, List.nil_append]

/-- **What a dry run says**: it changes nothing and reports what the real run does exactly where the policy accepts every
asserted pair that the user does not hold. -/
theorem dryRun_iff (w : Directory) (rules : List Rule) (user : User) (now : ℤ) (rows : UserRoles) :
    reconcile w rules user true now rows = (rows, (reconcile w rules user false now rows).2) ↔
      ∀ e ∈ getAssertedGrants w rules user, existing user rows e.1 = false → accepts w.policy e.1 = true := by
  by_cases hrules : rules = []
  · subst hrules
    exact iff_of_true rfl fun e he => absurd he List.not_mem_nil
  · rw [reconcile_dryRun hrules, report_reconcile hrules]
    constructor
    · intro h
      have hlabels : (missing w rules user rows).map (fun e => w.label e.1) =
          ((missing w rules user rows).filter fun e => accepts w.policy e.1).map fun e => w.label e.1 :=
        congrArg (fun x => x.2.granted) h
      have hlength : ((missing w rules user rows).filter fun e => accepts w.policy e.1).length =
          (missing w rules user rows).length := by
        have hlen := congrArg List.length hlabels
        rw [List.length_map, List.length_map] at hlen
        exact hlen.symm
      intro e he hnot
      have hmem : e ∈ missing w rules user rows := List.mem_filter.mpr ⟨he, by rw [hnot]; rfl⟩
      exact List.length_filter_eq_length_iff.mp hlength e hmem
    · intro h
      have hall : ((missing w rules user rows).filter fun e => accepts w.policy e.1) = missing w rules user rows := by
        refine List.filter_eq_self.mpr fun e he => ?_
        obtain ⟨hmem, hnot⟩ := List.mem_filter.mp he
        exact h e hmem (by simpa using hnot)
      rw [hall]

/-- A concealed role is reported as granted by the dry run and not granted by the real one. -/
theorem concealed_reported : ¬ ∀ (w : Directory) (rules : List Rule) (user : User) (now : ℤ) (rows : UserRoles),
    reconcile w rules user true now rows = (rows, (reconcile w rules user false now rows).2) := by
  intro h
  have hreport := congrArg (fun x => x.2.granted)
    (h organization [⟨1, "a", some 1, none, some 5, false, false, false⟩] ⟨1, "", false⟩ 0 Table.empty)
  revert hreport
  decide

end Waldur.Autoprovisioning
