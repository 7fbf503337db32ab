import Mathlib

/-!
# Journal — balances explained by an append-only journal

A journal row posts an amount to one account.  `Tracks` says that every balance is its opening value
plus what was posted to it; `Tracks.post` is the only rule a writer needs: append rows of one account
and move that balance by their sum.
-/

namespace Journal

variable {ρ κ M : Type} [DecidableEq κ] [AddCommGroup M] (acct : ρ → κ) (amt : ρ → M)

/-- What the rows post to account `k`. -/
def posted (rows : List ρ) (k : κ) : M := ((rows.filter (fun r => decide (acct r = k))).map amt).sum

/-- Every balance is its opening value plus what was posted to it. -/
def Tracks (opening bal : κ → M) (rows : List ρ) : Prop :=
  ∀ k, bal k = opening k + posted acct amt rows k

variable {acct amt}

@[simp] theorem posted_nil (k : κ) : posted acct amt [] k = 0 := rfl

theorem posted_append (rows new : List ρ) (k : κ) :
    posted acct amt (rows ++ new) k = posted acct amt rows k + posted acct amt new k := by
  simp [posted]

theorem posted_self {new : List ρ} {k : κ} (h : ∀ r ∈ new, acct r = k) :
    posted acct amt new k = (new.map amt).sum := by
  unfold posted
  rw [List.filter_eq_self.mpr (fun r hr => by simpa using h r hr)]

theorem posted_other {new : List ρ} {k k' : κ} (h : ∀ r ∈ new, acct r = k) (hk : k' ≠ k) :
    posted acct amt new k' = 0 := by
  unfold posted
  rw [List.filter_eq_nil_iff.mpr (fun r hr => by simpa [h r hr] using hk.symm)]
  rfl

variable {opening bal bal' : κ → M} {rows new : List ρ}

/-- **Posting**: rows of one account that sum to the move of its balance. -/
theorem Tracks.post (h : Tracks acct amt opening bal rows) {k : κ} (hnew : ∀ r ∈ new, acct r = k)
    (hk : bal' k = bal k + (new.map amt).sum) (hother : ∀ k', k' ≠ k → bal' k' = bal k') :
    Tracks acct amt opening bal' (rows ++ new) := by
  intro k'
  rw [posted_append]
  by_cases hkk : k' = k
  · subst hkk
    rw [hk, h k', posted_self hnew]
    abel
  · rw [hother k' hkk, h k', posted_other hnew hkk, add_zero]

end Journal
