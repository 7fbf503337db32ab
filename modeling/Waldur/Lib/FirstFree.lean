import Mathlib

/-!
# Lib.FirstFree — the first name of a sequence that is not taken

A loop that tries one candidate after the other ends at the first one that is not taken.  There is one where the
candidates differ from some number on: the taken names run out (`firstFree_total`).
-/

namespace FirstFree

variable {α : Type} {candidate : ℕ → α} {taken : List α} {fuel k m n : ℕ} {x : α}

/-- Of as many different candidates as there are names taken, and one more, some candidate is free. -/
theorem exists_free (taken : List α) (hinj : ∀ i j, m ≤ i → m ≤ j → candidate i = candidate j → i = j) :
    ∃ n, m ≤ n ∧ n ≤ m + taken.length ∧ candidate n ∉ taken := by
  by_contra hnone
  have hsub : (List.range (taken.length + 1)).map (fun i => candidate (m + i)) ⊆ taken := by
    intro x hx
    obtain ⟨i, hi, rfl⟩ := List.mem_map.mp hx
    rw [List.mem_range] at hi
    exact not_not.mp fun hfree => hnone ⟨m + i, by omega, by omega, hfree⟩
  have hnodup : ((List.range (taken.length + 1)).map fun i => candidate (m + i)).Nodup := by
    refine List.nodup_range.map fun i j heq => ?_
    have heq' := hinj _ _ (by omega) (by omega) heq
    omega
  have hlength := (List.subperm_of_subset hnodup hsub).length_le
  rw [List.length_map, List.length_range] at hlength
  omega

variable [DecidableEq α]

/-- `while candidate in taken`, from the candidate `k` on. -/
def firstFree (candidate : ℕ → α) (taken : List α) : ℕ → ℕ → Option α
  | 0, _ => none
  | fuel + 1, k => if candidate k ∈ taken then firstFree candidate taken fuel (k + 1) else some (candidate k)

/-- The first free number. -/
def IsFirstFree (candidate : ℕ → α) (taken : List α) (k n : ℕ) : Prop :=
  k ≤ n ∧ candidate n ∉ taken ∧ ∀ j, k ≤ j → j < n → candidate j ∈ taken

theorem firstFree_of_isFirstFree (h : IsFirstFree candidate taken k n) (hfuel : n < k + fuel) :
    firstFree candidate taken fuel k = some (candidate n) := by
  obtain ⟨hle, hfree, htaken⟩ := h
  induction fuel generalizing k with
  | zero => omega
  | succ fuel ih =>
    unfold firstFree
    rcases hle.eq_or_lt with rfl | hlt
    · exact if_neg hfree
    · rw [if_pos (htaken k le_rfl hlt)]
      exact ih (by omega) hlt fun j hj => htaken j (by omega)

theorem exists_isFirstFree (taken : List α) (hkm : k ≤ m)
    (hinj : ∀ i j, m ≤ i → m ≤ j → candidate i = candidate j → i = j) :
    ∃ n, IsFirstFree candidate taken k n ∧ n ≤ m + taken.length := by
  obtain ⟨n, hmn, hle, hfree⟩ := exists_free taken hinj
  have hexists : ∃ n, k ≤ n ∧ candidate n ∉ taken := ⟨n, hkm.trans hmn, hfree⟩
  obtain ⟨hkfirst, hfirst⟩ := Nat.find_spec hexists
  refine ⟨Nat.find hexists, ⟨hkfirst, hfirst, fun j hkj hj => ?_⟩, ?_⟩
  · exact not_not.mp fun hfreej => Nat.find_min hexists hj ⟨hkj, hfreej⟩
  · exact (Nat.find_le ⟨hkm.trans hmn, hfree⟩).trans hle

/-- **The loop ends.** -/
theorem firstFree_total (hkm : k ≤ m) (hinj : ∀ i j, m ≤ i → m ≤ j → candidate i = candidate j → i = j)
    (hfuel : m + taken.length < k + fuel) :
    ∃ n, IsFirstFree candidate taken k n ∧ firstFree candidate taken fuel k = some (candidate n) := by
  obtain ⟨n, hn, hle⟩ := exists_isFirstFree taken hkm hinj
  exact ⟨n, hn, firstFree_of_isFirstFree hn (hle.trans_lt hfuel)⟩

end FirstFree
