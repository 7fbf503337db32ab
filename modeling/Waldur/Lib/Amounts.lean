import Mathlib
import Waldur.Lib.Documents

/-!
# Amounts — a document of amounts, and other amounts taken into it one by one

A key that a document does not have counts as 0.  `adjust` takes the entries of another document into it with an
operation that may round; where no sum is rounded the amounts are added (`amount_adjust_of_exact`).
-/

namespace Documents.Document

variable {κ : Type} [LinearOrder κ] {d d' : Document κ ℚ} {k : κ} {v : ℚ}

/-- `document.get(k, 0)`. -/
def amount (d : Document κ ℚ) (k : κ) : ℚ := (d.get? k).getD 0

theorem amount_insert_self : (d.insert k v).amount k = v := by
  unfold amount
  rw [get?_insert_self]
  rfl

theorem amount_insert_ne {k' : κ} (h : k' ≠ k) : (d.insert k v).amount k' = d.amount k' := by
  unfold amount
  rw [get?_insert_ne h]

theorem amount_of_mem (h : (k, v) ∈ d.entries) : d.amount k = v := by
  unfold amount
  rw [get?_eq_some.mpr h]
  rfl

theorem amount_of_not_mem (h : k ∉ d.keys) : d.amount k = 0 := by
  unfold amount
  rw [get?_eq_none.mpr h]
  rfl

/-- The entries of a list taken into a document, one by one. -/
def adjust (combine : ℚ → ℚ → ℚ) (d : Document κ ℚ) (l : List (κ × ℚ)) : Document κ ℚ :=
  l.foldl (fun d e => d.insert e.1 (combine (d.amount e.1) e.2)) d

variable {combine : ℚ → ℚ → ℚ} {l : List (κ × ℚ)}

theorem amount_adjust_of_not_mem (h : k ∉ l.map Prod.fst) : (d.adjust combine l).amount k = d.amount k := by
  induction l generalizing d with
  | nil => rfl
  | cons e l ih =>
    rw [List.map_cons, List.mem_cons, not_or] at h
    exact (ih h.2).trans (amount_insert_ne h.1)

/-- An amount is combined once. -/
theorem amount_adjust_of_mem (hl : (l.map Prod.fst).Nodup) (h : (k, v) ∈ l) :
    (d.adjust combine l).amount k = combine (d.amount k) v := by
  induction l generalizing d with
  | nil => exact absurd h List.not_mem_nil
  | cons e l ih =>
    rw [List.map_cons, List.nodup_cons] at hl
    rcases List.mem_cons.mp h with rfl | h
    · exact (amount_adjust_of_not_mem hl.1).trans amount_insert_self
    · have hne : k ≠ e.1 := fun heq => hl.1 (heq ▸ List.mem_map_of_mem (f := Prod.fst) h)
      exact (ih hl.2 h).trans (by rw [amount_insert_ne hne])

/-- **Where the operation adds exactly, the amounts are added.** -/
theorem amount_adjust_of_exact (sign : ℚ)
    (h : ∀ e ∈ d'.entries, combine (d.amount e.1) e.2 = d.amount e.1 + sign * e.2) (k : κ) :
    (d.adjust combine d'.entries).amount k = d.amount k + sign * d'.amount k := by
  by_cases hk : k ∈ d'.keys
  · obtain ⟨v, hv⟩ := mem_keys.mp hk
    have hmem := get?_eq_some.mp hv
    rw [amount_adjust_of_mem d'.nodup_keys hmem, h _ hmem, amount_of_mem hmem]
  · rw [amount_adjust_of_not_mem hk, amount_of_not_mem hk, mul_zero, add_zero]

end Documents.Document
