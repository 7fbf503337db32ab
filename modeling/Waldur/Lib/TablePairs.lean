import Mathlib
import Waldur.Lib.TableCounts

/-!
# Relational.TablePairs — a constraint on every two rows of a table

A unique constraint, and any other condition on two different rows, is a symmetric relation that holds between every
two rows (`Apart`).  It survives a selection of rows, a write whose new row is apart from the others, and a new row
that is apart from all.
-/

namespace Relational

namespace Table

variable {κ ρ : Type} {key : ρ → κ} {R : ρ → ρ → Prop} {t : Table κ ρ key}

/-- Every two different rows are related. -/
def Apart (R : ρ → ρ → Prop) (t : Table κ ρ key) : Prop := ∀ r ∈ t.rows, ∀ r' ∈ t.rows, r ≠ r' → R r r'

theorem apart_empty : Apart R (empty : Table κ ρ key) := fun _ hr => absurd hr List.not_mem_nil

theorem Apart.filter (h : Apart R t) (p : ρ → Bool) : Apart R (t.filter p) := fun r hr r' hr' =>
  h r (List.mem_of_mem_filter hr) r' (List.mem_of_mem_filter hr')

theorem Apart.imp {R' : ρ → ρ → Prop} (h : Apart R t) (himp : ∀ r r', R r r' → R' r r') : Apart R' t :=
  fun r hr r' hr' hne => himp r r' (h r hr r' hr' hne)

theorem mem_filter {p : ρ → Bool} {r : ρ} : r ∈ (t.filter p).rows ↔ r ∈ t.rows ∧ p r = true := List.mem_filter

variable [DecidableEq κ] {r : ρ} {f : ρ → ρ} {hf : ∀ r, key (f r) = key r}

/-- The rows after a write: the written one, and the others. -/
theorem mem_update_of_mem (hr : r ∈ t.rows) {r' : ρ} :
    r' ∈ (t.update (key r) f hf).rows ↔ r' = f r ∨ r' ∈ t.rows ∧ r' ≠ r := by
  rw [mem_update]
  constructor
  · rintro ⟨s, hs, rfl⟩
    by_cases hk : key s = key r
    · rw [if_pos hk, t.eq_of_key_eq hs hr hk]
      exact Or.inl rfl
    · rw [if_neg hk]
      exact Or.inr ⟨hs, fun heq => hk (congrArg key heq)⟩
  · rintro (rfl | ⟨hs, hne⟩)
    · exact ⟨r, hr, (if_pos rfl).symm⟩
    · exact ⟨r', hs, (if_neg fun hk => hne (t.eq_of_key_eq hs hr hk)).symm⟩

theorem Apart.update (hsymm : ∀ r r', R r r' → R r' r) (h : Apart R t) (hr : r ∈ t.rows)
    (hnew : ∀ r' ∈ t.rows, r' ≠ r → R (f r) r') : Apart R (t.update (key r) f hf) := by
  intro a ha b hb hne
  rcases (mem_update_of_mem hr).mp ha with rfl | ⟨ha, har⟩
  · rcases (mem_update_of_mem hr).mp hb with rfl | ⟨hb, hbr⟩
    · exact absurd rfl hne
    · exact hnew b hb hbr
  · rcases (mem_update_of_mem hr).mp hb with rfl | ⟨hb, -⟩
    · exact hsymm _ _ (hnew a ha har)
    · exact h a ha b hb hne

end Table

namespace Table

variable {ρ : Type} {key : ρ → ℕ} {R : ρ → ρ → Prop} {t : Table ℕ ρ key} {row : ℕ → ρ}
  {hrow : ∀ id, key (row id) = id}

theorem mem_add {r : ρ} : r ∈ (t.add row hrow).rows ↔ r ∈ t.rows ∨ r = row t.freshId := by
  rw [rows_add, List.mem_append, List.mem_singleton]

theorem Apart.add (hsymm : ∀ r r', R r r' → R r' r) (h : Apart R t)
    (hnew : ∀ r ∈ t.rows, R (row t.freshId) r) : Apart R (t.add row hrow) := by
  intro a ha b hb hne
  rcases mem_add.mp ha with ha | rfl
  · rcases mem_add.mp hb with hb | rfl
    · exact h a ha b hb hne
    · exact hsymm _ _ (hnew a ha)
  · rcases mem_add.mp hb with hb | rfl
    · exact hnew b hb
    · exact absurd rfl hne

end Table

end Relational
