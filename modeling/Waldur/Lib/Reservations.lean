import Mathlib

/-!
# Reservations — what several owners claim of one set of values

A board says which values each owner claims and which owners are rivals.  `Apart`: rivals claim nothing in
common.  Two rules for a change: nobody claims more than before (`Apart.within`), or one owner alone does
and what it claims then no rival of it claims (`Apart.reclaim`).
-/

namespace Reservations

variable {ι V : Type}

structure Board (ι V : Type) where
  rival : ι → ι → Prop
  claims : ι → Set V
  symm : ∀ {i j}, rival i j → rival j i
  irrefl : ∀ i, ¬ rival i i

namespace Board

/-- Rivals claim nothing in common. -/
def Apart (b : Board ι V) : Prop := ∀ i j, b.rival i j → Disjoint (b.claims i) (b.claims j)

/-- Nobody claims more than before and nobody has a new rival. -/
structure Within (b' b : Board ι V) : Prop where
  rival : ∀ i j, b'.rival i j → b.rival i j
  claims : ∀ i, b'.claims i ⊆ b.claims i

/-- Only `k` may claim more than before or have new rivals, and none of these claims what it then claims. -/
structure Reclaim (b' b : Board ι V) (k : ι) : Prop where
  rival : ∀ i j, i ≠ k → j ≠ k → b'.rival i j → b.rival i j
  claims : ∀ i, i ≠ k → b'.claims i ⊆ b.claims i
  own : ∀ j, b'.rival k j → Disjoint (b'.claims k) (b.claims j)

variable {b b' b'' : Board ι V}

theorem Within.refl (b : Board ι V) : Within b b := ⟨fun _ _ h => h, fun _ => Set.Subset.rfl⟩

theorem Within.trans (h : Within b'' b') (h' : Within b' b) : Within b'' b :=
  ⟨fun i j hij => h'.rival i j (h.rival i j hij), fun i => (h.claims i).trans (h'.claims i)⟩

theorem Apart.within (h : b.Apart) (hw : Within b' b) : b'.Apart := fun i j hij =>
  (h i j (hw.rival i j hij)).mono (hw.claims i) (hw.claims j)

theorem Apart.reclaim {k : ι} (h : b.Apart) (hr : Reclaim b' b k) : b'.Apart := by
  intro i j hij
  by_cases hi : i = k
  · subst hi
    have hj : j ≠ i := fun hj => b'.irrefl i (hj ▸ hij)
    exact (hr.own j hij).mono_right (hr.claims j hj)
  · by_cases hj : j = k
    · subst hj
      exact ((hr.own i (b'.symm hij)).mono_right (hr.claims i hi)).symm
    · exact (h i j (hr.rival i j hi hj hij)).mono (hr.claims i hi) (hr.claims j hj)

/-- What is claimed by an owner is claimed by no rival of it. -/
theorem Apart.not_mem (h : b.Apart) {i j : ι} (hij : b.rival i j) {v : V} (hv : v ∈ b.claims i) :
    v ∉ b.claims j := fun hv' => Set.disjoint_left.mp (h i j hij) hv hv'

end Board

end Reservations
