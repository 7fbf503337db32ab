import Mathlib

/-!
# Lib.CheckDigits — sums that tell a changed text from the text

A sum in which each symbol counts by its position.  One replaced symbol leaves the sum as it is modulo `m` exactly if
both count the same there, two neighbours that change places exactly if they count the same both ways.
-/

namespace CheckDigits

variable {α : Type} {m a b : ℕ} {x y : α} {p q l l' : List α} {σ : ℕ → α → ℕ}

/-- The sum of the symbols, each at its position. -/
def weighed (σ : ℕ → α → ℕ) (l : List α) : ℕ := (l.zipIdx.map fun e => σ e.2 e.1).sum

@[simp]
theorem weighed_nil : weighed σ [] = 0 := rfl

theorem weighed_cons : weighed σ (x :: l) = σ 0 x + weighed (fun i => σ (i + 1)) l := by
  unfold weighed
  rw [List.zipIdx_cons, List.map_cons, List.sum_cons, List.zipIdx_succ, List.map_map]
  rfl

theorem weighed_append : weighed σ (p ++ q) = weighed σ p + weighed (fun i => σ (i + p.length)) q := by
  induction p generalizing σ with
  | nil => rw [List.nil_append, weighed_nil, Nat.zero_add]; rfl
  | cons x p ih =>
    rw [List.cons_append, weighed_cons, weighed_cons, ih, List.length_cons, Nat.add_assoc]
    simp only [Nat.add_assoc]

/-- **A replaced symbol** is not seen exactly if it counts what the other one counted. -/
theorem weighed_replaced : weighed σ (p ++ x :: q) ≡ weighed σ (p ++ y :: q) [MOD m] ↔
    σ p.length x ≡ σ p.length y [MOD m] := by
  rw [weighed_append, weighed_append, weighed_cons, weighed_cons, Nat.zero_add]
  constructor
  · intro h
    exact Nat.ModEq.add_right_cancel' _ (Nat.ModEq.add_left_cancel' _ h)
  · exact fun h => (h.add_right _).add_left _

/-- **Two neighbours that change places** are not seen exactly if they count the same both ways. -/
theorem weighed_swapped : weighed σ (p ++ x :: y :: q) ≡ weighed σ (p ++ y :: x :: q) [MOD m] ↔
    σ p.length x + σ (p.length + 1) y ≡ σ p.length y + σ (p.length + 1) x [MOD m] := by
  rw [weighed_append, weighed_append, weighed_cons, weighed_cons, weighed_cons, weighed_cons, Nat.zero_add,
    Nat.zero_add, Nat.add_comm 1, ← Nat.add_assoc (σ p.length x), ← Nat.add_assoc (σ p.length y)]
  constructor
  · intro h
    exact Nat.ModEq.add_right_cancel' _ (Nat.ModEq.add_left_cancel' _ h)
  · exact fun h => (h.add_right _).add_left _

/-- The digit that brings a sum to a multiple of `m`. -/
theorem complement_iff (hb : b < m) : (m - a % m) % m = b ↔ a + b ≡ 0 [MOD m] := by
  have hm : 0 < m := by omega
  have hlt := Nat.mod_lt a hm
  have hmod : a + b ≡ a % m + b [MOD m] := (Nat.mod_modEq a m).symm.add_right b
  constructor
  · intro h
    refine hmod.trans ?_
    rcases Nat.eq_zero_or_pos (a % m) with hzero | hpos
    · rw [hzero, Nat.sub_zero, Nat.mod_self] at h
      rw [hzero, ← h]
    · rw [Nat.mod_eq_of_lt (by omega)] at h
      rw [show a % m + b = m by omega]
      exact Nat.modEq_zero_iff_dvd.mpr (dvd_refl m)
  · intro h
    obtain ⟨k, hk⟩ := Nat.modEq_zero_iff_dvd.mp (hmod.symm.trans h)
    have hsmall : k < 2 := by
      by_contra hlarge
      have hmul : m * 2 ≤ m * k := Nat.mul_le_mul_left m (by omega)
      omega
    obtain rfl | rfl : k = 0 ∨ k = 1 := by omega
    · have hzero : a % m = 0 ∧ b = 0 := by omega
      rw [hzero.1, hzero.2, Nat.sub_zero, Nat.mod_self]
    · rw [show m - a % m = b by omega, Nat.mod_eq_of_lt hb]

end CheckDigits
