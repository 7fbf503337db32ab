import Mathlib
import Waldur.Lib.TableCounts

/-!
# Relational.TableClaims — values that one row at a time may claim

The rows of a table claim values, and `Exclusive` says that no two rows claim the same one.  A write to one row keeps
that exactly if no other row claims what the written row claims afterwards (`exclusive_update`), and a new row exactly
if nothing that it claims is taken (`exclusive_add`).
-/

namespace Relational

namespace Table

variable {κ ρ ν : Type} {key : ρ → κ} {claims : ρ → ν → Prop}

/-- No value is claimed by two rows. -/
def Exclusive (claims : ρ → ν → Prop) (t : Table κ ρ key) : Prop :=
  ∀ r ∈ t.rows, ∀ r' ∈ t.rows, key r ≠ key r' → ∀ v, claims r v → ¬ claims r' v

/-- A row under another key claims the value. -/
def TakenFrom (claims : ρ → ν → Prop) (t : Table κ ρ key) (k : κ) (v : ν) : Prop :=
  ∃ r ∈ t.rows, key r ≠ k ∧ claims r v

theorem Exclusive.not_takenFrom {t : Table κ ρ key} (h : t.Exclusive claims) {r : ρ} (hr : r ∈ t.rows) {v : ν}
    (hv : claims r v) : ¬ t.TakenFrom claims (key r) v := by
  rintro ⟨r', hr', hne, hv'⟩
  exact h r hr r' hr' (Ne.symm hne) v hv hv'

variable [DecidableEq κ]

/-- After a write, the rows stay exclusive if the written one claims nothing that is taken. -/
theorem exclusive_update {t : Table κ ρ key} (h : t.Exclusive claims) {k : κ} {r : ρ} (hget : t.get? k = some r)
    (f : ρ → ρ) (hf : ∀ r, key (f r) = key r) :
    (t.update k f hf).Exclusive claims ↔ ∀ v, claims (f r) v → ¬ t.TakenFrom claims k v := by
  obtain ⟨hr, rfl⟩ := get?_eq_some.mp hget
  have hwritten : f r ∈ (t.update (key r) f hf).rows := mem_update.mpr ⟨r, hr, by rw [if_pos rfl]⟩
  have hother {r' : ρ} (hr' : r' ∈ t.rows) (hne : key r' ≠ key r) : r' ∈ (t.update (key r) f hf).rows :=
    mem_update.mpr ⟨r', hr', by rw [if_neg hne]⟩
  constructor
  · rintro hafter v hv ⟨r', hr', hne, hv'⟩
    exact hafter (f r) hwritten r' (hother hr' hne) (by rw [hf]; exact Ne.symm hne) v hv hv'
  · intro hfree a ha b hb hne v hav hbv
    obtain ⟨a', ha', rfl⟩ := mem_update.mp ha
    obtain ⟨b', hb', rfl⟩ := mem_update.mp hb
    split at hav
    · next hka =>
      obtain rfl := t.eq_of_key_eq ha' hr hka
      split at hbv
      · next hkb =>
        rw [if_pos rfl, if_pos hkb, hf, hf] at hne
        exact hne hkb.symm
      · next hkb => exact hfree v hav ⟨b', hb', hkb, hbv⟩
    · next hka =>
      split at hbv
      · next hkb =>
        obtain rfl := t.eq_of_key_eq hb' hr hkb
        exact hfree v hbv ⟨a', ha', hka, hav⟩
      · next hkb =>
        rw [if_neg hka, if_neg hkb] at hne
        exact h a' ha' b' hb' hne v hav hbv

section Add

variable {key : ρ → ℕ}

/-- A new row keeps the rows exclusive exactly if it claims nothing that is taken. -/
theorem exclusive_add {t : Table ℕ ρ key} (h : t.Exclusive claims) {row : ℕ → ρ} {hrow : ∀ id, key (row id) = id} :
    (t.add row hrow).Exclusive claims ↔
      ∀ v, claims (row t.freshId) v → ¬ t.TakenFrom claims t.freshId v := by
  have hfresh {r : ρ} (hr : r ∈ t.rows) : key r ≠ t.freshId := get?_eq_none.mp t.get?_freshId r hr
  have hrows {r : ρ} : r ∈ (t.add row hrow).rows ↔ r ∈ t.rows ∨ r = row t.freshId := by
    rw [rows_add, List.mem_append, List.mem_singleton]
  constructor
  · rintro hafter v hv ⟨r', hr', hne, hv'⟩
    exact hafter _ (hrows.mpr (Or.inr rfl)) r' (hrows.mpr (Or.inl hr')) (by rw [hrow]; exact Ne.symm hne) v hv hv'
  · intro hfree a ha b hb hne v hav hbv
    rcases hrows.mp ha with ha | rfl <;> rcases hrows.mp hb with hb | rfl
    · exact h a ha b hb hne v hav hbv
    · exact hfree v hbv ⟨a, ha, hfresh ha, hav⟩
    · exact hfree v hav ⟨b, hb, hfresh hb, hbv⟩
    · exact hne rfl

end Add

end Table

end Relational
