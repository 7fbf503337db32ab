import Mathlib
import Waldur.Lib.Table

/-!
# Relational.TableCounts — how many rows a query selects

A write moves a count by what it does to the written row (`count_update`), a new row by itself (`count_add`).  What a
write leaves alone is said by a condition that it keeps: the rows that meet it stay the same list (`filter_update`).
-/

namespace Relational

namespace Table

variable {κ ρ : Type} {key : ρ → κ} [DecidableEq κ]

/-- The number of rows that meet a condition. -/
def count (t : Table κ ρ key) (p : ρ → Bool) : ℕ := t.rows.countP p

/-- An update writes to one row and leaves those before and after it. -/
theorem rows_update (t : Table κ ρ key) {k : κ} {r : ρ} (h : t.get? k = some r) (f : ρ → ρ)
    (hf : ∀ r, key (f r) = key r) :
    ∃ l₁ l₂, t.rows = l₁ ++ r :: l₂ ∧ (t.update k f hf).rows = l₁ ++ f r :: l₂ := by
  obtain ⟨l₁, l₂, hl, hk, h₁, h₂⟩ := rows_split h
  have hkeep : ∀ l : List ρ, (∀ r' ∈ l, key r' ≠ k) → l.map (fun r => if key r = k then f r else r) = l := by
    intro l hne
    refine (List.map_congr_left fun r' hr' => ?_).trans (List.map_id l)
    rw [if_neg (hne r' hr')]
    rfl
  refine ⟨l₁, l₂, hl, ?_⟩
  show t.rows.map _ = _
  rw [hl, List.map_append, List.map_cons, if_pos hk, hkeep l₁ h₁, hkeep l₂ h₂]

theorem count_update (t : Table κ ρ key) {k : κ} {r : ρ} (h : t.get? k = some r) (f : ρ → ρ)
    (hf : ∀ r, key (f r) = key r) (p : ρ → Bool) :
    (t.update k f hf).count p + (p r).toNat = t.count p + (p (f r)).toNat := by
  obtain ⟨l₁, l₂, hl, hrows⟩ := t.rows_update h f hf
  unfold count
  rw [hrows, hl, List.countP_append, List.countP_append, List.countP_cons, List.countP_cons]
  cases p r <;> cases p (f r) <;> simp <;> omega

/-- A write to a row that is not there changes nothing. -/
theorem update_of_none {t : Table κ ρ key} {k : κ} (h : t.get? k = none) (f : ρ → ρ) (hf : ∀ r, key (f r) = key r) :
    t.update k f hf = t := by
  refine ext ((List.map_congr_left fun r hr => ?_).trans (List.map_id _))
  rw [if_neg (get?_eq_none.mp h r hr)]
  rfl

/-- The rows that meet a condition which the written row meets neither before nor after. -/
theorem filter_update (t : Table κ ρ key) {k : κ} {r : ρ} (h : t.get? k = some r) (f : ρ → ρ)
    (hf : ∀ r, key (f r) = key r) (p : ρ → Bool) (hbefore : p r = false) (hafter : p (f r) = false) :
    (t.update k f hf).rows.filter p = t.rows.filter p := by
  obtain ⟨l₁, l₂, hl, hrows⟩ := t.rows_update h f hf
  rw [hrows, hl, List.filter_append, List.filter_append,
    List.filter_cons_of_neg (by rw [hafter]; exact Bool.false_ne_true),
    List.filter_cons_of_neg (by rw [hbefore]; exact Bool.false_ne_true)]

section Add

variable {key : ρ → ℕ}

/-- A primary key that is not in use. -/
def freshId (t : Table ℕ ρ key) : ℕ := (t.rows.map key).foldr max 0 + 1

theorem get?_freshId (t : Table ℕ ρ key) : t.get? t.freshId = none := by
  refine get?_eq_none.mpr fun r hr heq => ?_
  have hle : key r ≤ (t.rows.map key).foldr max 0 := List.le_max_of_le' 0 (List.mem_map_of_mem hr) (Nat.le_refl _)
  unfold freshId at heq
  omega

theorem get?_new (t : Table ℕ ρ key) {row : ℕ → ρ} (hrow : ∀ id, key (row id) = id) :
    t.get? (key (row t.freshId)) = none := (hrow _).symm ▸ t.get?_freshId

/-- `objects.create`: a row under a new primary key. -/
def add (t : Table ℕ ρ key) (row : ℕ → ρ) (hrow : ∀ id, key (row id) = id) : Table ℕ ρ key :=
  t.insert (row t.freshId) (t.get?_new hrow)

variable {t : Table ℕ ρ key} {row : ℕ → ρ} {hrow : ∀ id, key (row id) = id} {p : ρ → Bool}

theorem rows_add : (t.add row hrow).rows = t.rows ++ [row t.freshId] := rfl

theorem count_add : (t.add row hrow).count p = t.count p + (p (row t.freshId)).toNat := by
  unfold count
  rw [rows_add, List.countP_append, List.countP_singleton]
  cases p (row t.freshId) <;> rfl

theorem filter_add (h : p (row t.freshId) = false) : (t.add row hrow).rows.filter p = t.rows.filter p := by
  rw [rows_add, List.filter_append, List.filter_cons_of_neg (by rw [h]; exact Bool.false_ne_true), List.filter_nil,
    List.append_nil]

theorem get?_add {k : ℕ} {r : ρ} (h : t.get? k = some r) : (t.add row hrow).get? k = some r := by
  obtain ⟨hr, hk⟩ := get?_eq_some.mp h
  exact get?_eq_some.mpr ⟨List.mem_append_left _ hr, hk⟩

end Add

end Table

end Relational
