import Mathlib
import Waldur.Lib.Table

/-!
# Lib.TableUpserts — rows written under their keys

A row is written over the one that has its key, or else added (`upsert`); a list of rows is added one after the other,
each after a check (`insertAll`).  Two tables hold the same rows exactly if they answer alike
(`perm_map_iff`), in whatever order (`sorted`).
-/

namespace Relational

/-- Why a row is not added. -/
inductive RowError (ε : Type)
  | invalid (error : ε)
  | notUnique

namespace Table

variable {κ ρ δ ε : Type} {key : ρ → κ} [DecidableEq κ]

/-- Write a row over the one with its key, or add it. -/
def upsert (t : Table κ ρ key) (r : ρ) : Table κ ρ key :=
  if h : t.get? (key r) = none then t.insert r h
  else
    { rows := t.rows.map fun r' => if key r' = key r then r else r'
      nodup := by
        have hkeys : (t.rows.map fun r' => if key r' = key r then r else r').map key = t.rows.map key := by
          rw [List.map_map]
          refine List.map_congr_left fun r' _ => ?_
          dsimp only [Function.comp_apply]
          split
          · next hr' => exact hr'.symm
          · rfl
        rw [hkeys]
        exact t.nodup }

theorem get?_upsert (t : Table κ ρ key) (r : ρ) (k : κ) :
    (t.upsert r).get? k = if k = key r then some r else t.get? k := by
  unfold upsert
  split
  · next h => exact get?_insert t r h k
  · next h =>
    obtain ⟨old, hold⟩ := Option.ne_none_iff_exists'.mp h
    obtain ⟨hmem, hkey⟩ := get?_eq_some.mp hold
    split
    · next hk =>
      exact get?_eq_some.mpr ⟨List.mem_map.mpr ⟨old, hmem, if_pos hkey⟩, hk.symm⟩
    · next hk =>
      cases hget : t.get? k with
      | none =>
        refine get?_eq_none.mpr fun r' hr' => ?_
        obtain ⟨r'', hr'', rfl⟩ := List.mem_map.mp hr'
        split
        · exact Ne.symm hk
        · exact get?_eq_none.mp hget r'' hr''
      | some r' =>
        obtain ⟨hr', rfl⟩ := get?_eq_some.mp hget
        exact get?_eq_some.mpr ⟨List.mem_map.mpr ⟨r', hr', if_neg hk⟩, rfl⟩

theorem get?_upsert_self (t : Table κ ρ key) (r : ρ) : (t.upsert r).get? (key r) = some r := by
  rw [get?_upsert, if_pos rfl]

theorem get?_upsert_ne (t : Table κ ρ key) {r : ρ} {k : κ} (h : k ≠ key r) : (t.upsert r).get? k = t.get? k := by
  rw [get?_upsert, if_neg h]

theorem get?_of_mem (t : Table κ ρ key) {r : ρ} (h : r ∈ t.rows) : t.get? (key r) = some r :=
  get?_eq_some.mpr ⟨h, rfl⟩

/-- **Tables with the same answers** have the same rows. -/
theorem perm_iff {t t' : Table κ ρ key} : t.rows.Perm t'.rows ↔ ∀ k, t.get? k = t'.get? k := by
  rw [List.perm_ext_iff_of_nodup t.nodup.of_map t'.nodup.of_map]
  constructor
  · intro h k
    refine Option.ext fun r => ?_
    rw [get?_eq_some, get?_eq_some, h]
  · intro h r
    constructor
    · intro hr
      exact (get?_eq_some.mp ((h _).symm.trans (t.get?_of_mem hr))).1
    · intro hr
      exact (get?_eq_some.mp ((h _).trans (t'.get?_of_mem hr))).1

/-- The same of what is read from the rows. -/
theorem perm_map_iff {t t' : Table κ ρ key} {f : ρ → δ} (key' : δ → κ) (hf : ∀ r, key' (f r) = key r) :
    (t.rows.map f).Perm (t'.rows.map f) ↔ ∀ k, (t.get? k).map f = (t'.get? k).map f := by
  have hget : ∀ k, (t.mapRows f hf).get? k = (t'.mapRows f hf).get? k ↔ (t.get? k).map f = (t'.get? k).map f := by
    intro k
    rw [get?_mapRows, get?_mapRows]
  exact perm_iff.trans (forall_congr' hget)

/-- The rows in an order. -/
def sorted (le : ρ → ρ → Bool) (t : Table κ ρ key) : Table κ ρ key where
  rows := t.rows.mergeSort le
  nodup := ((List.mergeSort_perm t.rows le).map key).nodup_iff.mpr t.nodup

theorem get?_sorted (le : ρ → ρ → Bool) (t : Table κ ρ key) (k : κ) : (t.sorted le).get? k = t.get? k :=
  perm_iff.mp (List.mergeSort_perm t.rows le) k

omit [DecidableEq κ] in
theorem sorted_sorted {le : ρ → ρ → Bool} (htrans : ∀ a b c, le a b = true → le b c = true → le a c = true)
    (htotal : ∀ a b, (le a b || le b a) = true) (t : Table κ ρ key) : (t.sorted le).sorted le = t.sorted le :=
  ext (List.mergeSort_of_pairwise (List.pairwise_mergeSort htrans htotal t.rows))

/-- Rows added one after the other, with a check of each; an error has the number of its row. -/
def insertAll (check : ρ → Option ε) : ℕ → Table κ ρ key → List ρ → Except (ℕ × RowError ε) (Table κ ρ key)
  | _, t, [] => .ok t
  | i, t, r :: rows =>
    match check r with
    | some error => .error (i, .invalid error)
    | none =>
      if h : t.get? (key r) = none then insertAll check (i + 1) (t.insert r h) rows else .error (i, .notUnique)

/-- Valid rows with different keys are all added. -/
theorem insertAll_eq_ok {check : ρ → Option ε} : ∀ (i : ℕ) (t : Table κ ρ key) {rows : List ρ},
    (∀ r ∈ rows, check r = none) → (hnodup : ((t.rows ++ rows).map key).Nodup) →
      insertAll check i t rows = .ok ⟨t.rows ++ rows, hnodup⟩
  | _, t, [], _, _ => congrArg Except.ok (ext (List.append_nil t.rows).symm)
  | i, t, r :: rows, hcheck, hnodup => by
    have hnew : t.get? (key r) = none := by
      refine get?_eq_none.mpr fun r' hr' heq => ?_
      rw [List.map_append, List.nodup_append] at hnodup
      exact hnodup.2.2 _ (List.mem_map_of_mem hr') _ (List.mem_map_of_mem List.mem_cons_self) heq
    have hrest : (((t.insert r hnew).rows ++ rows).map key).Nodup := by
      change ((t.rows ++ [r] ++ rows).map key).Nodup
      rwa [List.append_assoc, List.singleton_append]
    unfold insertAll
    rw [hcheck r List.mem_cons_self]
    dsimp only
    rw [dif_pos hnew, insertAll_eq_ok (i + 1) (t.insert r hnew)
      (fun r' hr' => hcheck r' (List.mem_cons_of_mem _ hr')) hrest]
    refine congrArg Except.ok (ext ?_)
    change t.rows ++ [r] ++ rows = t.rows ++ r :: rows
    rw [List.append_assoc, List.singleton_append]

/-- What is added has passed its check. -/
theorem check_of_insertAll {check : ρ → Option ε} : ∀ {rows : List ρ} {i : ℕ} {t t' : Table κ ρ key},
    insertAll check i t rows = .ok t' → (∀ r ∈ t.rows, check r = none) → ∀ r ∈ t'.rows, check r = none
  | [], _, _, _, h, ht => Except.ok.inj h ▸ ht
  | r :: rows, i, t, t', h, ht => by
    unfold insertAll at h
    split at h
    · exact absurd h nofun
    next hcheck =>
      split at h
      next hnew =>
        refine check_of_insertAll h fun r' hr' => ?_
        rcases List.mem_append.mp hr' with hold | hself
        · exact ht r' hold
        · rw [List.mem_singleton.mp hself]
          exact hcheck
      · exact absurd h nofun

end Table

end Relational
