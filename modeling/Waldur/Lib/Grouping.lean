import Mathlib

/-!
# Lib.Grouping — dictionaries of lists, filled one pair at a time

`d.setdefault(key, []).append(x)` over a list of pairs leaves, for each key that occurs, the values it occurs with, and
no other key (`mem_group`, `lookup_group_isSome`).  An assignment of one value to many keys is the last word on each of
them (`lookup_assign`).
-/

namespace Grouping

variable {κ α β : Type} [DecidableEq κ]

/-- A dictionary. -/
abbrev Dict (κ β : Type) := AList fun _ : κ => β

section Group

variable {put : α → List α → List α} {pairs : List (κ × α)} {groups : Dict κ (List α)} {k : κ} {x : α} {xs : List α}

/-- `groups.setdefault(key, []).append(x)`, or `.add(x)`, by the way `put` adds a value. -/
def add (put : α → List α → List α) (groups : Dict κ (List α)) (pair : κ × α) : Dict κ (List α) :=
  groups.insert pair.1 (put pair.2 ((groups.lookup pair.1).getD []))

def group (put : α → List α → List α) (pairs : List (κ × α)) : Dict κ (List α) := pairs.foldl (add put) ∅

/-- A way of adding a value keeps the others. -/
def Adds (put : α → List α → List α) : Prop := ∀ x xs y, y ∈ put x xs ↔ y = x ∨ y ∈ xs

theorem adds_append : Adds fun (x : α) xs => xs ++ [x] := fun x xs y => by
  rw [List.mem_append, List.mem_singleton, or_comm]

theorem adds_insert [BEq α] [LawfulBEq α] : Adds (List.insert : α → List α → List α) := fun _ _ _ => List.mem_insert_iff

theorem mem_add (hput : Adds put) (pair : κ × α) : x ∈ ((add put groups pair).lookup k).getD [] ↔
    (k, x) = pair ∨ x ∈ (groups.lookup k).getD [] := by
  unfold add
  by_cases hk : k = pair.1
  · rw [← hk, AList.lookup_insert, Option.getD_some, hput]
    exact or_congr_left ⟨fun hx => Prod.ext hk hx, fun h => congrArg Prod.snd h⟩
  · rw [AList.lookup_insert_ne hk]
    exact (or_iff_right fun h => hk (congrArg Prod.fst h)).symm

theorem mem_foldl_add (hput : Adds put) : x ∈ ((pairs.foldl (add put) groups).lookup k).getD [] ↔
    (k, x) ∈ pairs ∨ x ∈ (groups.lookup k).getD [] := by
  induction pairs generalizing groups with
  | nil => simp
  | cons pair pairs ih =>
    rw [List.foldl_cons, ih, mem_add hput, List.mem_cons, ← or_assoc, or_comm (a := (k, x) ∈ pairs)]

/-- The group of a key has the values that the key is paired with. -/
theorem mem_group (hput : Adds put) : x ∈ ((group put pairs).lookup k).getD [] ↔ (k, x) ∈ pairs := by
  unfold group
  rw [mem_foldl_add hput, AList.lookup_empty, Option.getD_none]
  exact or_iff_left List.not_mem_nil

theorem mem_foldl_add_keys : k ∈ pairs.foldl (add put) groups ↔ k ∈ pairs.map Prod.fst ∨ k ∈ groups := by
  induction pairs generalizing groups with
  | nil => simp
  | cons pair pairs ih =>
    rw [List.foldl_cons, ih, List.map_cons, List.mem_cons]
    unfold add
    rw [AList.mem_insert, ← or_assoc, or_comm (a := k ∈ pairs.map Prod.fst)]

theorem mem_group_keys : k ∈ group put pairs ↔ k ∈ pairs.map Prod.fst := by
  unfold group
  rw [mem_foldl_add_keys]
  exact or_iff_left (AList.notMem_empty k)

/-- An entry of the dictionary holds the values of its key. -/
theorem mem_of_mem_entries (hput : Adds put) (h : ⟨k, xs⟩ ∈ (group put pairs).entries) : x ∈ xs ↔ (k, x) ∈ pairs := by
  rw [← mem_group hput, AList.mem_lookup_iff.mpr h, Option.getD_some]

/-- Some entry has a value under a key exactly if the pair was there. -/
theorem exists_entry (hput : Adds put) :
    (∃ entry ∈ (group put pairs).entries, entry.1 = k ∧ x ∈ entry.2) ↔ (k, x) ∈ pairs := by
  constructor
  · rintro ⟨⟨_, xs⟩, hentry, rfl, hx⟩
    exact (mem_of_mem_entries hput hentry).mp hx
  · intro h
    have hx := (mem_group hput).mpr h
    cases hlookup : (group put pairs).lookup k with
    | none =>
      rw [hlookup] at hx
      exact absurd hx List.not_mem_nil
    | some xs =>
      rw [hlookup] at hx
      exact ⟨⟨k, xs⟩, AList.mem_lookup_iff.mp hlookup, rfl, hx⟩

theorem group_entries_eq_nil : (group put pairs).entries = [] ↔ pairs = [] := by
  constructor
  · intro h
    cases pairs with
    | nil => rfl
    | cons pair pairs =>
      have hmem : pair.1 ∈ group put (pair :: pairs) := mem_group_keys.mpr List.mem_cons_self
      rw [AList.mem_keys] at hmem
      unfold AList.keys at hmem
      rw [h] at hmem
      exact absurd hmem List.not_mem_nil
  · rintro rfl
    rfl

end Group

section Assign

variable {d : Dict κ β} {keys : List κ} {k : κ} {v : β}

/-- `for key in keys: d[key] = v`. -/
def assign (v : β) (keys : List κ) (d : Dict κ β) : Dict κ β := keys.foldl (fun d key => d.insert key v) d

theorem lookup_assign : (assign v keys d).lookup k = if k ∈ keys then some v else d.lookup k := by
  unfold assign
  induction keys generalizing d with
  | nil => simp
  | cons key keys ih =>
    rw [List.foldl_cons, ih]
    by_cases hkeys : k ∈ keys
    · rw [if_pos hkeys, if_pos (List.mem_cons_of_mem key hkeys)]
    · rw [if_neg hkeys]
      by_cases hk : k = key
      · rw [hk, AList.lookup_insert, if_pos List.mem_cons_self]
      · rw [AList.lookup_insert_ne hk, if_neg (by rw [List.mem_cons]; exact not_or.mpr ⟨hk, hkeys⟩)]

end Assign

end Grouping
