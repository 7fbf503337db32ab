import Mathlib
import Waldur.OfferingMerge.Models

/-!
# OfferingMerge.Renames — renaming the keys of a document

`_rename_keys` for documents keyed by component type, and `_rename_answers` for answers, whose `old_limits` hold component
types again.  Each is a list of assignments, entry by entry, so what is left as it was can be told from the keys:
`renameDocument_eq_iff` for one renaming, `renameDocument_comp_eq_iff` for one after another.
-/

namespace Waldur.OfferingMerge

open Documents Document

/-! ## `_rename_keys` -/

section RenameKeys

variable {ν : Type}

/-- `_rename_keys` on an object: the unmapped keys first, then the mapped ones under their new name. -/
def renameDocument (mapping : Document Key Key) (d : Document Key ν) : Document Key ν :=
  ofEntries ((d.entries.filter fun e => (mapping.get? e.1).isNone) ++
    d.entries.filterMap fun e => (mapping.get? e.1).map fun k => (k, e.2))

/-- `_rename_keys`. -/
def renameKeys (value : Column) (mapping : Document Key Key) : Column :=
  match value with
  | .object d => .object (renameDocument mapping d)
  | .plain l => .plain l

/-- The name of a key after the renaming. -/
def renamed (mapping : Document Key Key) (k : Key) : Key := (mapping.get? k).getD k

/-- An entry under its new key. -/
def renamedEntry (mapping : Document Key Key) (e : Key × ν) : Key × ν := (renamed mapping e.1, e.2)

variable {mapping back : Document Key Key} {d : Document Key ν} {k : Key}

theorem assignments_perm (mapping : Document Key Key) (l : List (Key × ν)) :
    ((l.filter fun e => (mapping.get? e.1).isNone) ++
      l.filterMap fun e => (mapping.get? e.1).map fun k => (k, e.2)).Perm (l.map (renamedEntry mapping)) := by
  induction l with
  | nil => exact .refl _
  | cons e l ih =>
    cases hk : mapping.get? e.1 with
    | none =>
      have hsame : renamedEntry mapping e = e := by
        unfold renamedEntry renamed
        rw [hk, Option.getD_none]
      rw [List.filter_cons_of_pos (by rw [hk]; rfl), List.filterMap_cons_none (by rw [hk]; rfl), List.map_cons, hsame]
      exact ih.cons e
    | some k =>
      have hnew : renamedEntry mapping e = (k, e.2) := by
        unfold renamedEntry renamed
        rw [hk, Option.getD_some]
      rw [List.filter_cons_of_neg (by rw [hk]; exact Bool.false_ne_true), List.filterMap_cons_some (by rw [hk]; rfl),
        List.map_cons, hnew]
      exact List.perm_middle.trans (ih.cons _)

theorem mem_keys_renameDocument : k ∈ (renameDocument mapping d).keys ↔ ∃ k' ∈ d.keys, renamed mapping k' = k := by
  unfold renameDocument
  rw [keys_ofEntries, ((assignments_perm mapping d.entries).map Prod.fst).mem_iff, List.map_map, List.mem_map]
  unfold keys
  simp only [List.mem_map, exists_exists_and_eq_and]
  rfl

/-- A renaming changes nothing where no two keys meet and every entry is found under its new key. -/
theorem renameDocument_eq_iff : renameDocument mapping d = d ↔ d.Fixes (renamedEntry mapping) :=
  ofEntries_eq_iff (assignments_perm mapping d.entries)

/-- A renaming undoes another where this holds of the two together. -/
theorem renameDocument_comp_eq_iff :
    renameDocument back (renameDocument mapping d) = d ↔ d.Fixes (renamedEntry back ∘ renamedEntry mapping) := by
  refine ofEntries_comp_eq_iff (assignments_perm mapping d.entries) (assignments_perm back _) fun e e' h => ?_
  unfold renamedEntry
  rw [h]

end RenameKeys

/-! ## `_rename_answers` -/

section RenameAnswers

/-- `old_limits`, the limits that an order replaces. -/
def oldLimits : Key := ⟨"old_limits"⟩

/-- The name of an answer after the renaming: a rename onto a key that the document has is skipped. -/
def answerKey (keyMapping : Document Key Key) (keys : List Key) (k : Key) : Key :=
  let new := (keyMapping.get? k).getD k
  if new ≠ k ∧ new ∈ keys then k else new

/-- The component-type keys of a value under `old_limits`. -/
def renameValue (typeMapping : Document Key Key) (k : Key) (value : Value) : Value :=
  match value with
  | .object limits => if k = oldLimits then .object (renameDocument typeMapping limits) else value
  | .leaf _ => value

/-- `_rename_answers` on an object. -/
def renameAnswerDocument (keyMapping typeMapping : Document Key Key) (d : Document Key Value) : Document Key Value :=
  let result : Document Key Value := ofEntries (d.entries.map fun e => (answerKey keyMapping d.keys e.1, e.2))
  match result.get? oldLimits with
  | some (.object limits) => result.insert oldLimits (.object (renameDocument typeMapping limits))
  | _ => result

/-- `_rename_answers`. -/
def renameAnswers (value : Column) (keyMapping typeMapping : Document Key Key) : Column :=
  match value with
  | .object d => .object (renameAnswerDocument keyMapping typeMapping d)
  | .plain l => .plain l

end RenameAnswers

end Waldur.OfferingMerge
