import Mathlib

/-!
# Lib.Documents — finite maps kept in the order of their keys

A document is a list of entries in increasing order of the keys, so two documents with the same entries are one, and
a loop over a document meets its entries in that order.  `ofEntries` is the map a list of assignments leaves, the
last assignment to a key winning.  An assignment list that takes each entry to another key (and value) leaves the
document it started from exactly when no two keys meet and every entry is found under the new key (`ofEntries_eq_iff`).
-/

namespace Documents

/-- A finite map, its entries in increasing order of the keys. -/
structure Document (κ ν : Type) [LinearOrder κ] where
  entries : List (κ × ν)
  sorted : (entries.map Prod.fst).Pairwise (· < ·)

namespace Document

variable {κ ν : Type} [LinearOrder κ] {d d' : Document κ ν} {k k' : κ} {v : ν}

instance [DecidableEq ν] : DecidableEq (Document κ ν) := fun d d' =>
  decidable_of_iff (d.entries = d'.entries) ⟨fun h => by cases d; cases d'; cases h; rfl, fun h => h ▸ rfl⟩

/-- The document without entries. -/
def empty : Document κ ν := ⟨[], .nil⟩

instance : Inhabited (Document κ ν) := ⟨empty⟩

def keys (d : Document κ ν) : List κ := d.entries.map Prod.fst

/-- `dict.get`. -/
def get? (d : Document κ ν) (k : κ) : Option ν := (d.entries.find? fun e => decide (e.1 = k)).map Prod.snd

/-- The entries a condition keeps. -/
def filter (d : Document κ ν) (p : κ × ν → Bool) : Document κ ν where
  entries := d.entries.filter p
  sorted := d.sorted.sublist (List.filter_sublist.map _)

theorem nodup_keys (d : Document κ ν) : d.keys.Nodup := d.sorted.imp fun h => ne_of_lt h

theorem nodup_entries (d : Document κ ν) : d.entries.Nodup := d.nodup_keys.of_map

theorem eq_of_key_eq {e e' : κ × ν} (he : e ∈ d.entries) (he' : e' ∈ d.entries) (h : e.1 = e'.1) : e = e' :=
  List.inj_on_of_nodup_map d.nodup_keys he he' h

theorem get?_eq_some : d.get? k = some v ↔ (k, v) ∈ d.entries := by
  unfold get?
  rw [Option.map_eq_some_iff]
  constructor
  · rintro ⟨e, he, rfl⟩
    have hk : e.1 = k := by simpa using List.find?_some he
    exact hk ▸ List.mem_of_find?_eq_some he
  · intro h
    cases hf : d.entries.find? fun e => decide (e.1 = k) with
    | none => simpa using List.find?_eq_none.mp hf _ h
    | some e =>
      have hk : e.1 = k := by simpa using List.find?_some hf
      exact ⟨e, rfl, congrArg Prod.snd (d.eq_of_key_eq (List.mem_of_find?_eq_some hf) h hk)⟩

theorem mem_keys : k ∈ d.keys ↔ ∃ v, d.get? k = some v := by
  unfold keys
  rw [List.mem_map]
  constructor
  · rintro ⟨e, he, rfl⟩
    exact ⟨e.2, get?_eq_some.mpr he⟩
  · rintro ⟨v, hv⟩
    exact ⟨(k, v), get?_eq_some.mp hv, rfl⟩

theorem get?_eq_none : d.get? k = none ↔ k ∉ d.keys := by
  rw [mem_keys, not_exists]
  cases d.get? k with
  | none => exact ⟨fun _ _ => nofun, fun _ => rfl⟩
  | some v => exact ⟨nofun, fun h => absurd rfl (h v)⟩

theorem ext_entries (h : ∀ e, e ∈ d.entries ↔ e ∈ d'.entries) : d = d' := by
  have hperm : d.entries.Perm d'.entries := (List.perm_ext_iff_of_nodup d.nodup_entries d'.nodup_entries).mpr h
  have hsorted : ∀ d : Document κ ν, d.entries.Pairwise fun a b => a.1 < b.1 := fun d => List.pairwise_map.mp d.sorted
  have hentries : d.entries = d'.entries := by
    refine List.Perm.eq_of_pairwise ?_ (hsorted d) (hsorted d') hperm
    exact fun a b _ _ hab hba => absurd hab (lt_asymm hba)
  cases d
  cases d'
  cases hentries
  rfl

@[ext] theorem ext_get? (h : ∀ k, d.get? k = d'.get? k) : d = d' := by
  refine ext_entries fun ⟨k, v⟩ => ?_
  rw [← get?_eq_some, ← get?_eq_some, h k]

theorem get?_filter {p : κ × ν → Bool} :
    (d.filter p).get? k = some v ↔ d.get? k = some v ∧ p (k, v) = true := by
  rw [get?_eq_some, get?_eq_some]
  exact List.mem_filter

section Insert

/-- Assign to one key of a sorted list of entries. -/
def insertEntry (k : κ) (v : ν) : List (κ × ν) → List (κ × ν)
  | [] => [(k, v)]
  | e :: l => if k < e.1 then (k, v) :: e :: l else if k = e.1 then (k, v) :: l else e :: insertEntry k v l

theorem mem_map_insertEntry {l : List (κ × ν)} (h : k' ∈ (insertEntry k v l).map Prod.fst) :
    k' = k ∨ k' ∈ l.map Prod.fst := by
  induction l with
  | nil => exact Or.inl (List.mem_singleton.mp h)
  | cons e l ih =>
    unfold insertEntry at h
    split_ifs at h with hlt heq
    · exact List.mem_cons.mp h
    · rcases List.mem_cons.mp h with h | h
      · exact Or.inl h
      · exact Or.inr (List.mem_cons_of_mem _ h)
    · rcases List.mem_cons.mp h with h | h
      · exact Or.inr (h ▸ List.mem_cons_self)
      · rcases ih h with h | h
        · exact Or.inl h
        · exact Or.inr (List.mem_cons_of_mem _ h)

theorem pairwise_insertEntry {l : List (κ × ν)} (h : (l.map Prod.fst).Pairwise (· < ·)) :
    ((insertEntry k v l).map Prod.fst).Pairwise (· < ·) := by
  induction l with
  | nil => exact List.pairwise_singleton _ _
  | cons e l ih =>
    obtain ⟨hhead, htail⟩ := List.pairwise_cons.mp h
    unfold insertEntry
    split_ifs with hlt heq
    · refine List.pairwise_cons.mpr ⟨fun k' hk' => ?_, h⟩
      rcases List.mem_cons.mp hk' with rfl | hk'
      · exact hlt
      · exact hlt.trans (hhead k' hk')
    · exact List.pairwise_cons.mpr ⟨fun k' hk' => heq ▸ hhead k' hk', htail⟩
    · refine List.pairwise_cons.mpr ⟨fun k' hk' => ?_, ih htail⟩
      rcases mem_map_insertEntry hk' with rfl | hk'
      · exact lt_of_le_of_ne (not_lt.mp hlt) (Ne.symm heq)
      · exact hhead k' hk'

/-- `document[k] = v`. -/
def insert (d : Document κ ν) (k : κ) (v : ν) : Document κ ν := ⟨insertEntry k v d.entries, pairwise_insertEntry d.sorted⟩

theorem mem_insertEntry {l : List (κ × ν)} (h : (l.map Prod.fst).Pairwise (· < ·)) {e : κ × ν} :
    e ∈ insertEntry k v l ↔ e = (k, v) ∨ e ∈ l ∧ e.1 ≠ k := by
  induction l with
  | nil => simp [insertEntry]
  | cons a l ih =>
    obtain ⟨hhead, htail⟩ := List.pairwise_cons.mp h
    have hafter : ∀ e ∈ l, a.1 < e.1 := fun e he => hhead _ (List.mem_map_of_mem he)
    unfold insertEntry
    split_ifs with hlt heq
    · rw [List.mem_cons]
      refine or_congr_right ⟨fun he => ⟨he, ?_⟩, And.left⟩
      rcases List.mem_cons.mp he with rfl | he
      · exact ne_of_gt hlt
      · exact ne_of_gt (hlt.trans (hafter e he))
    · rw [List.mem_cons]
      refine or_congr_right ⟨fun he => ⟨List.mem_cons_of_mem _ he, heq ▸ ne_of_gt (hafter e he)⟩, fun ⟨he, hne⟩ => ?_⟩
      rcases List.mem_cons.mp he with rfl | he
      · exact absurd heq.symm hne
      · exact he
    · rw [List.mem_cons, ih htail, List.mem_cons]
      constructor
      · rintro (rfl | rfl | ⟨he, hne⟩)
        · exact Or.inr ⟨Or.inl rfl, Ne.symm heq⟩
        · exact Or.inl rfl
        · exact Or.inr ⟨Or.inr he, hne⟩
      · rintro (rfl | ⟨rfl | he, hne⟩)
        · exact Or.inr (Or.inl rfl)
        · exact Or.inl rfl
        · exact Or.inr (Or.inr ⟨he, hne⟩)

theorem get?_insert_self : (d.insert k v).get? k = some v :=
  get?_eq_some.mpr ((mem_insertEntry d.sorted).mpr (Or.inl rfl))

theorem get?_insert_ne (h : k' ≠ k) : (d.insert k v).get? k' = d.get? k' := by
  refine Option.ext fun w => ?_
  rw [get?_eq_some, get?_eq_some]
  refine (mem_insertEntry d.sorted).trans ⟨?_, fun he => Or.inr ⟨he, h⟩⟩
  rintro (heq | ⟨he, -⟩)
  · exact absurd (congrArg Prod.fst heq) h
  · exact he

/-- `document.pop(k, None)`. -/
def erase (d : Document κ ν) (k : κ) : Document κ ν := d.filter fun e => decide (e.1 ≠ k)

theorem get?_erase_self : (d.erase k).get? k = none := by
  refine Option.eq_none_iff_forall_not_mem.mpr fun v hv => ?_
  exact absurd rfl (of_decide_eq_true (get?_filter.mp hv).2)

theorem get?_erase_ne (h : k' ≠ k) : (d.erase k).get? k' = d.get? k' :=
  Option.ext fun _ => get?_filter.trans (and_iff_left (decide_eq_true h))

end Insert

section OfEntries

variable {l l' : List (κ × ν)}

/-- The document that a list of assignments leaves. -/
def ofEntries (l : List (κ × ν)) : Document κ ν := l.foldl (fun d e => d.insert e.1 e.2) empty

@[simp] theorem ofEntries_nil : (ofEntries [] : Document κ ν) = empty := rfl

theorem ofEntries_concat (e : κ × ν) : ofEntries (l ++ [e]) = (ofEntries l).insert e.1 e.2 := by
  simp [ofEntries, List.foldl_append]

theorem keys_ofEntries : k ∈ (ofEntries l).keys ↔ k ∈ l.map Prod.fst := by
  induction l using List.reverseRecOn with
  | nil => exact Iff.rfl
  | append_singleton l e ih =>
    rw [ofEntries_concat, List.map_append, List.mem_append, ← ih, mem_keys, mem_keys]
    by_cases hk : k = e.1
    · subst hk
      exact iff_of_true ⟨e.2, get?_insert_self⟩ (Or.inr List.mem_cons_self)
    · rw [get?_insert_ne hk]
      refine (or_iff_left fun h => hk ?_).symm
      exact List.mem_singleton.mp h

/-- Every entry of the document was assigned. -/
theorem mem_of_get?_ofEntries (h : (ofEntries l).get? k = some v) : (k, v) ∈ l := by
  induction l using List.reverseRecOn with
  | nil => exact nomatch h
  | append_singleton l e ih =>
    rw [ofEntries_concat] at h
    by_cases hk : k = e.1
    · subst hk
      rw [get?_insert_self] at h
      obtain rfl := Option.some.inj h
      exact List.mem_append_right _ List.mem_cons_self
    · rw [get?_insert_ne hk] at h
      exact List.mem_append_left _ (ih h)

/-- Assignments to distinct keys all stay. -/
theorem get?_ofEntries (h : (l.map Prod.fst).Nodup) : (ofEntries l).get? k = some v ↔ (k, v) ∈ l := by
  refine ⟨mem_of_get?_ofEntries, fun hmem => ?_⟩
  obtain ⟨w, hw⟩ := mem_keys.mp (keys_ofEntries.mpr (List.mem_map_of_mem hmem))
  have heq : (k, v) = (k, w) := List.inj_on_of_nodup_map h hmem (mem_of_get?_ofEntries hw) rfl
  rw [hw, (Prod.mk.inj heq).2]

theorem length_ofEntries_le : (ofEntries l).entries.length ≤ l.length := by
  have hsub : (ofEntries l).keys ⊆ l.map Prod.fst := fun k hk => keys_ofEntries.mp hk
  have hle := ((ofEntries l).nodup_keys.subperm hsub).length_le
  unfold keys at hle
  rwa [List.length_map, List.length_map] at hle

/-- A key assigned twice loses an entry. -/
theorem nodup_of_length_ofEntries (h : (ofEntries l).entries.length = l.length) : (l.map Prod.fst).Nodup := by
  have hsub : l.map Prod.fst ⊆ (ofEntries l).keys := fun k hk => keys_ofEntries.mpr hk
  have hdedup : (l.map Prod.fst).dedup.length = l.length := by
    refine le_antisymm ((List.dedup_sublist _).length_le.trans_eq (List.length_map _)) ?_
    have hkeys : (ofEntries l).keys ⊆ (l.map Prod.fst).dedup := fun k hk =>
      List.mem_dedup.mpr (keys_ofEntries.mp hk)
    have hle := ((ofEntries l).nodup_keys.subperm hkeys).length_le
    unfold keys at hle
    rw [List.length_map] at hle
    omega
  rw [← List.dedup_eq_self]
  exact (List.dedup_sublist _).eq_of_length (by rw [hdedup, List.length_map])

/-- Assignments to distinct keys are the entries of the document. -/
theorem entries_ofEntries_perm (h : (l.map Prod.fst).Nodup) : (ofEntries l).entries.Perm l := by
  refine (List.perm_ext_iff_of_nodup (nodup_entries _) h.of_map).mpr fun e => ?_
  rw [← get?_ofEntries h, get?_eq_some]

end OfEntries

section Renaming

/-- Under `f` no two entries meet, and every entry is found again where it goes. -/
def Fixes (f : κ × ν → κ × ν) (d : Document κ ν) : Prop :=
  (d.entries.map fun e => (f e).1).Nodup ∧ ∀ e ∈ d.entries, f e ∈ d.entries

instance [DecidableEq ν] (f : κ × ν → κ × ν) (d : Document κ ν) : Decidable (d.Fixes f) :=
  inferInstanceAs (Decidable (_ ∧ _))

variable {f g : κ × ν → κ × ν} {l l' : List (κ × ν)}

/-- **When renaming changes nothing**: assigning every entry where `f` takes it builds the document again exactly when
no two entries meet and each is found where it goes. -/
theorem ofEntries_eq_iff (h : l.Perm (d.entries.map f)) : ofEntries l = d ↔ d.Fixes f := by
  have hlength : l.length = d.entries.length := h.length_eq.trans (List.length_map _)
  have hkeys : (l.map Prod.fst).Nodup ↔ (d.entries.map fun e => (f e).1).Nodup := by
    rw [(h.map Prod.fst).nodup_iff, List.map_map]
    rfl
  constructor
  · intro heq
    have hnodup : (l.map Prod.fst).Nodup := nodup_of_length_ofEntries (by rw [heq, hlength])
    refine ⟨hkeys.mp hnodup, fun e he => ?_⟩
    have hmem := (entries_ofEntries_perm hnodup).mem_iff.mpr (h.mem_iff.mpr (List.mem_map_of_mem he))
    rwa [heq] at hmem
  · rintro ⟨hdistinct, hfound⟩
    have hnodup := hkeys.mpr hdistinct
    have hperm := entries_ofEntries_perm hnodup
    have hsub : (ofEntries l).entries ⊆ d.entries := fun e he => by
      obtain ⟨e', he', rfl⟩ := List.mem_map.mp (h.mem_iff.mp (hperm.mem_iff.mp he))
      exact hfound e' he'
    have hall := ((nodup_entries _).subperm hsub).perm_of_length_le (by rw [hperm.length_eq, hlength])
    exact ext_entries fun e => hall.mem_iff

/-- **When renaming there and back changes nothing**: the way back sees only the key and the value. -/
theorem ofEntries_comp_eq_iff (h : l.Perm (d.entries.map f)) (h' : l'.Perm ((ofEntries l).entries.map g))
    (hg : ∀ e e', e.1 = e'.1 → (g e).1 = (g e').1) : ofEntries l' = d ↔ d.Fixes (g ∘ f) := by
  by_cases hnodup : (l.map Prod.fst).Nodup
  · refine ofEntries_eq_iff (h'.trans ?_)
    rw [← List.map_map]
    exact ((entries_ofEntries_perm hnodup).trans h).map g
  · refine iff_of_false (fun heq => hnodup (nodup_of_length_ofEntries ?_)) fun hfixes => hnodup ?_
    · have hl : l.length = d.entries.length := h.length_eq.trans (List.length_map _)
      have hl' : l'.length = (ofEntries l).entries.length := h'.length_eq.trans (List.length_map _)
      have hle := length_ofEntries_le (l := l')
      have hle' := length_ofEntries_le (l := l)
      rw [heq] at hle
      omega
    · rw [(h.map Prod.fst).nodup_iff, List.map_map]
      exact List.pairwise_map.mpr ((List.pairwise_map.mp hfixes.1).imp fun hne heq => hne (hg _ _ heq))

end Renaming

end Document

end Documents
