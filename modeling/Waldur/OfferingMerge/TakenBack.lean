import Mathlib
import Waldur.OfferingMerge.Undo

/-!
# OfferingMerge.TakenBack — an undo right after a merge, column by column

What the journal holds of a merge, which source an undo reads off it for each row, and when a document or an invoice
item comes back.
-/

namespace Waldur.OfferingMerge

open Documents Document PythonText Relational Repointing

/-! ## Answers there and back -/

section Answers

variable {keyMapping typeMapping : Document Key Key} {d : Document Key Value} {k : Key}

/-- An answer under its new key. -/
def answerEntry (keyMapping typeMapping : Document Key Key) (keys : List Key) (e : Key × Value) : Key × Value :=
  (answerKey keyMapping keys e.1, renameValue typeMapping (answerKey keyMapping keys e.1) e.2)

/-- Values rewritten under their keys, entry by entry. -/
theorem get?_ofEntries_map {ν : Type} {g : Key → ν → ν} (l : List (Key × ν)) :
    (ofEntries (l.map fun e => (e.1, g e.1 e.2))).get? k = ((ofEntries l).get? k).map (g k) := by
  induction l using List.reverseRecOn with
  | nil => rfl
  | append_singleton l e ih =>
    rw [List.map_append, List.map_singleton, ofEntries_concat, ofEntries_concat]
    by_cases hk : k = e.1
    · subst hk
      rw [get?_insert_self, get?_insert_self, Option.map_some]
    · rw [get?_insert_ne hk, get?_insert_ne hk, ih]

theorem renameAnswerDocument_eq : renameAnswerDocument keyMapping typeMapping d =
    ofEntries (d.entries.map (answerEntry keyMapping typeMapping d.keys)) := by
  have hentries : d.entries.map (answerEntry keyMapping typeMapping d.keys) =
      (d.entries.map fun e => (answerKey keyMapping d.keys e.1, e.2)).map
        fun e => (e.1, renameValue typeMapping e.1 e.2) := by
    rw [List.map_map]
    rfl
  rw [hentries]
  refine ext_get? fun k => ?_
  rw [get?_ofEntries_map]
  unfold renameAnswerDocument
  simp only
  cases hlimits : (ofEntries (d.entries.map fun e => (answerKey keyMapping d.keys e.1, e.2))).get? oldLimits with
  | none =>
    simp only
    by_cases hk : k = oldLimits
    · rw [hk, hlimits]
      rfl
    · have hsame : renameValue typeMapping k = id := by
        funext value
        unfold renameValue
        cases value <;> simp [hk]
      rw [hsame, Option.map_id_apply]
  | some value =>
    have hother : k ≠ oldLimits → renameValue typeMapping k = id := by
      intro hk
      funext value
      unfold renameValue
      cases value <;> simp [hk]
    cases value with
    | leaf l =>
      simp only
      by_cases hk : k = oldLimits
      · rw [hk, hlimits]
        rfl
      · rw [hother hk, Option.map_id_apply]
    | object limits =>
      simp only
      by_cases hk : k = oldLimits
      · rw [hk, get?_insert_self, hlimits]
        rfl
      · rw [get?_insert_ne hk, hother hk, Option.map_id_apply]

/-- Only the keys that are there decide the name of an answer. -/
theorem answerKey_congr {keys keys' : List Key} (h : ∀ k, k ∈ keys ↔ k ∈ keys') :
    answerKey keyMapping keys = answerKey keyMapping keys' := by
  funext k
  unfold answerKey
  simp only [h]

end Answers

namespace Merge

variable {c : Catalogue}

section Documents

variable (m : Merge c) (j : JsonKeys)

/-- An entry of a document of a source under the target. -/
def forthEntry (source : ℕ) (d : Document Key Value) (e : Key × Value) : Key × Value :=
  match j.rename with
  | .componentTypes => renamedEntry (m.componentTypeMap source) e
  | .answerKeys => answerEntry m.attributeKeyMapping (m.componentTypeMap source) d.keys e

/-- An entry under the inverse renaming, among the keys of its document. -/
def backEntry (source : ℕ) (keys : List Key) (e : Key × Value) : Key × Value :=
  match j.rename with
  | .componentTypes => renamedEntry (m.inverseTypes source) e
  | .answerKeys => answerEntry m.inverseKeys (m.inverseTypes source) keys e

variable {m j} {source source' : ℕ} {d : Document Key Value} {keys keys' : List Key}

theorem renameColumn_entries : ∃ l : List (Key × Value), m.renameColumn j source (.object d) = .object (ofEntries l) ∧
    l.Perm (d.entries.map (m.forthEntry j source d)) := by
  unfold renameColumn forthEntry
  cases j.rename with
  | componentTypes => exact ⟨_, rfl, assignments_perm _ _⟩
  | answerKeys => exact ⟨_, congrArg Column.object renameAnswerDocument_eq, .refl _⟩

theorem renameBack_entries : ∃ l : List (Key × Value), m.renameBack j source (.object d) = .object (ofEntries l) ∧
    l.Perm (d.entries.map (m.backEntry j source d.keys)) := by
  unfold renameBack backEntry
  cases j.rename with
  | componentTypes => exact ⟨_, rfl, assignments_perm _ _⟩
  | answerKeys => exact ⟨_, congrArg Column.object renameAnswerDocument_eq, .refl _⟩

theorem backEntry_congr (h : ∀ k, k ∈ keys ↔ k ∈ keys') : m.backEntry j source keys = m.backEntry j source keys' := by
  unfold backEntry answerEntry
  rw [answerKey_congr h]

theorem backEntry_key {e e' : Key × Value} (h : e.1 = e'.1) :
    (m.backEntry j source keys e).1 = (m.backEntry j source keys e').1 := by
  unfold backEntry
  cases j.rename with
  | componentTypes =>
    unfold renamedEntry
    rw [h]
  | answerKeys =>
    unfold answerEntry
    rw [h]

/-- **When a document comes back**: no two entries meet on the way there and back, and each is found where it goes. -/
def ComesBack (m : Merge c) (j : JsonKeys) (forth : Option ℕ) (source : ℕ) (d : Document Key Value) : Prop :=
  let there := forth.elim id fun o => m.forthEntry j o d
  d.Fixes (m.backEntry j source (d.entries.map fun e => (there e).1) ∘ there)

instance (forth : Option ℕ) : Decidable (m.ComesBack j forth source d) := inferInstanceAs (Decidable (d.Fixes _))

theorem comesBack_iff (forth : Option ℕ) : m.renameBack j source
    (forth.elim (.object d) fun o => m.renameColumn j o (.object d)) = .object d ↔ m.ComesBack j forth source d := by
  unfold ComesBack
  cases forth with
  | none =>
    obtain ⟨l, hback, hperm⟩ := @renameBack_entries _ m j source d
    simp only [Option.elim_none, Function.comp_id, id_eq]
    rw [hback, Column.object.injEq]
    exact ofEntries_eq_iff hperm
  | some o =>
    obtain ⟨l, hforth, hperm⟩ := @renameColumn_entries _ m j o d
    obtain ⟨l', hback, hperm'⟩ := @renameBack_entries _ m j source (ofEntries l)
    have hkeys : ∀ k, k ∈ (ofEntries l).keys ↔ k ∈ d.entries.map fun e => (m.forthEntry j o d e).1 := by
      intro k
      rw [keys_ofEntries, (hperm.map Prod.fst).mem_iff, List.map_map]
      rfl
    rw [backEntry_congr hkeys] at hperm'
    simp only [Option.elim_some]
    rw [hforth, hback, Column.object.injEq]
    exact ofEntries_comp_eq_iff hperm hperm' fun _ _ => backEntry_key

end Documents

/-! ## What the journal holds -/

section Journal

variable {m : Merge c} {db : Db} {x : Executed} {journal : List Write} {model : Model} {attname : Attname}
  {f : JsonField} {e : Relation} {r : Row}

theorem journalRefs_nil (h : (model, .inl attname) ∉ journal.map Write.column) :
    journalRefs journal model attname = [] := by
  refine List.flatMap_eq_nil_iff.mpr fun w hw => ?_
  cases w with
  | refs model' attname' rows =>
    have hne : ¬ (model' = model ∧ attname' = attname) := by
      rintro ⟨rfl, rfl⟩
      exact h (List.mem_map_of_mem hw)
    simp only [hne, if_false]
  | docs model' field' rows => rfl

theorem journalDocs_nil (h : (model, .inr f) ∉ journal.map Write.column) : journalDocs journal model f = [] := by
  refine List.flatMap_eq_nil_iff.mpr fun w hw => ?_
  cases w with
  | refs model' attname' rows => rfl
  | docs model' field' rows =>
    have hne : ¬ (model' = model ∧ field' = f) := by
      rintro ⟨rfl, rfl⟩
      exact h (List.mem_map_of_mem hw)
    simp only [hne, if_false]

/-- A field that is written once is journalled by that write. -/
theorem journalRefs_eq {rows : List (ℕ × ℕ × ℕ)} (hnodup : (journal.map Write.column).Nodup)
    (hw : Write.refs model attname rows ∈ journal) : journalRefs journal model attname = rows := by
  induction journal with
  | nil => exact absurd hw List.not_mem_nil
  | cons w journal ih =>
    obtain ⟨hnew, hnodup⟩ := List.nodup_cons.mp hnodup
    have hsplit : journalRefs (w :: journal) model attname =
        journalRefs [w] model attname ++ journalRefs journal model attname := by
      unfold journalRefs
      rw [List.flatMap_cons, List.flatMap_singleton]
    rw [hsplit]
    rcases List.mem_cons.mp hw with rfl | hw
    · rw [journalRefs_nil hnew, List.append_nil]
      simp [journalRefs]
    · have hne : (model, .inl attname) ∉ [w].map Write.column := by
        intro hmem
        rw [List.map_singleton, List.mem_singleton] at hmem
        exact hnew (hmem ▸ List.mem_map_of_mem hw)
      rw [journalRefs_nil hne, List.nil_append]
      exact ih hnodup hw

theorem journalDocs_eq {rows : List (ℕ × Column × Column)} (hnodup : (journal.map Write.column).Nodup)
    (hw : Write.docs model f rows ∈ journal) : journalDocs journal model f = rows := by
  induction journal with
  | nil => exact absurd hw List.not_mem_nil
  | cons w journal ih =>
    obtain ⟨hnew, hnodup⟩ := List.nodup_cons.mp hnodup
    have hsplit : journalDocs (w :: journal) model f = journalDocs [w] model f ++ journalDocs journal model f := by
      unfold journalDocs
      rw [List.flatMap_cons, List.flatMap_singleton]
    rw [hsplit]
    rcases List.mem_cons.mp hw with rfl | hw
    · rw [journalDocs_nil hnew, List.append_nil]
      simp [journalDocs]
    · have hne : (model, .inr f) ∉ [w].map Write.column := by
        intro hmem
        rw [List.map_singleton, List.mem_singleton] at hmem
        exact hnew (hmem ▸ List.mem_map_of_mem hw)
      rw [journalDocs_nil hne, List.nil_append]
      exact ih hnodup hw

theorem changeOf_mem {α : Type} {rows : List (ℕ × α × α)} {pk : ℕ} {change : α × α}
    (h : changeOf rows pk = some change) : (pk, change) ∈ rows := by
  obtain ⟨y, hy, rfl⟩ := Option.map_eq_some_iff.mp h
  have hpk : y.1 = pk := by simpa using List.find?_some hy
  exact hpk ▸ List.mem_of_find?_eq_some hy

/-- **What is journalled of a foreign key** is what the rows held, each once. -/
structure Planned (db : Db) (model : Model) (attname : Attname) (rows : List (ℕ × ℕ × ℕ)) : Prop where
  nodup : (rows.map Prod.fst).Nodup
  present : ∀ change ∈ rows, ∃ r ∈ (db.table model).rows, r.id = change.1 ∧ r.refs attname = some change.2.1

theorem planned_relation : Planned db e.model e.attname ((m.planRelation db e).1.filterMap fun x =>
    (x.1.refs e.attname).map fun old => (x.1.id, old, x.2)) := by
  refine ⟨nodup_filterMap nodup_moved movedRow_key, fun change hchange => ?_⟩
  obtain ⟨y, hy, hrow⟩ := List.mem_filterMap.mp hchange
  obtain ⟨old, hold, rfl⟩ := Option.map_eq_some_iff.mp hrow
  exact ⟨y.1, (moved_reference hy).1, rfl, hold⟩

theorem planned {rows : List (ℕ × ℕ × ℕ)} (h : Write.refs model attname rows ∈ m.writes db) :
    Planned db model attname rows := by
  rcases List.mem_append.mp h with hentry | hitem
  · obtain ⟨entry, -, hwrite⟩ := List.mem_map.mp hentry
    cases entry with
    | relation e =>
      obtain ⟨rfl, rfl, rfl⟩ := Write.refs.inj hwrite
      exact planned_relation
    | jsonKeys j => cases hwrite
  · simp only [List.mem_cons, List.not_mem_nil, or_false] at hitem
    rcases hitem with hpc | hdetails | harchive
    · obtain ⟨rfl, rfl, rfl⟩ := Write.refs.inj hpc
      refine ⟨nodup_filterMap nodup_invoiceRows rewrittenComponent_key, fun change hchange => ?_⟩
      obtain ⟨y, hy, hrow⟩ := List.mem_filterMap.mp hchange
      obtain ⟨r, hr, hry⟩ := List.mem_filterMap.mp hy
      obtain ⟨o, -, rfl⟩ := Option.map_eq_some_iff.mp hry
      obtain ⟨old, hold, hnew⟩ := Option.bind_eq_some_iff.mp hrow
      obtain ⟨new, -, rfl⟩ := Option.map_eq_some_iff.mp hnew
      exact ⟨r, hr, rfl, hold⟩
    · cases hdetails
    · obtain ⟨rfl, rfl, rfl⟩ := Write.refs.inj harchive
      have hkey : ∀ (r : Row) (y : ℕ × ℕ × ℕ), (((r.refs .state).filter fun state => decide (state ≠ archived)).map
          fun state => (r.id, state, archived)) = some y → y.1 = r.id := by
        intro r y hy
        obtain ⟨state, -, rfl⟩ := Option.map_eq_some_iff.mp hy
        rfl
      refine ⟨nodup_filterMap ((db.table .offering).nodup.sublist (List.filter_sublist.map _)) hkey, ?_⟩
      intro change hchange
      obtain ⟨r, hr, hrow⟩ := List.mem_filterMap.mp hchange
      obtain ⟨state, hstate, rfl⟩ := Option.map_eq_some_iff.mp hrow
      exact ⟨r, List.mem_of_mem_filter hr, rfl, (Option.filter_eq_some_iff.mp hstate).1⟩

theorem refs_merged {rows : List (ℕ × ℕ × ℕ)} (h : Write.refs model attname rows ∈ m.writes db) :
    (m.rowMerged db model r).refs attname =
    ((changeOf rows r.id).map (·.2)).orElse fun _ => r.refs attname :=
  refs_rowAfter (m.nodup_columns db) h

/-- **The foreign keys come back** from the journal. -/
theorem refs_takenBack (hjournal : x.journal = m.writes db) (hmodel : model ≠ .invoiceItem)
    (hr : r ∈ (db.table model).rows) :
    (rowAfter ((fkChanges x).map takenBack) model (m.rowMerged db model r)).refs attname = r.refs attname := by
  have hcolumns : ((fkChanges x).map takenBack).map Write.column = (fkChanges x).map Write.column := by
    rw [List.map_map]
    refine List.map_congr_left fun w _ => ?_
    cases w <;> rfl
  have hsub : ((fkChanges x).map Write.column).Sublist ((m.writes db).map Write.column) := by
    unfold fkChanges
    rw [hjournal]
    exact List.filter_sublist.map _
  have hnodup : (((fkChanges x).map takenBack).map Write.column).Nodup := by
    rw [hcolumns]
    exact (m.nodup_columns db).sublist hsub
  by_cases hcolumn : (model, .inl attname) ∈ (m.writes db).map Write.column
  · obtain ⟨w, hw, hwcolumn⟩ := List.mem_map.mp hcolumn
    cases w with
    | docs model' field' rows => cases (Prod.mk.inj hwcolumn).2
    | refs model' attname' rows =>
      obtain ⟨rfl, hattname⟩ := Prod.mk.inj hwcolumn
      obtain rfl := Sum.inl.inj hattname
      have hfk : Write.refs model' attname' rows ∈ fkChanges x := by
        refine List.mem_filter.mpr ⟨hjournal ▸ hw, ?_⟩
        exact decide_eq_true hmodel
      have hback : takenBack (.refs model' attname' rows) ∈ (fkChanges x).map takenBack := List.mem_map_of_mem hfk
      have hid : (m.rowMerged db model' r).id = r.id := id_rowAfter
      have hchanges : changeOf (rows.map fun change => (change.1, change.2.2, change.2.1)) r.id =
          (changeOf rows r.id).map Prod.swap := by
        unfold changeOf
        rw [List.find?_map, Option.map_map, Option.map_map]
        rfl
      refine (refs_rowAfter hnodup hback).trans ?_
      rw [hid, hchanges, refs_merged hw]
      cases hchange : changeOf rows r.id with
      | none => rfl
      | some change =>
        obtain ⟨r', hr', hid', hold⟩ := (planned hw).present _ (changeOf_mem hchange)
        obtain rfl := (db.table model').eq_of_key_eq hr' hr hid'
        exact hold.symm
  · rw [refs_rowAfter_ne fun hmem => hcolumn (hsub.subset (hcolumns ▸ hmem))]
    exact refs_rowAfter_ne hcolumn

end Journal

/-! ## Which rows an undo reads -/

section Reads

variable {m : Merge c} {db : Db} {x : Executed} {e : Relation} {j : JsonKeys} {r : Row} {a resource o : ℕ}

/-- The source that the resource of a row leaves. -/
def leaves (m : Merge c) (db : Db) (r : Row) : Option ℕ := (r.refs .resource).bind (m.movedFrom db)

/-- The source to which an undo brings a document back: that of the resource, else that of a renamed document. -/
def undoSource (m : Merge c) (db : Db) (j : JsonKeys) (r : Row) : Option ℕ :=
  ((resourceOf j r).bind (m.movedFrom db)).orElse fun _ =>
    (m.jsonSource db j r).filter fun o => decide (m.renameColumn j o (r.docs j.field) ≠ r.docs j.field)

theorem moved_of_mapped (hunique : e.uniqueWith = []) (hr : r ∈ m.relationRows db e)
    (ha : (r.refs e.attname).bind (m.valueMapFor e.related) = some a) : (r, a) ∈ (m.planRelation db e).1 := by
  have hcases : (r, a) ∈ (m.planRelation db e).1 ∨ r ∈ (m.planRelation db e).2 := moved_or_left hr ha
  refine hcases.resolve_right fun hleft => ?_
  have hchecked := (mem_left hleft).1
  rw [hunique] at hchecked
  cases hchecked

theorem journal_relation (hjournal : x.journal = m.writes db) (he : e ∈ relations) :
    journalRefs x.journal e.model e.attname = (m.planRelation db e).1.filterMap fun x =>
      (x.1.refs e.attname).map fun old => (x.1.id, old, x.2) := by
  have hwrite : m.entryWrite db (.relation e) ∈ m.writes db :=
    List.mem_append_left _ (List.mem_map_of_mem (covered he))
  rw [hjournal]
  exact journalRefs_eq (m.nodup_columns db) hwrite

/-- A moved row is journalled with its old and its new reference. -/
theorem changeOf_moved (hjournal : x.journal = m.writes db) (he : e ∈ relations)
    (h : (r, a) ∈ (m.planRelation db e).1) :
    changeOf (journalRefs x.journal e.model e.attname) r.id = (r.refs e.attname).map (·, a) := by
  rw [journal_relation hjournal he, changeOf_filterMap nodup_moved movedRow_key h, Option.map_map]
  rfl

theorem changeOf_kept (hjournal : x.journal = m.writes db) (he : e ∈ relations) (hr : r ∈ (db.table e.model).rows)
    (h : ∀ a, (r, a) ∉ (m.planRelation db e).1) : changeOf (journalRefs x.journal e.model e.attname) r.id = none := by
  rw [journal_relation hjournal he]
  refine changeOf_filterMap_none movedRow_key fun y hy heq => ?_
  obtain rfl := (db.table e.model).eq_of_key_eq (moved_reference hy).1 hr heq
  exact h y.2 hy

/-- A row on a source is journalled as one that moves to the target. -/
theorem changeOf_offering (hjournal : x.journal = m.writes db) (he : e ∈ relations) (hrelated : e.related = .offering)
    (hunique : e.uniqueWith = []) (hr : r ∈ (db.table e.model).rows) :
    changeOf (journalRefs x.journal e.model e.attname) r.id =
      ((r.refs e.attname).filter m.sourceIds.contains).map (·, m.target.id) := by
  cases hsource : (r.refs e.attname).filter m.sourceIds.contains with
  | some o =>
    obtain ⟨href, hcontains⟩ := Option.filter_eq_some_iff.mp hsource
    have hmap : m.valueMapFor e.related o = some m.target.id := by
      rw [hrelated]
      exact if_pos hcontains
    have hremains : m.Remains e r := by
      refine ⟨o, ?_, href⟩
      rw [hrelated]
      exact List.contains_iff_mem.mp hcontains
    have hmoved : (r, m.target.id) ∈ (m.planRelation db e).1 :=
      moved_of_mapped hunique (mem_relationRows.mpr ⟨hr, hremains⟩) (by rw [href, Option.bind_some, hmap])
    rw [changeOf_moved hjournal he hmoved, href]
  | none =>
    refine changeOf_kept hjournal he hr fun a hmoved => ?_
    obtain ⟨-, v, hv, href, -⟩ := moved_reference hmoved
    rw [hrelated] at hv
    have hcontains : v ∈ m.sourceIds := hv
    rw [href, Option.filter_some, if_pos (List.contains_iff_mem.mpr hcontains)] at hsource
    cases hsource

/-- The resources of the undo are the moved ones. -/
theorem resourceSource_eq (hjournal : x.journal = m.writes db) : resourceSource x resource = m.movedFrom db resource := by
  have hentry : { model := .resource, attname := .offering, related := .offering } ∈ relations := by decide
  unfold movedFrom
  cases hget : (db.table .resource).get? resource with
  | some r =>
    obtain ⟨hr, rfl⟩ := Table.get?_eq_some.mp hget
    have hchange := changeOf_offering hjournal hentry rfl rfl hr
    unfold resourceSource
    rw [hchange, Option.map_map, Option.bind_some]
    exact Option.map_id_apply
  | none =>
    unfold resourceSource
    rw [Option.bind_none, Option.map_eq_none_iff, journal_relation hjournal hentry]
    refine changeOf_filterMap_none movedRow_key fun y hy heq => ?_
    exact Table.get?_eq_none.mp hget y.1 (moved_reference hy).1 heq

theorem resourceSource_movedFrom (hjournal : x.journal = m.writes db) : resourceSource x = m.movedFrom db :=
  funext fun _ => resourceSource_eq hjournal

theorem movedResource_eq (hjournal : x.journal = m.writes db) :
    movedResource x r = ((r.refs .resource).bind (m.movedFrom db)).isSome := by
  unfold movedResource
  cases r.refs .resource with
  | none => rfl
  | some resource => rw [Option.any_some, resourceSource_eq hjournal, Option.bind_some]

/-- A renamed document is journalled. -/
theorem changeOf_renamed (hjournal : x.journal = m.writes db) (hj : .jsonKeys j ∈ mergeCoverage)
    (hr : r ∈ (db.table j.model).rows) : (changeOf (journalDocs x.journal j.model j.field) r.id).isSome =
      ((m.jsonSource db j r).filter fun o =>
        decide (m.renameColumn j o (r.docs j.field) ≠ r.docs j.field)).isSome := by
  have hwrite : m.entryWrite db (.jsonKeys j) ∈ m.writes db := List.mem_append_left _ (List.mem_map_of_mem hj)
  rw [hjournal, journalDocs_eq (m.nodup_columns db) hwrite]
  cases hsource : m.jsonSource db j r with
  | some o =>
    have hmem : (o, r) ∈ m.jsonRows db j := List.mem_filterMap.mpr ⟨r, hr, by
      show (m.jsonSource db j r).map (·, r) = some (o, r)
      rw [hsource, Option.map_some]⟩
    rw [changeOf_filterMap (x := (o, r)) nodup_jsonRows renamedRow_key hmem, Option.filter_some]
    by_cases hsame : m.renameColumn j o (r.docs j.field) = r.docs j.field <;> simp [hsame]
  | none =>
    rw [changeOf_filterMap_none renamedRow_key fun x hx heq => ?_]
    · rfl
    · obtain ⟨r', hr', hx⟩ := List.mem_filterMap.mp hx
      obtain rfl := (db.table j.model).eq_of_key_eq hr' hr ((jsonRow_key r' x hx).symm.trans heq)
      have hx' : (m.jsonSource db j r').map (·, r') = some x := hx
      rw [hsource] at hx'
      cases hx'

theorem coveredJson (hj : j ∈ jsonEntries) : CoverageEntry.jsonKeys j ∈ mergeCoverage := by
  obtain ⟨entry, hentry, h⟩ := List.mem_filterMap.mp hj
  cases entry with
  | relation e => cases h
  | jsonKeys j' =>
    obtain rfl := Option.some.inj h
    exact hentry

/-- The entries by how they find the offering and the resource of a row. -/
theorem jsonEntries_paths : ∀ j ∈ jsonEntries,
    (j.resourcePath = .pk ∧ j.offeringPath = .offering ∧ j.model = .resource) ∨
    (j.resourcePath = .resource ∧ j.offeringPath = .offering ∧ j.model = .order) ∨
    (j.resourcePath = .resource ∧ j.offeringPath = .resourceOffering) ∨
    (j.resourcePath = .none ∧ j.offeringPath = .planOffering ∧ j.model = .rule ∧ j.mappedPlan = true) := by
  decide

theorem jsonEntries_resource : ∀ j ∈ jsonEntries, j.resourcePath = .resource →
    ∀ column ∈ columns, column ≠ (j.model, .inl .resource) := by
  decide

theorem resourceOf_merged (hj : j ∈ jsonEntries) : resourceOf j (m.rowMerged db j.model r) = resourceOf j r := by
  unfold resourceOf
  cases hpath : j.resourcePath with
  | pk => exact congrArg some id_rowMerged
  | resource => exact refs_unwritten (jsonEntries_resource j hj hpath)
  | none => rfl

theorem movedFrom_of_mem (hr : r ∈ (db.table .resource).rows) :
    m.movedFrom db r.id = (r.refs .offering).filter m.sourceIds.contains := by
  unfold movedFrom
  rw [Table.get?_eq_some.mpr ⟨hr, rfl⟩, Option.bind_some]

/-- The offering under which a document was renamed is journalled, or its resource has moved. -/
theorem rowSource_renamed (hjournal : x.journal = m.writes db) (hj : j ∈ jsonEntries)
    (hr : r ∈ (db.table j.model).rows) (hnone : (resourceOf j r).bind (m.movedFrom db) = none)
    (hsource : m.jsonSource db j r = some o) :
    j.resourcePath ≠ .pk ∧ @rowSource c x j (m.rowMerged db j.model r) = some o := by
  obtain ⟨hoffering, hcontains⟩ := Option.filter_eq_some_iff.mp hsource
  have hsourceId : m.sourceIds.contains o = true := (Bool.and_eq_true_iff.mp hcontains).1
  have hunmoved : (resourceOf j (m.rowMerged db j.model r)).bind (resourceSource x) = none := by
    rw [resourceOf_merged hj, resourceSource_movedFrom hjournal]
    exact hnone
  have hid : (m.rowMerged db j.model r).id = r.id := id_rowMerged
  rcases jsonEntries_paths j hj with ⟨hpath, hlookup, hmodel⟩ | ⟨hpath, hlookup, hmodel⟩ | ⟨hpath, hlookup⟩ |
      ⟨hpath, hlookup, hmodel, hplan⟩
  · -- a row of a resource: its own offering would have moved it
    rw [hmodel] at hr
    rw [hlookup] at hoffering
    unfold resourceOf at hnone
    rw [hpath] at hnone
    have hmoved : m.movedFrom db r.id = none := hnone
    rw [movedFrom_of_mem hr] at hmoved
    rw [show r.refs .offering = some o from hoffering, Option.filter_some, if_pos hsourceId] at hmoved
    cases hmoved
  · -- an order on a source: its offering is journalled
    have hne : j.resourcePath ≠ .pk := by
      rw [hpath]
      decide
    refine ⟨hne, ?_⟩
    have hentry : { model := .order, attname := .offering, related := .offering } ∈ relations := by decide
    rw [hlookup] at hoffering
    unfold rowSource
    rw [hunmoved, hid, hmodel]
    rw [hmodel] at hr
    have hchange := changeOf_offering hjournal hentry rfl rfl hr
    rw [show r.refs .offering = some o from hoffering, Option.filter_some, if_pos hsourceId] at hchange
    rw [hchange]
    rfl
  · -- a row of a resource of a source: the resource would have moved
    rw [hlookup] at hoffering
    unfold resourceOf at hnone
    rw [hpath] at hnone
    obtain ⟨resource, hresource, hbind⟩ := Option.bind_eq_some_iff.mp
      (show ((r.refs .resource).bind fun id => ((db.table .resource).get? id).bind (·.refs .offering)) = some o
        from hoffering)
    obtain ⟨r', hget, href⟩ := Option.bind_eq_some_iff.mp hbind
    have hmoved : (r.refs .resource).bind (m.movedFrom db) = none := hnone
    rw [hresource, Option.bind_some] at hmoved
    unfold movedFrom at hmoved
    rw [hget, Option.bind_some, href, Option.filter_some, if_pos hsourceId] at hmoved
    cases hmoved
  · -- a rule of a mapped plan: its plan is journalled
    have hne : j.resourcePath ≠ .pk := by
      rw [hpath]
      decide
    refine ⟨hne, ?_⟩
    have hentry : { model := .rule, attname := .plan, related := .plan } ∈ relations := by decide
    rw [hlookup] at hoffering
    obtain ⟨plan, hrefPlan, hplanRow⟩ := Option.bind_eq_some_iff.mp
      (show ((r.refs .plan).bind fun id => (c.plans.get? id).map (·.offering)) = some o from hoffering)
    have hmapped := (Bool.and_eq_true_iff.mp hcontains).2
    rw [hplan, hrefPlan] at hmapped
    obtain ⟨a, ha⟩ := Option.isSome_iff_exists.mp (show (m.planMap plan).isSome = true from hmapped)
    have hremains : m.Remains { model := .rule, attname := .plan, related := .plan } r :=
      ⟨plan, plan_mapped (by rw [show m.valueMapFor .plan plan = some a from ha]; rfl), hrefPlan⟩
    rw [hmodel] at hr
    have hmoved : (r, a) ∈ (m.planRelation db { model := .rule, attname := .plan, related := .plan }).1 :=
      moved_of_mapped rfl (mem_relationRows.mpr ⟨hr, hremains⟩) (by
        show (r.refs .plan).bind m.planMap = some a
        rw [hrefPlan, Option.bind_some, ha])
    have hchange : changeOf (journalRefs x.journal .rule .plan) r.id = some (plan, a) := by
      refine (changeOf_moved hjournal hentry hmoved).trans ?_
      show (r.refs .plan).map (·, a) = some (plan, a)
      rw [hrefPlan, Option.map_some]
    have hoffering' : changeOf (journalRefs x.journal .rule .offering) r.id = none := by
      have hcolumn : ∀ column ∈ columns, column ≠ (Model.rule, .inl .offering) := by decide
      rw [hjournal, journalRefs_nil fun hmem => hcolumn _ (m.columns_writes db ▸ hmem) rfl]
      rfl
    unfold rowSource
    rw [hunmoved, hid, hmodel, hoffering', hchange, Option.bind_some, hplanRow]
    rfl

/-- **The source of an undone document**, in terms of the rows before the merge. -/
theorem undoneFor_merged (hjournal : x.journal = m.writes db) (hj : j ∈ jsonEntries)
    (hr : r ∈ (db.table j.model).rows) :
    undoneFor c x j (m.rowMerged db j.model r) = m.undoSource db j r := by
  have hid : (m.rowMerged db j.model r).id = r.id := id_rowMerged
  have hresource : (resourceOf j (m.rowMerged db j.model r)).bind (resourceSource x) =
      (resourceOf j r).bind (m.movedFrom db) := by
    rw [resourceOf_merged hj, resourceSource_movedFrom hjournal]
  have hjournalled := changeOf_renamed hjournal (coveredJson hj) hr
  unfold undoneFor undoSource
  cases hmoved : (resourceOf j r).bind (m.movedFrom db) with
  | some s =>
    have hreads : undoReads x j (m.rowMerged db j.model r) = true := by
      unfold undoReads
      rw [hresource, hmoved]
      cases hpath : j.resourcePath with
      | pk => rfl
      | resource => rfl
      | none =>
        unfold resourceOf at hmoved
        rw [hpath] at hmoved
        cases hmoved
    have hsource : @rowSource c x j (m.rowMerged db j.model r) = some s := by
      unfold rowSource
      rw [hresource, hmoved]
      rfl
    rw [hsource, Option.filter_some, if_pos hreads]
    rfl
  | none =>
    have hnot : ∀ o, (Option.orElse none fun _ => o) = o := fun _ : Option ℕ => rfl
    rw [hnot]
    cases hrenamed : (m.jsonSource db j r).filter fun o =>
        decide (m.renameColumn j o (r.docs j.field) ≠ r.docs j.field) with
    | none =>
      rw [hrenamed] at hjournalled
      have hreads : undoReads x j (m.rowMerged db j.model r) = false := by
        unfold undoReads
        rw [hresource, hmoved, hid, hjournalled]
        cases j.resourcePath <;> rfl
      rw [Option.filter_eq_none_iff]
      intro s _ htrue
      rw [hreads] at htrue
      cases htrue
    | some o =>
      obtain ⟨hsource, -⟩ := Option.filter_eq_some_iff.mp hrenamed
      obtain ⟨hpath, hrow⟩ := rowSource_renamed hjournal hj hr hmoved hsource
      rw [hrenamed] at hjournalled
      have hreads : undoReads x j (m.rowMerged db j.model r) = true := by
        unfold undoReads
        rw [hresource, hmoved, hid, hjournalled]
        cases hcase : j.resourcePath with
        | pk => exact absurd hcase hpath
        | resource => rfl
        | none => rfl
      rw [hrow, Option.filter_some, if_pos hreads]

end Reads

/-! ## Documents and invoice items there and back -/

section Back

variable {m : Merge c} {db : Db} {x : Executed} {j : JsonKeys} {r : Row} {model : Model} {attname : Attname}
  {f : JsonField}

theorem renameColumn_plain {l : Leaf} {o : ℕ} : m.renameColumn j o (.plain l) = .plain l := by
  unfold renameColumn
  cases j.rename <;> rfl

theorem renameBack_plain {l : Leaf} {o : ℕ} : m.renameBack j o (.plain l) = .plain l := by
  unfold renameBack
  cases j.rename <;> rfl

/-- A document is as it was exactly where it comes back, or is not read. -/
theorem docs_roundTrip (hexecute : m.execute db = .ok x) (hj : j ∈ jsonEntries) (hr : r ∈ (db.table j.model).rows) :
    (rowAfter (m.undoWrites x x.db) j.model (m.rowMerged db j.model r)).docs j.field = r.docs j.field ↔
      ∀ s d, m.undoSource db j r = some s → r.docs j.field = .object d → m.ComesBack j (m.jsonSource db j r) s d := by
  obtain ⟨-, hjournal, hrows⟩ := execute_eq_ok hexecute
  have hmem : m.rowMerged db j.model r ∈ (x.db.table j.model).rows := by
    rw [hrows]
    exact List.mem_map_of_mem hr
  rw [docs_undo hj hmem, undoneFor_merged hjournal hj hr, docs_execute (coveredJson hj) hr]
  cases hundone : m.undoSource db j r with
  | none =>
    refine iff_of_true ?_ fun s d hs => by cases hs
    simp only [Option.elim_none]
    unfold undoSource at hundone
    cases hsource : m.jsonSource db j r with
    | none => rfl
    | some o =>
      cases hmoved : (resourceOf j r).bind (m.movedFrom db) with
      | some s =>
        rw [hmoved] at hundone
        cases hundone
      | none =>
        rw [hmoved, hsource] at hundone
        have hfilter : (some o).filter (fun o => decide (m.renameColumn j o (r.docs j.field) ≠ r.docs j.field)) =
            none := hundone
        rw [Option.filter_some] at hfilter
        split_ifs at hfilter with hsame
        simpa using hsame
  | some s =>
    simp only [Option.elim_some]
    cases hcolumn : r.docs j.field with
    | plain l =>
      refine iff_of_true ?_ fun s d _ hd => by cases hd
      have hforth : ((m.jsonSource db j r).elim (Column.plain l) fun o => m.renameColumn j o (.plain l)) = .plain l := by
        cases m.jsonSource db j r with
        | none => rfl
        | some o => exact renameColumn_plain
      rw [hforth]
      exact renameBack_plain
    | object d =>
      rw [comesBack_iff]
      constructor
      · intro hback s' d' hs hd
        obtain rfl := Option.some.inj hs
        obtain rfl := Column.object.inj hd
        exact hback
      · exact fun hall => hall s d rfl rfl

theorem changeOf_details (hjournal : x.journal = m.writes db) (hr : r ∈ (db.table .invoiceItem).rows) :
    changeOf (detailsChanges x) r.id = (m.rewriteSource db r).bind fun o =>
      if (m.rewriteItem o r).1 = r.docs .details then none else some (r.docs .details, (m.rewriteItem o r).1) := by
  have hwrite : m.detailsWrite db ∈ m.writes db := by
    refine List.mem_append_right _ ?_
    exact List.mem_cons_of_mem _ List.mem_cons_self
  unfold detailsChanges
  rw [hjournal, journalDocs_eq (m.nodup_columns db) hwrite]
  cases hsource : m.rewriteSource db r with
  | some o =>
    rw [changeOf_filterMap (x := (o, r)) nodup_invoiceRows rewrittenDetails_key (mem_invoiceRows hr hsource),
      Option.bind_some]
    by_cases hsame : (m.rewriteItem o r).1 = r.docs .details <;> simp [hsame]
  | none =>
    rw [changeOf_filterMap_none rewrittenDetails_key (ne_of_mem_invoiceRows hr hsource)]
    rfl

theorem changeOf_planComponent (hjournal : x.journal = m.writes db) (hr : r ∈ (db.table .invoiceItem).rows)
    {change : ℕ × ℕ} (h : changeOf (pcChanges x) r.id = some change) :
    (m.rewriteSource db r).isSome = true ∧ r.refs .planComponent = some change.1 := by
  have hwrite : m.planComponentWrite db ∈ m.writes db := List.mem_append_right _ List.mem_cons_self
  unfold pcChanges at h
  rw [hjournal, journalRefs_eq (m.nodup_columns db) hwrite] at h
  cases hsource : m.rewriteSource db r with
  | some o =>
    obtain ⟨r', hr', hid, hold⟩ := (planned hwrite).present _ (changeOf_mem h)
    obtain rfl := (db.table .invoiceItem).eq_of_key_eq hr' hr hid
    exact ⟨rfl, hold⟩
  | none =>
    rw [changeOf_filterMap_none rewrittenComponent_key (ne_of_mem_invoiceRows hr hsource)] at h
    cases h

theorem planComponent_merged (hjournal : x.journal = m.writes db) : (m.rowMerged db .invoiceItem r).refs .planComponent =
    ((changeOf (pcChanges x) r.id).map (·.2)).orElse fun _ => r.refs .planComponent := by
  have hwrite : m.planComponentWrite db ∈ m.writes db := List.mem_append_right _ List.mem_cons_self
  unfold pcChanges
  rw [hjournal, journalRefs_eq (m.nodup_columns db) hwrite]
  exact refs_merged hwrite

theorem details_merged (hjournal : x.journal = m.writes db) : (m.rowMerged db .invoiceItem r).docs .details =
    ((changeOf (detailsChanges x) r.id).map (·.2)).getD (r.docs .details) := by
  have hwrite : m.detailsWrite db ∈ m.writes db := by
    refine List.mem_append_right _ ?_
    exact List.mem_cons_of_mem _ List.mem_cons_self
  unfold detailsChanges
  rw [hjournal, journalDocs_eq (m.nodup_columns db) hwrite]
  exact docs_rowAfter (m.nodup_columns db) hwrite

/-- A rewritten document is taken back. -/
theorem restoreDetails_merged (hexecute : m.execute db = .ok x) (hr : r ∈ (db.table .invoiceItem).rows) :
    restoreDetails x (m.rowMerged db .invoiceItem r) = some (r.docs .details) := by
  obtain ⟨-, hjournal, -⟩ := execute_eq_ok hexecute
  have hid : (m.rowMerged db .invoiceItem r).id = r.id := id_rowMerged
  unfold restoreDetails
  rw [hid, details_merged hjournal]
  cases hchange : changeOf (detailsChanges x) r.id with
  | none => rfl
  | some change =>
    obtain ⟨-, old, new, hobjects⟩ := mem_detailsChanges hexecute (changeOf_mem hchange)
    have hobjects' : change = (.object old, .object new) := hobjects
    subst hobjects'
    have hold : r.docs .details = .object old := by
      rw [changeOf_details hjournal hr] at hchange
      obtain ⟨o, -, ho⟩ := Option.bind_eq_some_iff.mp hchange
      split_ifs at ho
      exact (Prod.mk.inj (Option.some.inj ho)).1
    have hrestore : restoreDocument new old new = some old := by
      refine restoreDocument_iff.mpr ⟨fun _ _ => rfl, fun k => ?_⟩
      split_ifs with hsame
      · exact hsame
      · rfl
    rw [hold]
    show (restoreDocument new old new).map Column.object = some (.object old)
    rw [hrestore]
    rfl

/-- **Invoice items come back.** -/
theorem item_roundTrip (hexecute : m.execute db = .ok x) (hr : r ∈ (db.table .invoiceItem).rows) :
    (rowAfter (m.undoWrites x x.db) .invoiceItem (m.rowMerged db .invoiceItem r)).docs .details = r.docs .details ∧
      (rowAfter (m.undoWrites x x.db) .invoiceItem (m.rowMerged db .invoiceItem r)).refs .planComponent =
        r.refs .planComponent := by
  obtain ⟨-, hjournal, hrows⟩ := execute_eq_ok hexecute
  have hid : (m.rowMerged db .invoiceItem r).id = r.id := id_rowMerged
  have hmem : m.rowMerged db .invoiceItem r ∈ (x.db.table .invoiceItem).rows := by
    rw [hrows]
    exact List.mem_map_of_mem hr
  have hmoved : m.movedItem x (m.rowMerged db .invoiceItem r) = none := by
    have hle : r.id ≤ x.lastItemId := by
      rw [lastItemId_execute hexecute]
      exact List.le_max?_getD_of_mem (List.mem_map_of_mem hr)
    unfold movedItem
    rw [if_neg]
    intro hnew
    have hlt := of_decide_eq_true (Bool.and_eq_true_iff.mp hnew).2
    omega
  obtain ⟨hdetails, hcomponent⟩ := item_written hmem hmoved
  rw [hdetails, hcomponent]
  have hpc : (((changeOf (pcChanges x) r.id).map Prod.fst).orElse fun _ =>
      (m.rowMerged db .invoiceItem r).refs .planComponent) = r.refs .planComponent := by
    rw [planComponent_merged hjournal]
    cases hchange : changeOf (pcChanges x) r.id with
    | none => rfl
    | some change => exact (changeOf_planComponent hjournal hr hchange).2.symm
  by_cases hitem : r.id ∈ journalledItems x
  · have hrewritten : (m.rewriteSource db r).isSome = true := by
      rcases List.mem_append.mp (List.mem_dedup.mp hitem) with hdetails' | hpc'
      · obtain ⟨y, hy, hyid⟩ := List.mem_map.mp hdetails'
        cases hsource : m.rewriteSource db r with
        | some o => rfl
        | none =>
          have hnone : changeOf (detailsChanges x) r.id = none := by
            rw [changeOf_details hjournal hr, hsource, Option.bind_none]
          exact absurd hyid (changeOf_eq_none.mp hnone y hy)
      · obtain ⟨y, hy, hyid⟩ := List.mem_map.mp hpc'
        cases hchange : changeOf (pcChanges x) r.id with
        | some change => exact (changeOf_planComponent hjournal hr hchange).1
        | none => exact absurd hyid (changeOf_eq_none.mp hchange y hy)
    have hopen : ¬ (m.invoicePolicy ≠ .allMonths ∧ (m.rowMerged db .invoiceItem r).isOpen = false) := by
      rintro ⟨hpolicy, hclosed⟩
      obtain ⟨o, ho⟩ := Option.isSome_iff_exists.mp hrewritten
      have hscope := (Option.filter_eq_some_iff.mp ho).2
      rw [isOpen_rowMerged] at hclosed
      unfold inScope at hscope
      rw [hclosed, Bool.or_false] at hscope
      exact hpolicy (of_decide_eq_true hscope)
    have hunchanged : ¬ ((changeOf (pcChanges x) (m.rowMerged db .invoiceItem r).id).any fun change =>
        (m.rowMerged db .invoiceItem r).refs .planComponent ≠ some change.2) = true := by
      rw [hid, planComponent_merged hjournal]
      cases changeOf (pcChanges x) r.id with
      | none => exact Bool.false_ne_true
      | some change => simp
    have hrestore : m.restoreItem x (m.rowMerged db .invoiceItem r) = .ok (r.refs .planComponent, r.docs .details) := by
      unfold restoreItem
      rw [if_neg hopen, if_neg hunchanged, restoreDetails_merged hexecute hr]
      simp only
      rw [hid, hpc]
    rw [restoredItem_eq (hid ▸ hitem), hrestore]
    exact ⟨rfl, rfl⟩
  · have hnone : m.restoredItem x (m.rowMerged db .invoiceItem r) = none := by
      unfold restoredItem
      rw [hid, if_neg fun hcontains => hitem (List.contains_iff_mem.mp hcontains)]
    have hnodetails : changeOf (detailsChanges x) r.id = none := by
      refine changeOf_eq_none.mpr fun y hy heq => hitem (List.mem_dedup.mpr (List.mem_append_left _ ?_))
      exact heq ▸ List.mem_map_of_mem hy
    have hnopc : changeOf (pcChanges x) r.id = none := by
      refine changeOf_eq_none.mpr fun y hy heq => hitem (List.mem_dedup.mpr (List.mem_append_right _ ?_))
      exact heq ▸ List.mem_map_of_mem hy
    rw [hnone, details_merged hjournal, hnodetails, planComponent_merged hjournal, hnopc]
    exact ⟨rfl, rfl⟩

end Back

end Merge

end Waldur.OfferingMerge
