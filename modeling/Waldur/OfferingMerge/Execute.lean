import Mathlib
import Waldur.OfferingMerge.Context
import Waldur.OfferingMerge.Snapshots

/-!
# OfferingMerge.Execute — the writes of a merge

Every change is planned on the rows as they are, as a list of writes to one column each; `execute` journals and applies
them in order.  The columns are distinct (`nodup_columns`), so a column of a row after the merge is what its own write
says: `refs_execute`, `docs_execute`.
-/

namespace Waldur.OfferingMerge

open Documents Relational Repointing

variable {c : Catalogue}

/-! ## Writes -/

section Writes

/-- Planned changes to one field: the rows are (pk, old value, new value). -/
inductive Write
  | refs (model : Model) (attname : Attname) (rows : List (ℕ × ℕ × ℕ))
  | docs (model : Model) (field : JsonField) (rows : List (ℕ × Column × Column))

/-- The field that a write changes. -/
def Write.column : Write → Model × (Attname ⊕ JsonField)
  | .refs model attname _ => (model, .inl attname)
  | .docs model field _ => (model, .inr field)

/-- The change of a row among the changes of a field. -/
def changeOf {α : Type} (rows : List (ℕ × α × α)) (pk : ℕ) : Option (α × α) :=
  (rows.find? fun x => x.1 = pk).map Prod.snd

def Row.setRef (r : Row) (a : Attname) (v : Option ℕ) : Row := { r with refs := Function.update r.refs a v }

def Row.setDoc (r : Row) (f : JsonField) (v : Column) : Row := { r with docs := Function.update r.docs f v }

/-- `update(**{attname: new})` of the rows of a write. -/
def Write.applyRow (w : Write) (model : Model) (r : Row) : Row :=
  match w with
  | .refs m a rows =>
    if m = model then
      match changeOf rows r.id with
      | some change => r.setRef a (some change.2)
      | none => r
    else r
  | .docs m f rows =>
    if m = model then
      match changeOf rows r.id with
      | some change => r.setDoc f change.2
      | none => r
    else r

variable {w : Write} {ws : List Write} {model : Model} {r : Row} {a : Attname} {f : JsonField}

theorem Write.id_applyRow : (w.applyRow model r).id = r.id := by
  unfold Write.applyRow
  split <;> split_ifs <;> first | rfl | (split <;> rfl)

theorem Write.isOpen_applyRow : (w.applyRow model r).isOpen = r.isOpen := by
  unfold Write.applyRow
  split <;> split_ifs <;> first | rfl | (split <;> rfl)

theorem Write.amount_applyRow : (w.applyRow model r).amount = r.amount := by
  unfold Write.applyRow
  split <;> split_ifs <;> first | rfl | (split <;> rfl)

theorem Write.refs_applyRow_ne (h : w.column ≠ (model, .inl a)) : (w.applyRow model r).refs a = r.refs a := by
  unfold Write.applyRow
  split
  · next m a' rows =>
    split_ifs with hm
    · split
      · exact Function.update_of_ne (fun heq => h (by rw [Write.column, hm, heq])) _ _
      · rfl
    · rfl
  · split_ifs
    · split <;> rfl
    · rfl

theorem Write.docs_applyRow_ne (h : w.column ≠ (model, .inr f)) : (w.applyRow model r).docs f = r.docs f := by
  unfold Write.applyRow
  split
  · split_ifs
    · split <;> rfl
    · rfl
  · next m f' rows =>
    split_ifs with hm
    · split
      · exact Function.update_of_ne (fun heq => h (by rw [Write.column, hm, heq])) _ _
      · rfl
    · rfl

theorem Write.refs_applyRow {rows : List (ℕ × ℕ × ℕ)} : ((Write.refs model a rows).applyRow model r).refs a =
    ((changeOf rows r.id).map (·.2)).orElse fun _ => r.refs a := by
  unfold Write.applyRow
  simp only [if_true]
  cases changeOf rows r.id with
  | none => rfl
  | some change => exact Function.update_self _ _ _

theorem Write.docs_applyRow {rows : List (ℕ × Column × Column)} : ((Write.docs model f rows).applyRow model r).docs f =
    ((changeOf rows r.id).map (·.2)).getD (r.docs f) := by
  unfold Write.applyRow
  simp only [if_true]
  cases changeOf rows r.id with
  | none => rfl
  | some change => exact Function.update_self _ _ _

/-- A row after a list of writes. -/
def rowAfter (ws : List Write) (model : Model) (r : Row) : Row := ws.foldl (fun r w => w.applyRow model r) r

theorem id_rowAfter : (rowAfter ws model r).id = r.id := by
  induction ws generalizing r with
  | nil => rfl
  | cons w ws ih => exact ih.trans Write.id_applyRow

theorem isOpen_rowAfter : (rowAfter ws model r).isOpen = r.isOpen := by
  induction ws generalizing r with
  | nil => rfl
  | cons w ws ih => exact ih.trans Write.isOpen_applyRow

theorem amount_rowAfter : (rowAfter ws model r).amount = r.amount := by
  induction ws generalizing r with
  | nil => rfl
  | cons w ws ih => exact ih.trans Write.amount_applyRow

theorem refs_rowAfter_ne (h : (model, .inl a) ∉ ws.map Write.column) : (rowAfter ws model r).refs a = r.refs a := by
  induction ws generalizing r with
  | nil => rfl
  | cons w ws ih =>
    rw [List.map_cons, List.mem_cons, not_or] at h
    exact (ih h.2).trans (Write.refs_applyRow_ne (Ne.symm h.1))

theorem docs_rowAfter_ne (h : (model, .inr f) ∉ ws.map Write.column) : (rowAfter ws model r).docs f = r.docs f := by
  induction ws generalizing r with
  | nil => rfl
  | cons w ws ih =>
    rw [List.map_cons, List.mem_cons, not_or] at h
    exact (ih h.2).trans (Write.docs_applyRow_ne (Ne.symm h.1))

/-- A column that one write of the list changes. -/
theorem refs_rowAfter {rows : List (ℕ × ℕ × ℕ)} (hnodup : (ws.map Write.column).Nodup)
    (h : Write.refs model a rows ∈ ws) :
    (rowAfter ws model r).refs a = ((changeOf rows r.id).map (·.2)).orElse fun _ => r.refs a := by
  induction ws generalizing r with
  | nil => exact absurd h List.not_mem_nil
  | cons w ws ih =>
    obtain ⟨hnew, hnodup⟩ := List.nodup_cons.mp hnodup
    rcases List.mem_cons.mp h with rfl | h
    · exact (refs_rowAfter_ne hnew).trans Write.refs_applyRow
    · have hne : w.column ≠ (model, .inl a) := fun heq => hnew (heq ▸ List.mem_map_of_mem h)
      refine (ih hnodup h).trans ?_
      rw [Write.id_applyRow, Write.refs_applyRow_ne hne]

theorem docs_rowAfter {rows : List (ℕ × Column × Column)} (hnodup : (ws.map Write.column).Nodup)
    (h : Write.docs model f rows ∈ ws) :
    (rowAfter ws model r).docs f = ((changeOf rows r.id).map (·.2)).getD (r.docs f) := by
  induction ws generalizing r with
  | nil => exact absurd h List.not_mem_nil
  | cons w ws ih =>
    obtain ⟨hnew, hnodup⟩ := List.nodup_cons.mp hnodup
    rcases List.mem_cons.mp h with rfl | h
    · exact (docs_rowAfter_ne hnew).trans Write.docs_applyRow
    · have hne : w.column ≠ (model, .inr f) := fun heq => hnew (heq ▸ List.mem_map_of_mem h)
      refine (ih hnodup h).trans ?_
      rw [Write.id_applyRow, Write.docs_applyRow_ne hne]

end Writes

/-- The rows of every model rewritten, each under its primary key. -/
def Db.mapRows (db : Db) (g : Model → Row → Row) (hg : ∀ model r, (g model r).id = r.id) : Db :=
  ⟨fun model => (db.table model).mapRows (g model) (hg model)⟩

/-- `_apply`. -/
def Db.apply (db : Db) (w : Write) : Db := db.mapRows w.applyRow fun _ _ => Write.id_applyRow

theorem rows_foldl_apply (db : Db) (ws : List Write) (model : Model) :
    ((ws.foldl Db.apply db).table model).rows = (db.table model).rows.map (rowAfter ws model) := by
  induction ws generalizing db with
  | nil => exact (List.map_id _).symm
  | cons w ws ih =>
    rw [List.foldl_cons, ih]
    exact List.map_map

theorem get?_foldl_apply (db : Db) (ws : List Write) (model : Model) (pk : ℕ) :
    ((ws.foldl Db.apply db).table model).get? pk = ((db.table model).get? pk).map (rowAfter ws model) := by
  have htable : (ws.foldl Db.apply db).table model =
      (db.table model).mapRows (rowAfter ws model) fun _ => id_rowAfter :=
    Table.ext (rows_foldl_apply db ws model)
  rw [htable, Table.get?_mapRows]

section ChangeOf

variable {α : Type} {rows : List (ℕ × α × α)} {pk : ℕ} {change : α × α}

theorem changeOf_eq_some (h : (rows.map Prod.fst).Nodup) : changeOf rows pk = some change ↔ (pk, change) ∈ rows := by
  unfold changeOf
  rw [Option.map_eq_some_iff]
  constructor
  · rintro ⟨x, hx, rfl⟩
    have hpk : x.1 = pk := by simpa using List.find?_some hx
    exact hpk ▸ List.mem_of_find?_eq_some hx
  · intro hmem
    cases hfind : rows.find? fun x => x.1 = pk with
    | none => simpa using List.find?_eq_none.mp hfind _ hmem
    | some x =>
      have hpk : x.1 = pk := by simpa using List.find?_some hfind
      have heq : x = (pk, change) := List.inj_on_of_nodup_map h (List.mem_of_find?_eq_some hfind) hmem hpk
      exact ⟨x, rfl, congrArg Prod.snd heq⟩

theorem changeOf_eq_none : changeOf rows pk = none ↔ ∀ x ∈ rows, x.1 ≠ pk := by
  unfold changeOf
  rw [Option.map_eq_none_iff, List.find?_eq_none]
  simp only [decide_eq_true_eq, ne_eq]

variable {β γ : Type} {l : List β} {key : β → ℕ} {x : β}

/-- Rows read into another form under the same key. -/
theorem nodup_filterMap {f : β → Option γ} {key' : γ → ℕ} (h : (l.map key).Nodup)
    (hf : ∀ x y, f x = some y → key' y = key x) : ((l.filterMap f).map key').Nodup := by
  refine List.pairwise_map.mpr (List.pairwise_filterMap.mpr ((List.pairwise_map.mp h).imp ?_))
  intro x x' hne y hy y' hy' heq
  exact hne ((hf x y hy).symm.trans (heq.trans (hf x' y' hy')))

variable {f : β → Option (ℕ × α × α)}

/-- The change of a row in a list of changes with one entry at most for each row. -/
theorem changeOf_filterMap (h : (l.map key).Nodup) (hf : ∀ x y, f x = some y → y.1 = key x) (hx : x ∈ l) :
    changeOf (l.filterMap f) (key x) = (f x).map Prod.snd := by
  cases hfx : f x with
  | some y =>
    have hy : y.1 = key x := hf x y hfx
    refine (changeOf_eq_some (nodup_filterMap h hf)).mpr ?_
    rw [← hy]
    exact List.mem_filterMap.mpr ⟨x, hx, hfx⟩
  | none =>
    refine changeOf_eq_none.mpr fun y hy heq => ?_
    obtain ⟨x', hx', hfx'⟩ := List.mem_filterMap.mp hy
    obtain rfl := List.inj_on_of_nodup_map h hx' hx ((hf x' y hfx').symm.trans heq)
    rw [hfx] at hfx'
    cases hfx'

theorem changeOf_filterMap_none {pk : ℕ} (hf : ∀ x y, f x = some y → y.1 = key x) (h : ∀ x ∈ l, key x ≠ pk) :
    changeOf (l.filterMap f) pk = none := by
  refine changeOf_eq_none.mpr fun y hy heq => ?_
  obtain ⟨x, hx, hfx⟩ := List.mem_filterMap.mp hy
  exact h x hx ((hf x y hfx).symm.trans heq)

end ChangeOf

namespace Merge

variable (m : Merge c) (db : Db)

/-! ## The planned writes -/

section Plan

/-- `resource_offering`: the source that a moved resource leaves. -/
def movedFrom (resource : ℕ) : Option ℕ :=
  ((db.table .resource).get? resource).bind fun r => (r.refs .offering).filter m.sourceIds.contains

/-- `_snapshot_maps`. -/
def snapshotMap (source : ℕ) : SnapshotMap where
  offeringUuids := (m.sources.filter fun s => s.id = source).map (·.uuid)
  offering := m.target
  providerChanges := m.sources.any fun s => s.id = source && s.customer ≠ m.target.customer
  planComponents := m.planComponentMap
  plans := fun uuid => (m.sourcePlans.find? fun p => p.uuid = uuid).bind m.targetPlan
  componentTypes := fun type =>
    ((m.componentTypeMap source).get? type).bind fun type' => m.targetComponents.find? fun k => k.type = type'

/-- What an entry writes: the moved rows, or the documents that change. -/
def entryWrite : CoverageEntry → Write
  | .relation e => .refs e.model e.attname ((m.planRelation db e).1.filterMap fun x =>
      (x.1.refs e.attname).map fun old => (x.1.id, old, x.2))
  | .jsonKeys e => .docs e.model e.field ((m.jsonRows db e).filterMap fun x =>
      let new := m.renameColumn e x.1 (x.2.docs e.field)
      if new = x.2.docs e.field then none else some (x.2.id, x.2.docs e.field, new))

/-- The source that the resource of an invoice item leaves. -/
def itemSource (r : Row) : Option ℕ := (r.refs .resource).bind (m.movedFrom db)

/-- `_invoice_items_in_scope`. -/
def inScope (r : Row) : Bool := decide (m.invoicePolicy = .allMonths) || r.isOpen

/-- The rewritten items with the source of their resource. -/
def invoiceRows : List (ℕ × Row) :=
  (db.table .invoiceItem).rows.filterMap fun r => ((m.itemSource db r).filter fun _ => m.inScope r).map (·, r)

/-- The details and the plan component of an item under the target. -/
def rewriteItem (source : ℕ) (r : Row) : Column × Option ℕ :=
  rewriteSnapshot c (m.snapshotMap source) (r.docs .details) (r.refs .planComponent)

/-- `fk_write` of `_plan_invoice_snapshots`. -/
def planComponentWrite : Write :=
  .refs .invoiceItem .planComponent ((m.invoiceRows db).filterMap fun x =>
    (x.2.refs .planComponent).bind fun old => ((m.rewriteItem x.1 x.2).2.filter fun new => decide (new ≠ old)).map
      fun new => (x.2.id, old, new))

/-- `details_write` of `_plan_invoice_snapshots`. -/
def detailsWrite : Write :=
  .docs .invoiceItem .details ((m.invoiceRows db).filterMap fun x =>
    let new := (m.rewriteItem x.1 x.2).1
    if new = x.2.docs .details then none else some (x.2.id, x.2.docs .details, new))

/-- `_archive_sources`. -/
def archiveWrite : Write :=
  .refs .offering .state (((db.table .offering).rows.filter fun r => m.sourceIds.contains r.id).filterMap fun r =>
    ((r.refs .state).filter fun state => decide (state ≠ archived)).map fun state => (r.id, state, archived))

/-- The writes of a merge in the order in which they run. -/
def writes : List Write :=
  mergeCoverage.map (m.entryWrite db) ++ [m.planComponentWrite db, m.detailsWrite db, m.archiveWrite db]

/-- What a merge leaves: the rows, the journal, and the last invoice item, after which items are new to an undo. -/
structure Executed where
  db : Db
  journal : List Write
  lastItemId : ℕ

/-- `execute`. -/
def execute : Except (List Issue) Executed :=
  if (m.blockers db).isEmpty then
    .ok
      { db := (m.writes db).foldl Db.apply db, journal := m.writes db,
        lastItemId := ((db.table .invoiceItem).rows.map (·.id)).max?.getD 0 }
  else .error (m.blockers db)

end Plan

/-! ## The columns after a merge -/

section After

/-- The field that an entry covers. -/
def column : CoverageEntry → Model × (Attname ⊕ JsonField)
  | .relation e => (e.model, .inl e.attname)
  | .jsonKeys e => (e.model, .inr e.field)

/-- The fields that a merge writes. -/
def columns : List (Model × (Attname ⊕ JsonField)) :=
  mergeCoverage.map column ++ [(.invoiceItem, .inl .planComponent), (.invoiceItem, .inr .details), (.offering, .inl .state)]

theorem columns_writes : (m.writes db).map Write.column = columns := by
  unfold writes columns
  rw [List.map_append, List.map_map]
  refine congrArg₂ _ (List.map_congr_left fun entry _ => ?_) rfl
  cases entry <;> rfl

/-- No field is written twice. -/
theorem nodup_columns : ((m.writes db).map Write.column).Nodup := by
  rw [columns_writes]
  decide

variable {m db} {e : Relation} {j : JsonKeys} {r : Row} {a : ℕ}

/-- `Merge.writes` on one row. -/
def rowMerged (m : Merge c) (db : Db) : Model → Row → Row := rowAfter (m.writes db)

theorem nodup_moved : ((m.planRelation db e).1.map fun x => x.1.id).Nodup := by
  have hsub : ((m.planRelation db e).1.map Prod.fst).Sublist (db.table e.model).rows :=
    moved_sublist.trans List.filter_sublist
  have hnodup := (db.table e.model).nodup.sublist (hsub.map _)
  rwa [List.map_map] at hnodup

theorem movedRow_key (x : Row × ℕ) (y : ℕ × ℕ × ℕ)
    (h : ((x.1.refs e.attname).map fun old => (x.1.id, old, x.2)) = some y) : y.1 = x.1.id := by
  obtain ⟨old, -, rfl⟩ := Option.map_eq_some_iff.mp h
  rfl

/-- A row that moves has its new reference after the merge. -/
theorem refs_execute (he : .relation e ∈ mergeCoverage) (h : (r, a) ∈ (m.planRelation db e).1) :
    (m.rowMerged db e.model r).refs e.attname = some a := by
  have hwrite : m.entryWrite db (.relation e) ∈ m.writes db := List.mem_append_left _ (List.mem_map_of_mem he)
  obtain ⟨-, hmapped⟩ := mem_moved h
  obtain ⟨old, hold, -⟩ := Option.bind_eq_some_iff.mp hmapped
  refine (refs_rowAfter (m.nodup_columns db) hwrite).trans ?_
  rw [changeOf_filterMap nodup_moved movedRow_key h, hold]
  rfl

/-- A row that does not move keeps its reference. -/
theorem refs_execute_kept (he : .relation e ∈ mergeCoverage) (hr : r ∈ (db.table e.model).rows)
    (h : ∀ a, (r, a) ∉ (m.planRelation db e).1) :
    (m.rowMerged db e.model r).refs e.attname = r.refs e.attname := by
  have hwrite : m.entryWrite db (.relation e) ∈ m.writes db := List.mem_append_left _ (List.mem_map_of_mem he)
  refine (refs_rowAfter (m.nodup_columns db) hwrite).trans ?_
  rw [changeOf_filterMap_none movedRow_key fun x hx heq => ?_]
  · rfl
  · have hmem : x.1 ∈ (db.table e.model).rows := List.mem_of_mem_filter (mem_moved hx).1
    obtain rfl := (db.table e.model).eq_of_key_eq hmem hr heq
    exact h x.2 hx

/-- The source under whose mapping the document of a row is renamed. -/
def jsonSource (m : Merge c) (db : Db) (j : JsonKeys) (r : Row) : Option ℕ :=
  (rowOffering c db j.offeringPath r).filter fun o =>
    m.sourceIds.contains o && (!j.mappedPlan || (r.refs .plan).any fun p => (m.planMap p).isSome)

theorem jsonRow_key (r : Row) (x : ℕ × Row) (h : (m.jsonSource db j r).map (·, r) = some x) : x.2.id = r.id := by
  obtain ⟨o, -, rfl⟩ := Option.map_eq_some_iff.mp h
  rfl

theorem nodup_jsonRows : ((m.jsonRows db j).map fun x => x.2.id).Nodup :=
  nodup_filterMap (db.table j.model).nodup jsonRow_key

theorem renamedRow_key (x : ℕ × Row) (y : ℕ × Column × Column)
    (h : (if m.renameColumn j x.1 (x.2.docs j.field) = x.2.docs j.field then none
      else some (x.2.id, x.2.docs j.field, m.renameColumn j x.1 (x.2.docs j.field))) = some y) : y.1 = x.2.id := by
  split_ifs at h
  obtain rfl := Option.some.inj h
  rfl

/-- A document after the merge: renamed where its row is of a source. -/
theorem docs_execute (hj : .jsonKeys j ∈ mergeCoverage) (hr : r ∈ (db.table j.model).rows) :
    (m.rowMerged db j.model r).docs j.field =
      (m.jsonSource db j r).elim (r.docs j.field) fun o => m.renameColumn j o (r.docs j.field) := by
  have hwrite : m.entryWrite db (.jsonKeys j) ∈ m.writes db := List.mem_append_left _ (List.mem_map_of_mem hj)
  refine (docs_rowAfter (m.nodup_columns db) hwrite).trans ?_
  cases hsource : m.jsonSource db j r with
  | some o =>
    have hmem : (o, r) ∈ m.jsonRows db j := List.mem_filterMap.mpr ⟨r, hr, by
      show (m.jsonSource db j r).map (·, r) = some (o, r)
      rw [hsource, Option.map_some]⟩
    rw [changeOf_filterMap (x := (o, r)) nodup_jsonRows renamedRow_key hmem]
    simp only [Option.elim_some]
    split_ifs with hsame
    · exact hsame.symm
    · rfl
  | none =>
    rw [changeOf_filterMap_none renamedRow_key fun x hx heq => ?_]
    · rfl
    · obtain ⟨r', hr', hx⟩ := List.mem_filterMap.mp hx
      obtain rfl := (db.table j.model).eq_of_key_eq hr' hr ((jsonRow_key r' x hx).symm.trans heq)
      have hx' : (m.jsonSource db j r').map (·, r') = some x := hx
      rw [hsource] at hx'
      cases hx'

/-! Invoice items and offering states -/

/-- The source under whose mapping an invoice item is rewritten. -/
def rewriteSource (m : Merge c) (db : Db) (r : Row) : Option ℕ := (m.itemSource db r).filter fun _ => m.inScope r

theorem invoiceRow_key (r : Row) (x : ℕ × Row) (h : (m.rewriteSource db r).map (·, r) = some x) : x.2.id = r.id := by
  obtain ⟨o, -, rfl⟩ := Option.map_eq_some_iff.mp h
  rfl

theorem nodup_invoiceRows : ((m.invoiceRows db).map fun x => x.2.id).Nodup :=
  nodup_filterMap (db.table .invoiceItem).nodup invoiceRow_key

theorem mem_invoiceRows {o : ℕ} (hr : r ∈ (db.table .invoiceItem).rows) (h : m.rewriteSource db r = some o) :
    (o, r) ∈ m.invoiceRows db := by
  refine List.mem_filterMap.mpr ⟨r, hr, ?_⟩
  show (m.rewriteSource db r).map (·, r) = some (o, r)
  rw [h, Option.map_some]

theorem ne_of_mem_invoiceRows (hr : r ∈ (db.table .invoiceItem).rows) (h : m.rewriteSource db r = none)
    (x : ℕ × Row) (hx : x ∈ m.invoiceRows db) : x.2.id ≠ r.id := by
  intro heq
  obtain ⟨r', hr', hx⟩ := List.mem_filterMap.mp hx
  obtain rfl := (db.table .invoiceItem).eq_of_key_eq hr' hr ((invoiceRow_key r' x hx).symm.trans heq)
  have hx' : (m.rewriteSource db r').map (·, r') = some x := hx
  rw [h] at hx'
  cases hx'

theorem rewrittenComponent_key (x : ℕ × Row) (y : ℕ × ℕ × ℕ)
    (h : ((x.2.refs .planComponent).bind fun old => ((m.rewriteItem x.1 x.2).2.filter fun new => decide (new ≠ old)).map
      fun new => (x.2.id, old, new)) = some y) : y.1 = x.2.id := by
  obtain ⟨old, -, hold⟩ := Option.bind_eq_some_iff.mp h
  obtain ⟨new, -, rfl⟩ := Option.map_eq_some_iff.mp hold
  rfl

theorem rewrittenDetails_key (x : ℕ × Row) (y : ℕ × Column × Column)
    (h : (if (m.rewriteItem x.1 x.2).1 = x.2.docs .details then none
      else some (x.2.id, x.2.docs .details, (m.rewriteItem x.1 x.2).1)) = some y) : y.1 = x.2.id := by
  split_ifs at h
  obtain rfl := Option.some.inj h
  rfl

/-- A rewrite keeps the plan component of an item or puts another in its place. -/
theorem rewriteItem_planComponent (o : ℕ) (r : Row) : (m.rewriteItem o r).2 = (r.refs .planComponent).map fun pc =>
    ((m.planComponentMap pc).map (·.id)).getD pc := by
  have hnew : (m.rewriteItem o r).2 = ((((r.refs .planComponent).bind m.planComponentMap).map (·.id)).orElse
      fun _ => r.refs .planComponent) := by
    unfold rewriteItem rewriteSnapshot
    cases r.docs .details <;> rfl
  rw [hnew]
  cases r.refs .planComponent with
  | none => rfl
  | some pc =>
    simp only [Option.bind_some, Option.map_some]
    cases m.planComponentMap pc <;> rfl

theorem planComponent_execute (hr : r ∈ (db.table .invoiceItem).rows) :
    (m.rowMerged db .invoiceItem r).refs .planComponent =
      (m.rewriteSource db r).elim (r.refs .planComponent) fun o => (m.rewriteItem o r).2 := by
  have hwrite : m.planComponentWrite db ∈ m.writes db := List.mem_append_right _ List.mem_cons_self
  refine (refs_rowAfter (m.nodup_columns db) hwrite).trans ?_
  cases hsource : m.rewriteSource db r with
  | some o =>
    rw [changeOf_filterMap (x := (o, r)) nodup_invoiceRows rewrittenComponent_key (mem_invoiceRows hr hsource)]
    simp only [Option.elim_some]
    rw [rewriteItem_planComponent]
    cases r.refs .planComponent with
    | none => rfl
    | some pc =>
      simp only [Option.bind_some, Option.map_some]
      by_cases hsame : ((m.planComponentMap pc).map (·.id)).getD pc = pc
      · rw [Option.filter_some, if_neg (by simpa using hsame), hsame]
        rfl
      · rw [Option.filter_some, if_pos (by simpa using hsame)]
        rfl
  | none =>
    rw [changeOf_filterMap_none rewrittenComponent_key (ne_of_mem_invoiceRows hr hsource)]
    rfl

theorem details_execute (hr : r ∈ (db.table .invoiceItem).rows) :
    (m.rowMerged db .invoiceItem r).docs .details =
      (m.rewriteSource db r).elim (r.docs .details) fun o => (m.rewriteItem o r).1 := by
  have hwrite : m.detailsWrite db ∈ m.writes db := by
    refine List.mem_append_right _ ?_
    exact List.mem_cons_of_mem _ List.mem_cons_self
  refine (docs_rowAfter (m.nodup_columns db) hwrite).trans ?_
  cases hsource : m.rewriteSource db r with
  | some o =>
    rw [changeOf_filterMap (x := (o, r)) nodup_invoiceRows rewrittenDetails_key (mem_invoiceRows hr hsource)]
    simp only [Option.elim_some]
    split_ifs with hsame
    · exact hsame.symm
    · rfl
  | none =>
    rw [changeOf_filterMap_none rewrittenDetails_key (ne_of_mem_invoiceRows hr hsource)]
    rfl

/-- A column that no write changes. -/
theorem refs_execute_ne {model : Model} {attname : Attname} (h : (model, .inl attname) ∉ columns) :
    (m.rowMerged db model r).refs attname = r.refs attname :=
  refs_rowAfter_ne (by rwa [columns_writes])

theorem docs_execute_ne {model : Model} {field : JsonField} (h : (model, .inr field) ∉ columns) :
    (m.rowMerged db model r).docs field = r.docs field :=
  docs_rowAfter_ne (by rwa [columns_writes])

/-- **When a merge runs**: without blockers, and it then leaves every row as its writes say. -/
theorem execute_eq_ok {x : Executed} (h : m.execute db = .ok x) :
    m.blockers db = [] ∧ x.journal = m.writes db ∧
      ∀ model, (x.db.table model).rows = (db.table model).rows.map (m.rowMerged db model) := by
  unfold execute at h
  split_ifs at h with hblockers
  obtain rfl := Except.ok.inj h
  exact ⟨List.isEmpty_iff.mp hblockers, rfl, rows_foldl_apply db _⟩

end After

end Merge

end Waldur.OfferingMerge
