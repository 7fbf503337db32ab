import Mathlib
import Waldur.OfferingMerge.Verification

/-!
# OfferingMerge.Undo — taking a merge back

`_UndoPlan`: foreign keys from the journal, rows created since moved back, the inverse renaming on every document of a
moved resource, and invoice items restored key by key.  The plan is read off the rows as they are when the undo starts;
a row that cannot go back refuses it.
-/

namespace Waldur.OfferingMerge

open Documents Document PythonText Relational Repointing

/-! ## The journal -/

section Journal

/-- The journalled changes of a foreign key. -/
def journalRefs (journal : List Write) (model : Model) (attname : Attname) : List (ℕ × ℕ × ℕ) :=
  journal.flatMap fun
    | .refs model' attname' rows => if model' = model ∧ attname' = attname then rows else []
    | .docs _ _ _ => []

/-- The journalled changes of a document. -/
def journalDocs (journal : List Write) (model : Model) (field : JsonField) : List (ℕ × Column × Column) :=
  journal.flatMap fun
    | .refs _ _ _ => []
    | .docs model' field' rows => if model' = model ∧ field' = field then rows else []

end Journal

namespace Merge

variable {c : Catalogue} (m : Merge c) (x : Executed)

/-! ## Inverse mappings -/

section Inverse

/-- `resource_source`. -/
def resourceSource (x : Executed) (resource : ℕ) : Option ℕ :=
  (changeOf (journalRefs x.journal .resource .offering) resource).map Prod.fst

/-- `resource_plan`: the source plan and the target plan. -/
def resourcePlan (x : Executed) (resource : ℕ) : Option (ℕ × ℕ) :=
  changeOf (journalRefs x.journal .resource .plan) resource

/-- `inverse_types`. -/
def inverseTypes (source : ℕ) : Document Key Key := ofEntries ((m.componentTypeMap source).entries.map Prod.swap)

/-- `inverse_components`; a later entry of the mapping wins. -/
def inverseComponents (source target : ℕ) : Option ℕ :=
  ((m.componentTypeMap source).entries.reverse.find? fun e =>
    m.targetComponents.any fun k => k.type = e.2 && k.id = target).bind fun e =>
      (m.sourceComponents.find? fun k => k.offering = source && k.type = e.1).map (·.id)

/-- `inverse_keys`. -/
def inverseKeys : Document Key Key := ofEntries (m.attributeKeyMapping.entries.map Prod.swap)

end Inverse

/-! ## What refuses an undo -/

section Refusal

variable (db : Db)

inductive UndoIssue
  | resourceChanged (resources : List ℕ)
  | changedSinceMerge (column : Model × (Attname ⊕ JsonField)) (rows : List ℕ)
  | pendingOrders (orders : List ℕ)
  | unmappableNewRow (model : Model) (rows : List ℕ)
  | uniqueConflict (model : Model)

/-- `fk_changes`. -/
def fkChanges : List Write :=
  x.journal.filter fun
    | .refs model _ _ => decide (model ≠ .invoiceItem)
    | .docs _ _ _ => false

/-- The rows that no longer hold what a write gave them. -/
def drifted : Write → List ℕ
  | .refs model attname rows =>
    (rows.filter fun change => ((db.table model).get? change.1).bind (·.refs attname) ≠ some change.2.2).map Prod.fst
  | .docs _ _ _ => []

/-- A foreign key of a resource that a merge moves. -/
def ofResource (w : Write) : Bool := w.column = (.resource, .inl .offering) || w.column = (.resource, .inl .plan)

/-- `_check_fk_drift`. -/
def checkFkDrift : List UndoIssue :=
  let moved := ((fkChanges x).filter ofResource).flatMap (drifted db)
  (if moved.isEmpty then [] else [.resourceChanged moved.dedup]) ++
    ((fkChanges x).filter fun w => !ofResource w && !(drifted db w).isEmpty).map fun w =>
      .changedSinceMerge w.column (drifted db w)

/-- A row of a moved resource. -/
def movedResource (r : Row) : Bool := (r.refs .resource).any fun resource => (resourceSource x resource).isSome

/-- `_check_pending_orders`. -/
def checkUndoneOrders : List UndoIssue :=
  let pending := (db.table .order).rows.filter fun r => movedResource x r && r.isOpen
  if pending.isEmpty then [] else [.pendingOrders (pending.map (·.id))]

/-- The usage rows of the moved resources on a component of the target or of a source. -/
def usageRows (model : Model) : List Row :=
  (db.table model).rows.filter fun r => movedResource x r && (r.refs .component).any fun k =>
    (m.targetComponents.map (·.id)).contains k || (m.sourceComponents.map (·.id)).contains k

/-- The component of a usage row after the undo, none if it has no source counterpart. -/
def usageComponent (model : Model) (r : Row) : Option ℕ :=
  match changeOf (journalRefs x.journal model .component) r.id with
  | some change => some change.1
  | none => (r.refs .component).bind fun k =>
      if (m.targetComponents.map (·.id)).contains k then
        ((r.refs .resource).bind (resourceSource x)).bind (m.inverseComponents · k)
      else some k

/-- `_unique_attnames`. -/
def uniqueAttnames (model : Model) : List Attname :=
  ((relations.find? fun e => e.model = model && e.attname = .component).map (·.uniqueWith)).getD []

/-- The blockers of `_plan_usage_moves`. -/
def checkUsageMoves (model : Model) : List UndoIssue :=
  let unmappable := (m.usageRows x db model).filter fun r => (m.usageComponent x model r).isNone
  let finalKeys := (m.usageRows x db model).filterMap fun r =>
    (m.usageComponent x model r).map fun k => (k, (uniqueAttnames model).map r.refs)
  (if unmappable.isEmpty then [] else [.unmappableNewRow model (unmappable.map (·.id))]) ++
    (if finalKeys.Nodup then [] else [.uniqueConflict model])

/-- The orders since the merge of the moved resources on the target. -/
def newOrders : List Row :=
  (db.table .order).rows.filter fun r => movedResource x r && r.refs .offering = some m.target.id &&
    (changeOf (journalRefs x.journal .order .offering) r.id).isNone

/-- The plan of a new order after the undo: none for no plan, refused for one that its resource was not moved to. -/
def planBack (r : Row) (attname : Attname) : Except Unit (Option ℕ) :=
  match r.refs attname with
  | none => .ok none
  | some plan =>
    match ((r.refs .resource).bind (resourcePlan x)).filter fun plans => plans.2 = plan with
    | some plans => .ok (some plans.1)
    | none => .error ()

/-- The new order can go back. -/
def orderMovable (r : Row) : Bool := (planBack x r .plan).isOk && (planBack x r .oldPlan).isOk

/-- The blockers of `_plan_order_moves`. -/
def checkOrderMoves : List UndoIssue :=
  let unmappable := (m.newOrders x db).filter fun r => !orderMovable x r
  if unmappable.isEmpty then [] else [.unmappableNewRow .order (unmappable.map (·.id))]

/-- The blockers of an undo. -/
def undoBlockers : List UndoIssue :=
  checkFkDrift x db ++ checkUndoneOrders x db ++ usageModels.flatMap (m.checkUsageMoves x db) ++ m.checkOrderMoves x db

end Refusal

/-! ## What an undo writes -/

section Plan

variable (db : Db)

/-- A write taken back. -/
def takenBack : Write → Write
  | .refs model attname rows => .refs model attname (rows.map fun change => (change.1, change.2.2, change.2.1))
  | .docs model field rows => .docs model field (rows.map fun change => (change.1, change.2.2, change.2.1))

/-- The new usage rows on components of the target. -/
def usageMoves (model : Model) : Write :=
  .refs model .component (((m.usageRows x db model).filter fun r =>
    (changeOf (journalRefs x.journal model .component) r.id).isNone).filterMap fun r =>
      (r.refs .component).bind fun old => ((m.usageComponent x model r).filter fun new => decide (new ≠ old)).map
        fun new => (r.id, old, new))

/-- A column of the new orders. -/
def orderMoves (attname : Attname) (back : Row → Option ℕ) : Write :=
  .refs .order attname (((m.newOrders x db).filter (orderMovable x)).filterMap fun r =>
    (r.refs attname).bind fun old => (back r).map fun new => (r.id, old, new))

/-- The resource of a row of an entry. -/
def resourceOf (j : JsonKeys) (r : Row) : Option ℕ :=
  match j.resourcePath with
  | .pk => some r.id
  | .resource => r.refs .resource
  | .none => none

/-- `_row_source`. -/
def rowSource (j : JsonKeys) (r : Row) : Option ℕ :=
  ((resourceOf j r).bind (resourceSource x)).orElse fun _ =>
    ((changeOf (journalRefs x.journal j.model .offering) r.id).map Prod.fst).orElse fun _ =>
      (changeOf (journalRefs x.journal j.model .plan) r.id).bind fun change =>
        (c.plans.get? change.1).map (·.offering)

/-- The rows of an entry that an undo reads: of a moved resource, or journalled. -/
def undoReads (j : JsonKeys) (r : Row) : Bool :=
  let moved := ((resourceOf j r).bind (resourceSource x)).isSome
  let journalled := (changeOf (journalDocs x.journal j.model j.field) r.id).isSome
  match j.resourcePath with
  | .pk => moved
  | .resource => moved || journalled
  | .none => journalled

/-- The source to which the document of a row goes back. -/
def undoneFor (c : Catalogue) (x : Executed) (j : JsonKeys) (r : Row) : Option ℕ :=
  (@rowSource c x j r).filter fun _ => undoReads x j r

/-- A document under the inverse renaming. -/
def renameBack (j : JsonKeys) (source : ℕ) (value : Column) : Column :=
  match j.rename with
  | .componentTypes => renameKeys value (m.inverseTypes source)
  | .answerKeys => renameAnswers value m.inverseKeys (m.inverseTypes source)

/-- `_plan_json`. -/
def undoJson (j : JsonKeys) : Write :=
  .docs j.model j.field ((db.table j.model).rows.filterMap fun r =>
    (undoneFor c x j r).bind fun source =>
      let new := m.renameBack j source (r.docs j.field)
      if new = r.docs j.field then none else some (r.id, r.docs j.field, new))

end Plan

/-! ## Invoice items -/

section Items

variable (db : Db)

inductive Skip
  | deleted
  | invoiceClosed
  | changedSinceMerge
deriving DecidableEq, Repr

/-- The journalled changes of the plan components and of the details of items. -/
def pcChanges (x : Executed) : List (ℕ × ℕ × ℕ) := journalRefs x.journal .invoiceItem .planComponent

def detailsChanges (x : Executed) : List (ℕ × Column × Column) := journalDocs x.journal .invoiceItem .details

def journalledItems (x : Executed) : List ℕ :=
  ((detailsChanges x).map Prod.fst ++ (pcChanges x).map Prod.fst).dedup

/-- The details of an item after the undo. -/
def restoreDetails (r : Row) : Option Column :=
  match changeOf (detailsChanges x) r.id with
  | none => some (r.docs .details)
  | some change => restoreKeys (r.docs .details) change.1 change.2

/-- The plan component and the details of a rewritten item after the undo, or why it is skipped. -/
def restoreItem (r : Row) : Except Skip (Option ℕ × Column) :=
  if m.invoicePolicy ≠ .allMonths ∧ r.isOpen = false then .error .invoiceClosed
  else if (changeOf (pcChanges x) r.id).any fun change => r.refs .planComponent ≠ some change.2 then
    .error .changedSinceMerge
  else match restoreDetails x r with
    | none => .error .changedSinceMerge
    | some details => .ok (((changeOf (pcChanges x) r.id).map Prod.fst).orElse fun _ => r.refs .planComponent, details)

/-- `invoice_skipped`. -/
def invoiceSkipped : List (ℕ × Skip) :=
  (journalledItems x).filterMap fun pk =>
    match (db.table .invoiceItem).get? pk with
    | none => some (pk, .deleted)
    | some r =>
      match m.restoreItem x r with
      | .error reason => some (pk, reason)
      | .ok _ => none

/-- `invoice_restores`: the journalled items that are restored. -/
def restoredItem (r : Row) : Option (Option ℕ × Column) :=
  if (journalledItems x).contains r.id then (m.restoreItem x r).toOption else none

/-- `_inverse_snapshot_map`. -/
def inverseSnapshotMap (resource source : ℕ) : Option SnapshotMap :=
  (m.sources.find? fun s => s.id = source).map fun s =>
    { offeringUuids := [m.target.uuid]
      offering := s
      providerChanges := s.customer ≠ m.target.customer
      planComponents := fun pc => (resourcePlan x resource).bind fun plans =>
        (c.planComponents.rows.find? fun pc' => pc'.id = pc && pc'.plan = plans.2).bind fun pc' =>
          c.planComponents.rows.reverse.find? fun pc'' => pc''.plan = plans.1 &&
            pc''.component = pc'.component.bind (m.inverseComponents source)
      plans := fun uuid => (resourcePlan x resource).bind fun plans =>
        if (c.plans.get? plans.2).map (·.uuid) = some uuid then c.plans.get? plans.1 else none
      componentTypes := fun type => ((m.inverseTypes source).get? type).bind fun type' =>
        c.components.rows.find? fun k => k.offering = source && k.type = type' }

/-- `invoice_moves`: what a new item of a moved resource becomes. -/
def movedItem (r : Row) : Option (Column × Option ℕ) :=
  if m.inScope r && decide (x.lastItemId < r.id) then
    (r.refs .resource).bind fun resource => (resourceSource x resource).bind fun source =>
      (m.inverseSnapshotMap x resource source).map fun mapping =>
        rewriteSnapshot c mapping (r.docs .details) (r.refs .planComponent)
  else none

/-- The plan components that items get. -/
def itemComponents (new : Row → Option (Option ℕ)) : Write :=
  .refs .invoiceItem .planComponent ((db.table .invoiceItem).rows.filterMap fun r =>
    (r.refs .planComponent).bind fun old => (new r).bind fun pc => (pc.filter fun pc => decide (pc ≠ old)).map
      fun pc => (r.id, old, pc))

/-- The details that items get. -/
def itemDetails (new : Row → Option Column) : Write :=
  .docs .invoiceItem .details ((db.table .invoiceItem).rows.filterMap fun r =>
    (new r).bind fun details => if details = r.docs .details then none else some (r.id, r.docs .details, details))

/-- The writes of items: restored ones, then moved ones. -/
def itemWrites : List Write :=
  [itemComponents db fun r => (m.restoredItem x r).map Prod.fst, itemDetails db fun r => (m.restoredItem x r).map Prod.snd,
    itemComponents db fun r => (m.movedItem x r).map Prod.snd, itemDetails db fun r => (m.movedItem x r).map Prod.fst]

end Items

/-- The foreign keys that an undo writes. -/
def undoRefs (db : Db) : List Write :=
  (fkChanges x).map takenBack ++ usageModels.map (m.usageMoves x db) ++
    [m.orderMoves x db .offering fun r => (r.refs .resource).bind (resourceSource x),
      m.orderMoves x db .plan fun r => (planBack x r .plan).toOption.join,
      m.orderMoves x db .oldPlan fun r => (planBack x r .oldPlan).toOption.join]

/-- `apply`. -/
def undoWrites (db : Db) : List Write := m.undoRefs x db ++ jsonEntries.map (m.undoJson x db) ++ m.itemWrites x db

/-- `_undo` on the rows as they are when it starts. -/
def undo (db : Db) : Except (List UndoIssue) Db :=
  if (m.undoBlockers x db).isEmpty then .ok ((m.undoWrites x db).foldl Db.apply db) else .error (m.undoBlockers x db)

/-! ## The columns after an undo -/

section After

variable {m x} {db later after : Db} {r : Row} {model : Model} {attname : Attname} {f : JsonField} {j : JsonKeys}

theorem rowAfter_append {ws ws' : List Write} : rowAfter (ws ++ ws') model r = rowAfter ws' model (rowAfter ws model r) :=
  List.foldl_append

/-- The foreign keys of an undo are foreign keys. -/
theorem undoRefs_columns : (model, .inr f) ∉ (m.undoRefs x db).map Write.column := by
  intro h
  obtain ⟨w, hw, hcolumn⟩ := List.mem_map.mp h
  have hrefs : ∃ model' attname', w.column = (model', .inl attname') := by
    rcases List.mem_append.mp hw with hw | horder
    · rcases List.mem_append.mp hw with hfk | husage
      · obtain ⟨w', hw', rfl⟩ := List.mem_map.mp hfk
        cases w' with
        | refs model' attname' rows => exact ⟨model', attname', rfl⟩
        | docs model' field' rows => exact absurd (List.mem_filter.mp hw').2 Bool.false_ne_true
      · obtain ⟨model', -, rfl⟩ := List.mem_map.mp husage
        exact ⟨model', .component, rfl⟩
    · simp only [List.mem_cons, List.not_mem_nil, or_false] at horder
      rcases horder with rfl | rfl | rfl
      · exact ⟨.order, .offering, rfl⟩
      · exact ⟨.order, .plan, rfl⟩
      · exact ⟨.order, .oldPlan, rfl⟩
  obtain ⟨model', attname', hw'⟩ := hrefs
  rw [hcolumn] at hw'
  cases (Prod.mk.inj hw').2

/-- No foreign key of an undo is one of an invoice item. -/
theorem undoRefs_models : (.invoiceItem, .inl attname) ∉ (m.undoRefs x db).map Write.column := by
  intro h
  obtain ⟨w, hw, hcolumn⟩ := List.mem_map.mp h
  have hmodel : w.column.1 ≠ .invoiceItem := by
    rcases List.mem_append.mp hw with hw | horder
    · rcases List.mem_append.mp hw with hfk | husage
      · obtain ⟨w', hw', rfl⟩ := List.mem_map.mp hfk
        cases w' with
        | refs model' attname' rows => exact of_decide_eq_true (List.mem_filter.mp hw').2
        | docs model' field' rows => exact absurd (List.mem_filter.mp hw').2 Bool.false_ne_true
      · obtain ⟨model', hmodel', rfl⟩ := List.mem_map.mp husage
        have hnot : ∀ model ∈ usageModels, model ≠ .invoiceItem := by decide
        exact hnot model' hmodel'
    · simp only [List.mem_cons, List.not_mem_nil, or_false] at horder
      rcases horder with rfl | rfl | rfl <;> exact fun heq => by cases heq
  exact hmodel (congrArg Prod.fst hcolumn)

theorem undoJson_columns : (jsonEntries.map (m.undoJson x db)).map Write.column =
    jsonEntries.map fun j => (j.model, .inr j.field) := by
  rw [List.map_map]
  rfl

theorem undoJson_key (r : Row) (y : ℕ × Column × Column)
    (h : ((undoneFor c x j r).bind fun source =>
      if m.renameBack j source (r.docs j.field) = r.docs j.field then none
      else some (r.id, r.docs j.field, m.renameBack j source (r.docs j.field))) = some y) : y.1 = r.id := by
  obtain ⟨source, -, hsource⟩ := Option.bind_eq_some_iff.mp h
  split_ifs at hsource
  obtain rfl := Option.some.inj hsource
  rfl

/-- A document after the undo: renamed back where its row is of a moved resource. -/
theorem docs_undo (hj : j ∈ jsonEntries) (hr : r ∈ (db.table j.model).rows) :
    (rowAfter (m.undoWrites x db) j.model r).docs j.field =
      (undoneFor c x j r).elim (r.docs j.field) fun source => m.renameBack j source (r.docs j.field) := by
  have hmodels : ∀ j ∈ jsonEntries, j.model ≠ .invoiceItem := by decide
  have hitems : (j.model, .inr j.field) ∉ (m.itemWrites x db).map Write.column := by
    intro hmem
    simp only [itemWrites, List.map_cons, List.map_nil, List.mem_cons, List.not_mem_nil, or_false] at hmem
    rcases hmem with heq | heq | heq | heq <;> exact hmodels j hj (Prod.mk.inj heq).1
  have hnodup : ((jsonEntries.map (m.undoJson x db)).map Write.column).Nodup := by
    rw [undoJson_columns]
    decide
  have hwrite : m.undoJson x db j ∈ jsonEntries.map (m.undoJson x db) := List.mem_map_of_mem hj
  unfold undoWrites
  rw [rowAfter_append, rowAfter_append, docs_rowAfter_ne hitems, docs_rowAfter hnodup hwrite, id_rowAfter,
    docs_rowAfter_ne undoRefs_columns, changeOf_filterMap (db.table j.model).nodup undoJson_key hr]
  cases undoneFor c x j r with
  | none => rfl
  | some source =>
    simp only [Option.bind_some, Option.elim_some]
    split_ifs with hsame
    · exact hsame.symm
    · rfl

theorem get?_undo (h : m.undo x later = .ok after) (pk : ℕ) :
    (after.table model).get? pk = ((later.table model).get? pk).map (rowAfter (m.undoWrites x later) model) := by
  unfold undo at h
  split_ifs at h
  obtain rfl := Except.ok.inj h
  exact get?_foldl_apply later _ model pk

end After

/-! ## What the journal says of invoice items -/

section JournalledItems

variable {m x} {db : Db} {journal : List Write} {pk : ℕ}

theorem mem_journalRefs {model : Model} {attname : Attname} {y : ℕ × ℕ × ℕ} (h : y ∈ journalRefs journal model attname) :
    ∃ rows, Write.refs model attname rows ∈ journal ∧ y ∈ rows := by
  obtain ⟨w, hw, hy⟩ := List.mem_flatMap.mp h
  cases w with
  | refs model' attname' rows =>
    by_cases hcolumn : model' = model ∧ attname' = attname
    · obtain ⟨rfl, rfl⟩ := hcolumn
      simp only [and_self, if_true] at hy
      exact ⟨rows, hw, hy⟩
    · simp only [hcolumn, if_false] at hy
      exact absurd hy List.not_mem_nil
  | docs model' field' rows => exact absurd hy List.not_mem_nil

theorem mem_journalDocs {model : Model} {f : JsonField} {y : ℕ × Column × Column} (h : y ∈ journalDocs journal model f) :
    ∃ rows, Write.docs model f rows ∈ journal ∧ y ∈ rows := by
  obtain ⟨w, hw, hy⟩ := List.mem_flatMap.mp h
  cases w with
  | refs model' attname' rows => exact absurd hy List.not_mem_nil
  | docs model' field' rows =>
    by_cases hcolumn : model' = model ∧ field' = f
    · obtain ⟨rfl, rfl⟩ := hcolumn
      simp only [and_self, if_true] at hy
      exact ⟨rows, hw, hy⟩
    · simp only [hcolumn, if_false] at hy
      exact absurd hy List.not_mem_nil

theorem lastItemId_execute (h : m.execute db = .ok x) :
    x.lastItemId = ((db.table .invoiceItem).rows.map (·.id)).max?.getD 0 := by
  unfold execute at h
  split_ifs at h
  obtain rfl := Except.ok.inj h
  rfl

/-- A journalled change of details is one of an object that was there at the merge. -/
theorem mem_detailsChanges (h : m.execute db = .ok x) {y : ℕ × Column × Column} (hy : y ∈ detailsChanges x) :
    (∃ r ∈ (db.table .invoiceItem).rows, r.id = y.1) ∧ ∃ old new, y.2 = (.object old, .object new) := by
  obtain ⟨-, hjournal, -⟩ := execute_eq_ok h
  obtain ⟨rows, hw, hmem⟩ := mem_journalDocs hy
  rw [hjournal] at hw
  have hwrite : m.detailsWrite db ∈ m.writes db := by
    refine List.mem_append_right _ ?_
    exact List.mem_cons_of_mem _ List.mem_cons_self
  have hsame : Write.docs .invoiceItem .details rows = m.detailsWrite db :=
    List.inj_on_of_nodup_map (m.nodup_columns db) hw hwrite rfl
  obtain rfl := (Write.docs.inj hsame).2.2
  obtain ⟨z, hz, hzy⟩ := List.mem_filterMap.mp hmem
  obtain ⟨r, hr, hrz⟩ := List.mem_filterMap.mp hz
  obtain ⟨o, -, rfl⟩ := Option.map_eq_some_iff.mp hrz
  dsimp only at hzy
  split_ifs at hzy with hsame'
  obtain rfl := Option.some.inj hzy
  refine ⟨⟨r, hr, rfl⟩, ?_⟩
  cases hdetails : r.docs .details with
  | plain l =>
    refine absurd ?_ hsame'
    unfold rewriteItem rewriteSnapshot
    rw [hdetails]
  | object d =>
    refine ⟨d, rewriteDocument c (m.snapshotMap o) d (r.refs .planComponent), ?_⟩
    unfold rewriteItem rewriteSnapshot
    rw [hdetails]

theorem mem_pcChanges (h : m.execute db = .ok x) {y : ℕ × ℕ × ℕ} (hy : y ∈ pcChanges x) :
    ∃ r ∈ (db.table .invoiceItem).rows, r.id = y.1 := by
  obtain ⟨-, hjournal, -⟩ := execute_eq_ok h
  obtain ⟨rows, hw, hmem⟩ := mem_journalRefs hy
  rw [hjournal] at hw
  have hwrite : m.planComponentWrite db ∈ m.writes db := List.mem_append_right _ List.mem_cons_self
  have hsame : Write.refs .invoiceItem .planComponent rows = m.planComponentWrite db :=
    List.inj_on_of_nodup_map (m.nodup_columns db) hw hwrite rfl
  obtain rfl := (Write.refs.inj hsame).2.2
  obtain ⟨z, hz, hzy⟩ := List.mem_filterMap.mp hmem
  obtain ⟨r, hr, hrz⟩ := List.mem_filterMap.mp hz
  refine ⟨r, hr, ?_⟩
  rw [rewrittenComponent_key z y hzy]
  exact (invoiceRow_key r z hrz).symm

/-- What is journalled is older than what an undo moves back. -/
theorem journalled_le (h : m.execute db = .ok x) (hpk : pk ∈ journalledItems x) : pk ≤ x.lastItemId := by
  have hrow : ∃ r ∈ (db.table .invoiceItem).rows, r.id = pk := by
    rcases List.mem_append.mp (List.mem_dedup.mp hpk) with hdetails | hpc
    · obtain ⟨y, hy, rfl⟩ := List.mem_map.mp hdetails
      exact (mem_detailsChanges h hy).1
    · obtain ⟨y, hy, rfl⟩ := List.mem_map.mp hpc
      exact mem_pcChanges h hy
  obtain ⟨r, hr, rfl⟩ := hrow
  rw [lastItemId_execute h]
  exact List.le_max?_getD_of_mem (List.mem_map_of_mem hr)

theorem movedItem_journalled (h : m.execute db = .ok x) {r : Row} (hr : r.id ∈ journalledItems x) :
    m.movedItem x r = none := by
  have hle := journalled_le h hr
  unfold movedItem
  rw [if_neg]
  intro hnew
  have hlt := of_decide_eq_true (Bool.and_eq_true_iff.mp hnew).2
  omega

end JournalledItems

/-! ## Invoice items after an undo -/

section ItemsAfter

variable {m x} {db later : Db} {r r' : Row} {attname : Attname} {f : JsonField}

theorem itemDetails_key {new : Row → Option Column} (r : Row) (y : ℕ × Column × Column)
    (h : ((new r).bind fun details => if details = r.docs .details then none else some (r.id, r.docs .details, details)) =
      some y) : y.1 = r.id := by
  obtain ⟨details, -, hdetails⟩ := Option.bind_eq_some_iff.mp h
  split_ifs at hdetails
  obtain rfl := Option.some.inj hdetails
  rfl

theorem itemComponents_key {new : Row → Option (Option ℕ)} (r : Row) (y : ℕ × ℕ × ℕ)
    (h : ((r.refs .planComponent).bind fun old => (new r).bind fun pc => (pc.filter fun pc => decide (pc ≠ old)).map
      fun pc => (r.id, old, pc)) = some y) : y.1 = r.id := by
  obtain ⟨old, -, hold⟩ := Option.bind_eq_some_iff.mp h
  obtain ⟨pc, -, hpc⟩ := Option.bind_eq_some_iff.mp hold
  obtain ⟨_, -, rfl⟩ := Option.map_eq_some_iff.mp hpc
  rfl

/-- An item gets its new details. -/
theorem docs_itemDetails {new : Row → Option Column} (hr : r ∈ (later.table .invoiceItem).rows) (hid : r'.id = r.id)
    (hdocs : r'.docs .details = r.docs .details) :
    ((itemDetails later new).applyRow .invoiceItem r').docs .details = (new r).getD (r.docs .details) := by
  unfold itemDetails
  rw [Write.docs_applyRow, hid, changeOf_filterMap (later.table .invoiceItem).nodup itemDetails_key hr, hdocs]
  cases new r with
  | none => rfl
  | some details =>
    simp only [Option.bind_some, Option.getD_some]
    split_ifs with hsame
    · exact hsame.symm
    · rfl

theorem docs_itemDetails_none {new : Row → Option Column} (hr : r ∈ (later.table .invoiceItem).rows) (hid : r'.id = r.id)
    (hnew : new r = none) : ((itemDetails later new).applyRow .invoiceItem r').docs .details = r'.docs .details := by
  unfold itemDetails
  rw [Write.docs_applyRow, hid, changeOf_filterMap (later.table .invoiceItem).nodup itemDetails_key hr, hnew]
  rfl

/-- An item gets its new plan component. -/
theorem refs_itemComponents {new : Row → Option (Option ℕ)} {pc : Option ℕ} (hr : r ∈ (later.table .invoiceItem).rows)
    (hid : r'.id = r.id) (hrefs : r'.refs .planComponent = r.refs .planComponent) (hnew : new r = some pc)
    (hpc : pc.isSome = (r.refs .planComponent).isSome) :
    ((itemComponents later new).applyRow .invoiceItem r').refs .planComponent = pc := by
  unfold itemComponents
  rw [Write.refs_applyRow, hid, changeOf_filterMap (later.table .invoiceItem).nodup itemComponents_key hr, hrefs, hnew]
  cases hold : r.refs .planComponent with
  | none =>
    rw [hold] at hpc
    rw [Option.isSome_eq_false_iff.mp hpc |> Option.isNone_iff_eq_none.mp]
    rfl
  | some old =>
    rw [hold] at hpc
    obtain ⟨k, rfl⟩ := Option.isSome_iff_exists.mp hpc
    simp only [Option.bind_some, Option.filter_some]
    by_cases hsame : k = old
    · rw [if_neg (by simpa using hsame), hsame]
      rfl
    · rw [if_pos (by simpa using hsame)]
      rfl

theorem refs_itemComponents_none {new : Row → Option (Option ℕ)} (hr : r ∈ (later.table .invoiceItem).rows)
    (hid : r'.id = r.id) (hnew : new r = none) :
    ((itemComponents later new).applyRow .invoiceItem r').refs .planComponent = r'.refs .planComponent := by
  unfold itemComponents
  rw [Write.refs_applyRow, hid, changeOf_filterMap (later.table .invoiceItem).nodup itemComponents_key hr, hnew]
  cases r.refs .planComponent <;> rfl

theorem restoreItem_ok {pc : Option ℕ} {details : Column} (h : m.restoreItem x r = .ok (pc, details)) :
    restoreDetails x r = some details ∧
      pc = ((changeOf (pcChanges x) r.id).map Prod.fst).orElse (fun _ => r.refs .planComponent) ∧
      pc.isSome = (r.refs .planComponent).isSome := by
  unfold restoreItem at h
  split_ifs at h with hclosed hchanged
  cases hdetails : restoreDetails x r with
  | none =>
    rw [hdetails] at h
    cases h
  | some details' =>
    rw [hdetails] at h
    obtain ⟨hpc, rfl⟩ := Prod.mk.inj (Except.ok.inj h)
    refine ⟨rfl, hpc.symm, ?_⟩
    rw [← hpc]
    cases hchange : changeOf (pcChanges x) r.id with
    | none => rfl
    | some change =>
      rw [hchange, Option.any_some, decide_eq_true_eq, not_ne_iff] at hchanged
      rw [hchanged]
      rfl

theorem restoredItem_eq (h : r.id ∈ journalledItems x) : m.restoredItem x r = (m.restoreItem x r).toOption := by
  unfold restoredItem
  rw [if_pos (List.contains_iff_mem.mpr h)]

theorem undoJson_models : (.invoiceItem, .inl attname) ∉ (jsonEntries.map (m.undoJson x db)).map Write.column ∧
    (.invoiceItem, .inr f) ∉ (jsonEntries.map (m.undoJson x db)).map Write.column := by
  have hmodels : ∀ j ∈ jsonEntries, j.model ≠ .invoiceItem := by decide
  rw [undoJson_columns]
  constructor
  · intro hmem
    obtain ⟨j, hj, heq⟩ := List.mem_map.mp hmem
    exact hmodels j hj (Prod.mk.inj heq).1
  · intro hmem
    obtain ⟨j, hj, heq⟩ := List.mem_map.mp hmem
    exact hmodels j hj (Prod.mk.inj heq).1

theorem restoredItem_ok {new : Option ℕ × Column} (h : m.restoredItem x r = some new) :
    m.restoreItem x r = .ok new := by
  unfold restoredItem at h
  split_ifs at h
  cases hrestore : m.restoreItem x r with
  | error reason =>
    rw [hrestore] at h
    cases h
  | ok new' =>
    rw [hrestore] at h
    exact congrArg Except.ok (Option.some.inj h)

/-- An item that is not moved back has what is restored of it after the undo. -/
theorem item_written (hr : r ∈ (later.table .invoiceItem).rows) (hmoved : m.movedItem x r = none) :
    (rowAfter (m.undoWrites x later) .invoiceItem r).docs .details =
        ((m.restoredItem x r).map Prod.snd).getD (r.docs .details) ∧
      (rowAfter (m.undoWrites x later) .invoiceItem r).refs .planComponent =
        ((m.restoredItem x r).map Prod.fst).getD (r.refs .planComponent) := by
  obtain ⟨r₁, hr₁⟩ : ∃ r₁, r₁ = rowAfter (m.undoRefs x later ++ jsonEntries.map (m.undoJson x later)) .invoiceItem r :=
    ⟨_, rfl⟩
  have hid : r₁.id = r.id := hr₁ ▸ id_rowAfter
  have hdocs : r₁.docs .details = r.docs .details := by
    rw [hr₁, rowAfter_append, docs_rowAfter_ne undoJson_models.2, docs_rowAfter_ne undoRefs_columns]
    exact .planComponent
  have hrefs : r₁.refs .planComponent = r.refs .planComponent := by
    rw [hr₁, rowAfter_append, refs_rowAfter_ne undoJson_models.1, refs_rowAfter_ne undoRefs_models]
    exact .details
  have hafter : rowAfter (m.undoWrites x later) .invoiceItem r = rowAfter (m.itemWrites x later) .invoiceItem r₁ := by
    unfold undoWrites
    rw [rowAfter_append, ← hr₁]
  obtain ⟨r₂, hr₂⟩ : ∃ r₂, r₂ = (itemComponents later fun r => (m.restoredItem x r).map Prod.fst).applyRow .invoiceItem r₁ :=
    ⟨_, rfl⟩
  obtain ⟨r₃, hr₃⟩ : ∃ r₃, r₃ = (itemDetails later fun r => (m.restoredItem x r).map Prod.snd).applyRow .invoiceItem r₂ :=
    ⟨_, rfl⟩
  obtain ⟨r₄, hr₄⟩ : ∃ r₄, r₄ = (itemComponents later fun r => (m.movedItem x r).map Prod.snd).applyRow .invoiceItem r₃ :=
    ⟨_, rfl⟩
  have hlast : rowAfter (m.itemWrites x later) .invoiceItem r₁ =
      (itemDetails later fun r => (m.movedItem x r).map Prod.fst).applyRow .invoiceItem r₄ := by
    rw [hr₄, hr₃, hr₂]
    rfl
  have hid₂ : r₂.id = r.id := hr₂ ▸ Write.id_applyRow.trans hid
  have hid₃ : r₃.id = r.id := hr₃ ▸ Write.id_applyRow.trans hid₂
  have hid₄ : r₄.id = r.id := hr₄ ▸ Write.id_applyRow.trans hid₃
  have hpcs : ∀ new : Row → Option (Option ℕ), (itemComponents later new).column ≠ (.invoiceItem, .inr .details) :=
    fun new heq => by cases (Prod.mk.inj heq).2
  have hdetails : ∀ new : Row → Option Column, (itemDetails later new).column ≠ (.invoiceItem, .inl .planComponent) :=
    fun new heq => by cases (Prod.mk.inj heq).2
  rw [hafter, hlast]
  constructor
  · rw [docs_itemDetails_none hr hid₄ (by rw [hmoved, Option.map_none]), hr₄, Write.docs_applyRow_ne (hpcs _), hr₃,
      docs_itemDetails hr hid₂ (by rw [hr₂, Write.docs_applyRow_ne (hpcs _), hdocs])]
  · rw [Write.refs_applyRow_ne (hdetails _), hr₄,
      refs_itemComponents_none hr hid₃ (by rw [hmoved, Option.map_none]), hr₃, Write.refs_applyRow_ne (hdetails _), hr₂]
    cases hrestored : m.restoredItem x r with
    | none =>
      rw [refs_itemComponents_none hr hid (by rw [hrestored]; rfl), hrefs]
      rfl
    | some new =>
      have hok : m.restoreItem x r = .ok (new.1, new.2) := restoredItem_ok hrestored
      obtain ⟨-, -, hsome⟩ := restoreItem_ok hok
      rw [refs_itemComponents hr hid hrefs (by rw [hrestored]; rfl) hsome]
      rfl

/-- A journalled item after the undo is the item with its restored plan component and details. -/
theorem item_undo (hexecute : m.execute db = .ok x) (hr : r ∈ (later.table .invoiceItem).rows)
    (hitem : r.id ∈ journalledItems x) :
    (rowAfter (m.undoWrites x later) .invoiceItem r).docs .details =
        (((m.restoreItem x r).toOption).map Prod.snd).getD (r.docs .details) ∧
      (rowAfter (m.undoWrites x later) .invoiceItem r).refs .planComponent =
        (((m.restoreItem x r).toOption).map Prod.fst).getD (r.refs .planComponent) := by
  rw [← restoredItem_eq hitem]
  exact item_written hr (movedItem_journalled hexecute hitem)

/-- The other columns of an item are not written. -/
theorem item_undo_ne (hpc : attname ≠ .planComponent) :
    (rowAfter (m.undoWrites x later) .invoiceItem r).refs attname = r.refs attname := by
  have hitems : (.invoiceItem, .inl attname) ∉ (m.itemWrites x later).map Write.column := by
    intro hmem
    simp only [itemWrites, itemComponents, itemDetails, Write.column, List.map_cons, List.map_nil, List.mem_cons,
      List.not_mem_nil, or_false, Prod.mk.injEq, Sum.inl.injEq, reduceCtorEq, and_false, true_and, or_self, false_or] at hmem
    exact hpc hmem
  unfold undoWrites
  rw [rowAfter_append, rowAfter_append, refs_rowAfter_ne hitems, refs_rowAfter_ne undoJson_models.1,
    refs_rowAfter_ne undoRefs_models]
  exact .details

theorem item_undo_docs_ne (hdetails : f ≠ .details) :
    (rowAfter (m.undoWrites x later) .invoiceItem r).docs f = r.docs f := by
  have hitems : (.invoiceItem, .inr f) ∉ (m.itemWrites x later).map Write.column := by
    intro hmem
    simp only [itemWrites, itemComponents, itemDetails, Write.column, List.map_cons, List.map_nil, List.mem_cons,
      List.not_mem_nil, or_false, Prod.mk.injEq, Sum.inr.injEq, reduceCtorEq, and_false, true_and, or_self, false_or] at hmem
    exact hdetails hmem
  unfold undoWrites
  rw [rowAfter_append, rowAfter_append, docs_rowAfter_ne hitems, docs_rowAfter_ne undoJson_models.2,
    docs_rowAfter_ne undoRefs_columns]
  exact .planComponent

end ItemsAfter

/-! ## The work since the merge -/

section Work

/-- A restored item: the keys that the merge rewrote and the old plan component are back, and nothing else changes. -/
structure ItemRestored (x : Executed) (r r' : Row) : Prop where
  rewritten : ∀ change, changeOf (detailsChanges x) r.id = some change → ∃ old new current result,
    change = (.object old, .object new) ∧ r.docs .details = .object current ∧ r'.docs .details = .object result ∧
      ∀ k, result.get? k = if old.get? k = new.get? k then current.get? k else old.get? k
  unwritten : changeOf (detailsChanges x) r.id = none → r'.docs .details = r.docs .details
  component : r'.refs .planComponent =
    ((changeOf (pcChanges x) r.id).map Prod.fst).orElse fun _ => r.refs .planComponent
  refs : ∀ attname ≠ .planComponent, r'.refs attname = r.refs attname
  docs : ∀ f ≠ .details, r'.docs f = r.docs f

/-- **An undo keeps the work since the merge**: every document of limits or usages is the one just before under its old
names, entry by entry, and every journalled item is restored or skipped. -/
structure KeepsWork (m : Merge c) (x : Executed) (later after : Db) : Prop where
  documents : ∀ j ∈ jsonEntries, j.field = .limits ∨ j.field = .currentUsages →
    ∀ r ∈ (later.table j.model).rows, ∀ source d, undoneFor c x j r = some source → r.docs j.field = .object d →
      ∃ d', ((after.table j.model).get? r.id).map (·.docs j.field) = some (.object d') ∧
        d'.entries.Perm (d.entries.map (renamedEntry (m.inverseTypes source)))
  items : ∀ r ∈ (later.table .invoiceItem).rows, r.id ∈ journalledItems x →
    ∃ r', (after.table .invoiceItem).get? r.id = some r' ∧
      (ItemRestored x r r' ∨ (∃ reason, (r.id, reason) ∈ m.invoiceSkipped x later) ∧ r' = r)
  deleted : ∀ pk ∈ journalledItems x, (later.table .invoiceItem).get? pk = none →
    (pk, .deleted) ∈ m.invoiceSkipped x later

/-- **Old names stay apart**: no two keys of a document of limits or usages get one name under the inverse renaming. -/
def NamesApart (m : Merge c) (x : Executed) (later : Db) : Prop :=
  ∀ j ∈ jsonEntries, j.field = .limits ∨ j.field = .currentUsages →
    ∀ r ∈ (later.table j.model).rows, ∀ source d, undoneFor c x j r = some source → r.docs j.field = .object d →
      ∀ k ∈ d.keys, ∀ k' ∈ d.keys, renamed (m.inverseTypes source) k = renamed (m.inverseTypes source) k' → k = k'

variable {m x} {db later after : Db} {r r' : Row}

/-- A renaming loses no entry where no two keys meet. -/
theorem renameDocument_perm_iff {ν : Type} {mapping : Document Key Key} {d : Document Key ν} :
    (renameDocument mapping d).entries.Perm (d.entries.map (renamedEntry mapping)) ↔
      ∀ k ∈ d.keys, ∀ k' ∈ d.keys, renamed mapping k = renamed mapping k' → k = k' := by
  have hkeys : (d.entries.map (renamedEntry mapping)).map Prod.fst = d.keys.map (renamed mapping) := by
    unfold keys
    rw [List.map_map, List.map_map]
    rfl
  have hinjective : (d.keys.map (renamed mapping)).Nodup ↔
      ∀ k ∈ d.keys, ∀ k' ∈ d.keys, renamed mapping k = renamed mapping k' → k = k' :=
    List.nodup_map_iff_inj_on d.nodup_keys
  have hassigned := assignments_perm mapping d.entries
  rw [← hinjective, ← hkeys]
  constructor
  · intro hperm
    rw [← (hperm.map Prod.fst).nodup_iff]
    exact (renameDocument mapping d).nodup_keys
  · intro hnodup
    rw [← (hassigned.map Prod.fst).nodup_iff] at hnodup
    exact (entries_ofEntries_perm hnodup).trans hassigned

theorem restoreDetails_some (hexecute : m.execute db = .ok x) {change : Column × Column} {details : Column}
    (hchange : changeOf (detailsChanges x) r.id = some change) (h : restoreDetails x r = some details) :
    ∃ old new current result, change = (.object old, .object new) ∧ r.docs .details = .object current ∧
      details = .object result ∧ ∀ k, result.get? k = if old.get? k = new.get? k then current.get? k else old.get? k := by
  obtain ⟨y, hy, rfl⟩ := Option.map_eq_some_iff.mp hchange
  obtain ⟨-, old, new, hchange'⟩ := mem_detailsChanges hexecute (List.mem_of_find?_eq_some hy)
  unfold restoreDetails at h
  rw [hchange, hchange'] at h
  cases hcurrent : r.docs .details with
  | plain l =>
    have hplain : (if Column.plain l = .object new then some (Column.object old) else none) = some details := by
      rw [hcurrent] at h
      exact h
    rw [if_neg (fun heq => by cases heq)] at hplain
    cases hplain
  | object current =>
    rw [hcurrent] at h
    obtain ⟨result, hresult, rfl⟩ := Option.map_eq_some_iff.mp
      (show (restoreDocument current old new).map Column.object = some details from h)
    exact ⟨old, new, current, result, hchange', rfl, rfl, (restoreDocument_iff.mp hresult).2⟩

theorem eq_of_columns (hid : r'.id = r.id) (hrefs : ∀ a, r'.refs a = r.refs a) (hdocs : ∀ f, r'.docs f = r.docs f)
    (hopen : r'.isOpen = r.isOpen) (hamount : r'.amount = r.amount) : r' = r := by
  have hrefs' : r'.refs = r.refs := funext hrefs
  have hdocs' : r'.docs = r.docs := funext hdocs
  cases r
  cases r'
  simp only [Row.mk.injEq]
  exact ⟨hid, hrefs', hdocs', hopen, hamount⟩

/-- A journalled item is restored, or skipped and as it was. -/
theorem items_undo (hexecute : m.execute db = .ok x) (hundo : m.undo x later = .ok after)
    (hr : r ∈ (later.table .invoiceItem).rows) (hitem : r.id ∈ journalledItems x) :
    ∃ r', (after.table .invoiceItem).get? r.id = some r' ∧
      (ItemRestored x r r' ∨ (∃ reason, (r.id, reason) ∈ m.invoiceSkipped x later) ∧ r' = r) := by
  have hget : (later.table .invoiceItem).get? r.id = some r := Table.get?_eq_some.mpr ⟨hr, rfl⟩
  obtain ⟨hdetails, hcomponent⟩ := item_undo hexecute hr hitem
  refine ⟨rowAfter (m.undoWrites x later) .invoiceItem r, ?_, ?_⟩
  · rw [get?_undo hundo, hget, Option.map_some]
  cases hrestore : m.restoreItem x r with
  | ok new =>
    have hok : m.restoreItem x r = .ok (new.1, new.2) := hrestore
    obtain ⟨hnew, hpc, -⟩ := restoreItem_ok hok
    have hdetails' : (rowAfter (m.undoWrites x later) .invoiceItem r).docs .details = new.2 := by
      rw [hdetails, hrestore]
      rfl
    have hcomponent' : (rowAfter (m.undoWrites x later) .invoiceItem r).refs .planComponent = new.1 := by
      rw [hcomponent, hrestore]
      rfl
    refine Or.inl ⟨?_, ?_, hcomponent'.trans hpc, fun a ha => item_undo_ne ha, fun f hf => item_undo_docs_ne hf⟩
    · intro change hchange
      obtain ⟨old, newer, current, result, hobjects, hcurrent, hresult, hvalues⟩ :=
        restoreDetails_some hexecute hchange hnew
      exact ⟨old, newer, current, result, hobjects, hcurrent, hdetails'.trans hresult, hvalues⟩
    · intro hchange
      unfold restoreDetails at hnew
      rw [hchange] at hnew
      exact hdetails'.trans (Option.some.inj hnew).symm
  | error reason =>
    refine Or.inr ⟨⟨reason, List.mem_filterMap.mpr ⟨r.id, hitem, ?_⟩⟩, ?_⟩
    · rw [hget]
      simp only [hrestore]
    · refine eq_of_columns id_rowAfter (fun a => ?_) (fun f => ?_) isOpen_rowAfter amount_rowAfter
      · by_cases ha : a = .planComponent
        · rw [ha, hcomponent, hrestore]
          rfl
        · exact item_undo_ne ha
      · by_cases hf : f = .details
        · rw [hf, hdetails, hrestore]
          rfl
        · exact item_undo_docs_ne hf

/-- A document of limits or usages after the undo. -/
theorem document_undo (hundo : m.undo x later = .ok after) {j : JsonKeys} (hj : j ∈ jsonEntries)
    (hfield : j.field = .limits ∨ j.field = .currentUsages) (hr : r ∈ (later.table j.model).rows) {source : ℕ}
    {d : Document Key Value} (hsource : undoneFor c x j r = some source) (hd : r.docs j.field = .object d) :
    ((after.table j.model).get? r.id).map (·.docs j.field) =
      some (.object (renameDocument (m.inverseTypes source) d)) := by
  have hrename : ∀ j ∈ jsonEntries, j.field = .limits ∨ j.field = .currentUsages → j.rename = .componentTypes := by
    decide
  have hget : (later.table j.model).get? r.id = some r := Table.get?_eq_some.mpr ⟨hr, rfl⟩
  rw [get?_undo hundo, hget, Option.map_some, Option.map_some, docs_undo hj hr, hsource, Option.elim_some, hd]
  unfold renameBack
  rw [hrename j hj hfield]
  rfl

/-- **What an undo keeps**: the work since the merge, exactly where the old names of a document stay apart. -/
theorem keepsWork_iff (m : Merge c) (db later after : Db) (x : Executed) (hexecute : m.execute db = .ok x)
    (hundo : m.undo x later = .ok after) : m.KeepsWork x later after ↔ m.NamesApart x later := by
  constructor
  · intro hkeeps j hj hfield r hr source d hsource hd
    obtain ⟨d', hd', hperm⟩ := hkeeps.documents j hj hfield r hr source d hsource hd
    rw [document_undo hundo hj hfield hr hsource hd] at hd'
    obtain rfl := Column.object.inj (Option.some.inj hd')
    exact renameDocument_perm_iff.mp hperm
  · intro hapart
    refine ⟨?_, fun r hr hitem => items_undo hexecute hundo hr hitem, ?_⟩
    · intro j hj hfield r hr source d hsource hd
      refine ⟨_, document_undo hundo hj hfield hr hsource hd, ?_⟩
      exact renameDocument_perm_iff.mpr (hapart j hj hfield r hr source d hsource hd)
    · intro pk hpk hnone
      refine List.mem_filterMap.mpr ⟨pk, hpk, ?_⟩
      rw [hnone]

end Work

theorem execute_eq (m : Merge c) (db : Db) (h : (m.blockers db).isEmpty = true) : m.execute db = .ok
    { db := (m.writes db).foldl Db.apply db, journal := m.writes db,
      lastItemId := ((db.table .invoiceItem).rows.map (·.id)).max?.getD 0 } := if_pos h

end Merge

def cpu : Key := ⟨"cpu"⟩
def cores : Key := ⟨"cores"⟩

def coreRows : List OfferingComponent :=
  [{ id := 11, offering := 1, type := cores }, { id := 12, offering := 1, type := cpu },
    { id := 21, offering := 2, type := cpu }]

theorem coreRows_ids : (coreRows.map OfferingComponent.id).Nodup := by decide

theorem coreRows_types : (coreRows.map fun k => (k.offering, k.type)).Nodup := by decide

def coreOfferings : List Offering := [{ id := 1, uuid := numbered 1 }, { id := 2, uuid := numbered 2 }]

theorem coreOfferings_ids : (coreOfferings.map Offering.id).Nodup := by decide

theorem coreOfferings_uuids : (coreOfferings.map (·.uuid)).Nodup := by decide

/-- The target 1 has the components `cores` and `cpu`, the source 2 has `cpu`. -/
def coreCatalogue : Catalogue where
  offerings := ⟨coreOfferings, coreOfferings_ids⟩
  plans := Table.empty
  components := ⟨coreRows, coreRows_ids⟩
  planComponents := Table.empty
  offering_uuid := coreOfferings_uuids
  plan_uuid := noPlans_uuid
  component_type := coreRows_types
  plan_component := noPlanComponents_unique

theorem coreOfferings_stored : ∀ o ∈ ({ id := 1, uuid := numbered 1 } : Offering) :: [{ id := 2, uuid := numbered 2 }],
    o ∈ coreCatalogue.offerings.rows := by
  decide

/-- The `cpu` of the source becomes the `cores` of the target. -/
def cpuToCores : Merge coreCatalogue where
  target := { id := 1, uuid := numbered 1 }
  sources := [{ id := 2, uuid := numbered 2 }]
  componentMapping := Document.empty.insert (numbered 2) (Document.empty.insert cpu cores)
  stored := coreOfferings_stored

/-- A resource of an offering with its limits. -/
def limited (offering : ℕ) (limits : Document Key Value) : Db where
  table
    | .resource => ⟨[{
        id := 7
        refs := fun a => if a = .offering then some offering else none
        docs := fun f => if f = .limits then .object limits else .plain (.other 0) }], List.nodup_singleton _⟩
    | _ => Table.empty

def four (k : Key) : Document Key Value := ⟨[(k, .leaf (.int 4))], List.pairwise_singleton _ _⟩

theorem cpuToCores_runs : ((cpuToCores.blockers (limited 2 (four cpu))).isEmpty = true) := by decide

/-- What the merge leaves to an undo. -/
def coresExecuted : Merge.Executed where
  db := (cpuToCores.writes (limited 2 (four cpu))).foldl Db.apply (limited 2 (four cpu))
  journal := cpuToCores.writes (limited 2 (four cpu))
  lastItemId := 0

theorem cpuToCores_executed : cpuToCores.execute (limited 2 (four cpu)) = .ok coresExecuted :=
  cpuToCores.execute_eq _ cpuToCores_runs

theorem limited_undone (limits : Document Key Value) :
    cpuToCores.undo coresExecuted (limited 1 limits) =
      .ok ((cpuToCores.undoWrites coresExecuted (limited 1 limits)).foldl Db.apply (limited 1 limits)) := by
  have hallowed : (cpuToCores.undoBlockers coresExecuted (limited 1 limits)).isEmpty = true := rfl
  exact if_pos hallowed

/-- The limits of the moved resource are changed, and the undo keeps the change. -/
theorem limits_kept : ∃ after, cpuToCores.undo coresExecuted (limited 1 (four cores)) = .ok after ∧
    cpuToCores.KeepsWork coresExecuted (limited 1 (four cores)) after := by
  refine ⟨_, limited_undone _, (Merge.keepsWork_iff cpuToCores (limited 2 (four cpu)) (limited 1 (four cores)) _
    coresExecuted cpuToCores_executed (limited_undone _)).mpr ?_⟩
  intro j hj hfield r hr source d hsource hd k hk k' hk' hsame
  have hone : ∀ model, ∀ r ∈ ((limited 1 (four cores)).table model).rows, ∀ f d, r.docs f = .object d → d = four cores := by
    intro model r hr f d hd
    cases model <;> first
      | exact absurd hr List.not_mem_nil
      | obtain rfl := List.mem_singleton.mp hr
        dsimp only at hd
        split_ifs at hd
        exact (Column.object.inj hd).symm
  obtain rfl := hone _ r hr _ d hd
  rw [List.mem_singleton.mp hk, List.mem_singleton.mp hk']

/-- A limit of the component `cpu` of the target, set since the merge, is overwritten. -/
theorem limits_overwritten : ¬ ∀ (c : Catalogue) (m : Merge c) (db later after : Db) (x : Merge.Executed),
    m.execute db = .ok x → m.undo x later = .ok after → m.KeepsWork x later after := by
  intro h
  obtain ⟨limits, hlimits⟩ : ∃ limits : Document Key Value,
      limits = ofEntries [(cpu, .leaf (.int 2)), (cores, .leaf (.int 5))] := ⟨_, rfl⟩
  have hkeeps := h coreCatalogue cpuToCores _ _ _ coresExecuted cpuToCores_executed (limited_undone limits)
  have hentry : Merge.resourceEntry .limits ∈ jsonEntries := by decide
  have hsource : Merge.undoneFor coreCatalogue coresExecuted (Merge.resourceEntry .limits)
      { id := 7
        refs := fun a => if a = .offering then some 1 else none
        docs := fun f => if f = .limits then .object limits else .plain (.other 0) } = some 2 := rfl
  obtain ⟨d', hd', hperm⟩ := hkeeps.documents _ hentry (Or.inl rfl) _ List.mem_cons_self 2 limits hsource rfl
  rw [Merge.document_undo (limited_undone limits) hentry (Or.inl rfl) List.mem_cons_self hsource rfl] at hd'
  obtain rfl := Column.object.inj (Option.some.inj hd')
  have hcpu : cpu ∈ limits.keys := hlimits ▸ keys_ofEntries.mpr (by decide)
  have hcores : cores ∈ limits.keys := hlimits ▸ keys_ofEntries.mpr (by decide)
  have hsame := Merge.renameDocument_perm_iff.mp hperm cpu hcpu cores hcores (by decide)
  exact absurd hsame (by decide)

end Waldur.OfferingMerge
