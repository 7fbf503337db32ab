import Mathlib
import Waldur.OfferingMerge.TakenBack

/-!
# OfferingMerge.RoundTrip — a merge undone at once

An undo takes the foreign keys from the journal but renames every document that it reads, and moves back whatever it
takes for work since the merge.  `undo_restores_iff` is the exact condition under which it leaves every row as it was
before the merge.
-/

namespace Waldur.OfferingMerge

open Documents Document PythonText Relational Repointing

namespace Merge

variable {c : Catalogue}

/-! ## When an undo restores -/

section Restores

/-- **What a merge must find for its undo to restore it**: no pending order of a moved resource, no usage row and no
order of one on the target, and documents that come back. -/
structure Restorable (m : Merge c) (db : Db) : Prop where
  settled : ∀ r ∈ (db.table .order).rows, (m.leaves db r).isSome = true → r.isOpen = false
  usage : ∀ model ∈ usageModels, ∀ r ∈ (db.table model).rows, (m.leaves db r).isSome = true →
    ∀ k ∈ m.targetComponents, r.refs .component ≠ some k.id
  orders : ∀ r ∈ (db.table .order).rows, (m.leaves db r).isSome = true → r.refs .offering ≠ some m.target.id
  documents : ∀ j ∈ jsonEntries, ∀ r ∈ (db.table j.model).rows, ∀ s d, m.undoSource db j r = some s →
    r.docs j.field = .object d → m.ComesBack j (m.jsonSource db j r) s d

variable {m : Merge c} {db : Db} {x : Executed} {r : Row} {model : Model} {attname : Attname} {f : JsonField}
  {ws : List Write}

/-- Writes without rows leave a row as it is. -/
theorem rowAfter_nil (h : ∀ w ∈ ws, ∃ model attname, w = .refs model attname []) : rowAfter ws model r = r := by
  induction ws generalizing r with
  | nil => rfl
  | cons w ws ih =>
    obtain ⟨model', attname', rfl⟩ := h w List.mem_cons_self
    have hfirst : (Write.refs model' attname' []).applyRow model r = r := by
      unfold Write.applyRow
      by_cases hmodel : model' = model <;> simp [hmodel, changeOf]
    show rowAfter ws model ((Write.refs model' attname' []).applyRow model r) = r
    rw [hfirst]
    exact ih fun w hw => h w (List.mem_cons_of_mem _ hw)

/-- The models whose rows are tied to a resource keep it. -/
theorem resource_unwritten : ∀ model ∈ Model.order :: usageModels, ∀ column ∈ columns,
    column ≠ (model, .inl .resource) := by
  decide

theorem leaves_merged (hmodel : model ∈ Model.order :: usageModels) :
    m.leaves db (m.rowMerged db model r) = m.leaves db r := by
  unfold leaves
  rw [refs_unwritten (resource_unwritten model hmodel)]

theorem movedResource_merged (hjournal : x.journal = m.writes db) (hmodel : model ∈ Model.order :: usageModels) :
    movedResource x (m.rowMerged db model r) = (m.leaves db r).isSome := by
  rw [movedResource_eq hjournal]
  exact congrArg Option.isSome (leaves_merged hmodel)

theorem usageEntry : ∀ model ∈ usageModels, ∃ e ∈ relations, e.model = model ∧ e.attname = .component ∧
    e.related = .component ∧ e.uniqueWith = uniqueAttnames model ∧ e.uniqueWith ≠ [] := by
  decide

/-- The component of a usage row after the undo is the one before the merge. -/
theorem usageComponent_merged (hexecute : m.execute db = .ok x) (h : m.Restorable db) (hmodel : model ∈ usageModels)
    (hr : r ∈ (db.table model).rows) (hmoved : (m.leaves db r).isSome = true) :
    m.usageComponent x model (m.rowMerged db model r) = r.refs .component := by
  obtain ⟨-, hjournal, -⟩ := execute_eq_ok hexecute
  obtain ⟨e, he, rfl, hattname, -, -, -⟩ := usageEntry model hmodel
  have hid : (m.rowMerged db e.model r).id = r.id := id_rowMerged
  unfold usageComponent
  rw [hid]
  by_cases hmove : ∃ a, (r, a) ∈ (m.planRelation db e).1
  · obtain ⟨a, ha⟩ := hmove
    obtain ⟨-, v, -, href, -⟩ := moved_reference ha
    have hchange := changeOf_moved hjournal he ha
    rw [hattname] at hchange href
    rw [hchange, href]
    rfl
  · have hkept : ∀ a, (r, a) ∉ (m.planRelation db e).1 := fun a ha => hmove ⟨a, ha⟩
    have hchange := changeOf_kept hjournal he hr hkept
    have hrefs := refs_execute_kept (covered he) hr hkept
    rw [hattname] at hchange hrefs
    rw [hchange]
    simp only
    rw [hrefs]
    cases href : r.refs .component with
    | none => rfl
    | some k =>
      have hnot : (m.targetComponents.map (·.id)).contains k = false := by
        rw [Bool.eq_false_iff]
        intro hcontains
        obtain ⟨k', hk', rfl⟩ := List.mem_map.mp (List.contains_iff_mem.mp hcontains)
        exact h.usage e.model hmodel r hr hmoved k' hk' href
      rw [Option.bind_some, hnot]
      rfl

theorem usageRows_merged (hexecute : m.execute db = .ok x) (hmodel : model ∈ usageModels) {r' : Row}
    (h : r' ∈ m.usageRows x x.db model) : ∃ r ∈ (db.table model).rows, r' = m.rowMerged db model r ∧
      (m.leaves db r).isSome = true ∧ (r.refs .component).isSome = true := by
  obtain ⟨-, hjournal, hrows⟩ := execute_eq_ok hexecute
  obtain ⟨hmem, hrow⟩ := List.mem_filter.mp h
  rw [hrows] at hmem
  obtain ⟨r, hr, rfl⟩ := List.mem_map.mp hmem
  obtain ⟨hmoved, hcomponent⟩ := Bool.and_eq_true_iff.mp hrow
  rw [movedResource_merged hjournal (List.mem_cons_of_mem _ hmodel)] at hmoved
  refine ⟨r, hr, rfl, hmoved, ?_⟩
  obtain ⟨e, he, rfl, hattname, -, -, -⟩ := usageEntry model hmodel
  obtain ⟨k, hk, -⟩ := (Option.any_eq_true ..).mp hcomponent
  by_cases hmove : ∃ a, (r, a) ∈ (m.planRelation db e).1
  · obtain ⟨a, ha⟩ := hmove
    obtain ⟨-, v, -, href, -⟩ := moved_reference ha
    rw [← hattname, href]
    rfl
  · have hrefs := refs_execute_kept (covered he) hr fun a ha => hmove ⟨a, ha⟩
    rw [hattname] at hrefs
    rw [← hrefs, hk]
    rfl

/-- Nothing refuses to move usage rows back, and nothing moves. -/
theorem usage_merged (hunique : db.Unique) (hexecute : m.execute db = .ok x) (h : m.Restorable db)
    (hmodel : model ∈ usageModels) :
    m.checkUsageMoves x x.db model = [] ∧ ∃ attname, m.usageMoves x x.db model = .refs model attname [] := by
  obtain ⟨-, hjournal, hrows⟩ := execute_eq_ok hexecute
  constructor
  · have hmappable : ((m.usageRows x x.db model).filter fun r => (m.usageComponent x model r).isNone) = [] := by
      refine List.filter_eq_nil_iff.mpr fun r' hr' hnone => ?_
      obtain ⟨r, hr, rfl, hmoved, hsome⟩ := usageRows_merged hexecute hmodel hr'
      rw [usageComponent_merged hexecute h hmodel hr hmoved, ← Option.not_isSome, hsome] at hnone
      cases hnone
    have hkeys : ((m.usageRows x x.db model).filterMap fun r =>
        (m.usageComponent x model r).map fun k => (k, (uniqueAttnames model).map r.refs)).Nodup := by
      have hnodup : (m.usageRows x x.db model).Nodup := (x.db.table model).nodup.of_map.filter _
      obtain ⟨e, he, rfl, hattname, -, huniqueWith, hne⟩ := usageEntry model hmodel
      refine List.pairwise_filterMap.mpr (hnodup.imp_of_mem fun {r₁ r₂} hr₁ hr₂ hdistinct k₁ hk₁ k₂ hk₂ heq => ?_)
      obtain ⟨r, hr, rfl, hmoved, hsome⟩ := usageRows_merged hexecute hmodel hr₁
      obtain ⟨r', hr', rfl, hmoved', -⟩ := usageRows_merged hexecute hmodel hr₂
      rw [usageComponent_merged hexecute h hmodel hr hmoved] at hk₁
      rw [usageComponent_merged hexecute h hmodel hr' hmoved'] at hk₂
      obtain ⟨k, hk, rfl⟩ := Option.map_eq_some_iff.mp hk₁
      obtain ⟨k', hk', rfl⟩ := Option.map_eq_some_iff.mp hk₂
      obtain ⟨rfl, hset⟩ := Prod.mk.inj heq
      rw [← huniqueWith, uniqueWith_merged he, uniqueWith_merged he] at hset
      have hsame : r = r' := by
        refine hunique e he hne r hr r' hr' ?_ ?_ hset
        · rw [hattname, hk]
          rfl
        · rw [hattname, hk, hk']
      exact hdistinct (by rw [hsame])
    unfold checkUsageMoves
    simp only
    rw [hmappable, if_pos hkeys]
    rfl
  · refine ⟨.component, ?_⟩
    unfold usageMoves
    congr 1
    refine List.filterMap_eq_nil_iff.mpr fun r' hr' => ?_
    obtain ⟨hrow, hnew⟩ := List.mem_filter.mp hr'
    obtain ⟨r, hr, rfl, hmoved, -⟩ := usageRows_merged hexecute hmodel hrow
    obtain ⟨e, he, rfl, hattname, -, -, -⟩ := usageEntry model hmodel
    have hkept : ∀ a, (r, a) ∉ (m.planRelation db e).1 := by
      intro a ha
      obtain ⟨-, v, -, href, -⟩ := moved_reference ha
      have hchange := changeOf_moved hjournal he ha
      have hid : (m.rowMerged db e.model r).id = r.id := id_rowMerged
      rw [hattname] at hchange href
      rw [hid, hchange, href] at hnew
      cases hnew
    have hrefs := refs_execute_kept (covered he) hr hkept
    rw [hattname] at hrefs
    rw [usageComponent_merged hexecute h hmodel hr hmoved, hrefs]
    cases r.refs .component with
    | none => rfl
    | some k => simp

theorem order_merged (hr : r ∈ (db.table .order).rows) : (m.rowMerged db .order r).refs .offering =
    (r.refs .offering).map fun o => if m.sourceIds.contains o then m.target.id else o := by
  have hentry : { model := .order, attname := .offering, related := .offering } ∈ relations := by decide
  rw [refs_repointed hentry rfl hr fun _ => offering_mapped]
  refine congrArg (fun f => (r.refs .offering).map f) (funext fun o => ?_)
  show (if m.sourceIds.contains o then some m.target.id else none).getD o = _
  split_ifs <;> rfl

/-- The orders that an undo would move back were on the target before the merge. -/
theorem newOrders_merged (hexecute : m.execute db = .ok x) {r' : Row} : r' ∈ m.newOrders x x.db ↔
    ∃ r ∈ (db.table .order).rows, r' = m.rowMerged db .order r ∧ (m.leaves db r).isSome = true ∧
      r.refs .offering = some m.target.id := by
  obtain ⟨hblockers, hjournal, hrows⟩ := execute_eq_ok hexecute
  obtain ⟨htarget, -, -, -⟩ := blockers_nil hblockers
  have hentry : { model := .order, attname := .offering, related := .offering } ∈ relations := by decide
  have hid : ∀ r, (m.rowMerged db .order r).id = r.id := fun _ => id_rowMerged
  unfold newOrders
  rw [List.mem_filter, hrows]
  constructor
  · rintro ⟨hmem, hrow⟩
    obtain ⟨r, hr, rfl⟩ := List.mem_map.mp hmem
    obtain ⟨hboth, hnew⟩ := Bool.and_eq_true_iff.mp hrow
    obtain ⟨hmoved, hoffering⟩ := Bool.and_eq_true_iff.mp hboth
    rw [movedResource_merged hjournal List.mem_cons_self] at hmoved
    rw [hid, changeOf_offering hjournal hentry rfl rfl hr, Option.isNone_map, Option.isNone_iff_eq_none] at hnew
    have hoffering' := of_decide_eq_true hoffering
    rw [order_merged hr] at hoffering'
    obtain ⟨o, href, ho⟩ := Option.map_eq_some_iff.mp hoffering'
    have hnot : m.sourceIds.contains o = false := by
      rw [Bool.eq_false_iff]
      intro hcontains
      have hsome : (r.refs .offering).filter m.sourceIds.contains = some o :=
        Option.filter_eq_some_iff.mpr ⟨href, hcontains⟩
      have hnone : (r.refs .offering).filter m.sourceIds.contains = none := hnew
      rw [hsome] at hnone
      cases hnone
    rw [hnot] at ho
    exact ⟨r, hr, rfl, hmoved, by rw [href, show o = m.target.id from ho]⟩
  · rintro ⟨r, hr, rfl, hmoved, href⟩
    have hnot : ¬ m.sourceIds.contains m.target.id = true := fun hcontains =>
      htarget (List.contains_iff_mem.mp hcontains)
    refine ⟨List.mem_map_of_mem hr, Bool.and_eq_true_iff.mpr ⟨Bool.and_eq_true_iff.mpr ⟨?_, ?_⟩, ?_⟩⟩
    · rw [movedResource_merged hjournal List.mem_cons_self]
      exact hmoved
    · refine decide_eq_true ?_
      rw [order_merged hr, href, Option.map_some, if_neg hnot]
    · rw [hid, changeOf_offering hjournal hentry rfl rfl hr, Option.isNone_map, Option.isNone_iff_eq_none]
      show (r.refs .offering).filter m.sourceIds.contains = none
      rw [href, Option.filter_some, if_neg hnot]

theorem newOrders_nil (hexecute : m.execute db = .ok x) (h : m.Restorable db) : m.newOrders x x.db = [] := by
  refine List.eq_nil_iff_forall_not_mem.mpr fun r' hr' => ?_
  obtain ⟨r, hr, -, hmoved, href⟩ := (newOrders_merged hexecute).mp hr'
  exact h.orders r hr hmoved href

theorem undoBlockers_nil : m.undoBlockers x db = [] ↔ checkFkDrift x db = [] ∧ checkUndoneOrders x db = [] ∧
    (∀ model ∈ usageModels, m.checkUsageMoves x db model = []) ∧ m.checkOrderMoves x db = [] := by
  unfold undoBlockers
  rw [List.append_eq_nil_iff, List.append_eq_nil_iff, List.append_eq_nil_iff, List.flatMap_eq_nil_iff, and_assoc,
    and_assoc]

/-- The writes of the orders that an undo moves. -/
def orderWrites (m : Merge c) (x : Executed) (db : Db) : List Write :=
  [m.orderMoves x db .offering fun r => (r.refs .resource).bind (resourceSource x),
    m.orderMoves x db .plan fun r => (planBack x r .plan).toOption.join,
    m.orderMoves x db .oldPlan fun r => (planBack x r .oldPlan).toOption.join]

theorem orderWrites_columns : (m.orderWrites x db).map Write.column =
    [(.order, .inl .offering), (.order, .inl .plan), (.order, .inl .oldPlan)] := rfl

theorem usageMoves_columns : (usageModels.map (m.usageMoves x db)).map Write.column =
    usageModels.map fun model => (model, .inl .component) := rfl

theorem undoRefs_eq : m.undoRefs x db =
    (fkChanges x).map takenBack ++ usageModels.map (m.usageMoves x db) ++ m.orderWrites x db := rfl

/-- Nothing has drifted right after a merge. -/
theorem drifted_merged (hexecute : m.execute db = .ok x) {w : Write} (hw : w ∈ m.writes db) : drifted x.db w = [] := by
  obtain ⟨-, -, hrows⟩ := execute_eq_ok hexecute
  cases w with
  | docs model' field' rows => rfl
  | refs model' attname' rows =>
    unfold drifted
    rw [List.map_eq_nil_iff, List.filter_eq_nil_iff]
    intro change hchange
    obtain ⟨r, hr, hid, -⟩ := (planned hw).present change hchange
    have hget : (x.db.table model').get? change.1 = some (m.rowMerged db model' r) := by
      refine Table.get?_eq_some.mpr ⟨?_, id_rowMerged.trans hid⟩
      rw [hrows]
      exact List.mem_map_of_mem hr
    have hchanged : changeOf rows r.id = some change.2 := (changeOf_eq_some (planned hw).nodup).mpr (hid ▸ hchange)
    have hnew : ((x.db.table model').get? change.1).bind (·.refs attname') = some change.2.2 := by
      rw [hget, Option.bind_some, refs_merged hw, hchanged]
      rfl
    simpa using hnew

theorem fkChanges_writes (hjournal : x.journal = m.writes db) {w : Write} (hw : w ∈ fkChanges x) : w ∈ m.writes db :=
  hjournal ▸ List.mem_of_mem_filter hw

/-- An undo at once is not refused. -/
theorem undoBlockers_merged (hunique : db.Unique) (hexecute : m.execute db = .ok x) (h : m.Restorable db) :
    m.undoBlockers x x.db = [] := by
  obtain ⟨-, hjournal, hrows⟩ := execute_eq_ok hexecute
  have hdrift : checkFkDrift x x.db = [] := by
    have hmoved : ((fkChanges x).filter ofResource).flatMap (drifted x.db) = [] :=
      List.flatMap_eq_nil_iff.mpr fun w hw =>
        drifted_merged hexecute (fkChanges_writes hjournal (List.mem_of_mem_filter hw))
    have hothers : ((fkChanges x).filter fun w => !ofResource w && !(drifted x.db w).isEmpty) = [] := by
      refine List.filter_eq_nil_iff.mpr fun w hw hdrifted => ?_
      rw [drifted_merged hexecute (fkChanges_writes hjournal hw)] at hdrifted
      simp at hdrifted
    unfold checkFkDrift
    simp only
    rw [hmoved, hothers]
    rfl
  have hpending : checkUndoneOrders x x.db = [] := by
    have hnone : ((x.db.table .order).rows.filter fun r => movedResource x r && r.isOpen) = [] := by
      refine List.filter_eq_nil_iff.mpr fun r' hr' hrow => ?_
      rw [hrows] at hr'
      obtain ⟨r, hr, rfl⟩ := List.mem_map.mp hr'
      obtain ⟨hmoved, hopen⟩ := Bool.and_eq_true_iff.mp hrow
      rw [movedResource_merged hjournal List.mem_cons_self] at hmoved
      rw [isOpen_rowMerged, h.settled r hr hmoved] at hopen
      cases hopen
    unfold checkUndoneOrders
    simp only
    rw [hnone]
    rfl
  have horders : m.checkOrderMoves x x.db = [] := by
    unfold checkOrderMoves
    rw [newOrders_nil hexecute h]
    rfl
  exact undoBlockers_nil.mpr ⟨hdrift, hpending, fun _ hmodel => (usage_merged hunique hexecute h hmodel).1, horders⟩

/-- The foreign keys of an undo at once are the journalled ones. -/
theorem rowAfter_undoRefs (hunique : db.Unique) (hexecute : m.execute db = .ok x) (h : m.Restorable db) :
    rowAfter (m.undoRefs x x.db) model r = rowAfter ((fkChanges x).map takenBack) model r := by
  have hmoves : ∀ attname back, m.orderMoves x x.db attname back = .refs .order attname [] := by
    intro attname back
    unfold orderMoves
    rw [newOrders_nil hexecute h]
    rfl
  rw [undoRefs_eq, rowAfter_append, rowAfter_append, rowAfter_nil, rowAfter_nil]
  · intro w hw
    obtain ⟨model', hmodel', rfl⟩ := List.mem_map.mp hw
    obtain ⟨attname', hempty⟩ := (usage_merged hunique hexecute h hmodel').2
    exact ⟨model', attname', hempty⟩
  · intro w hw
    unfold orderWrites at hw
    simp only [List.mem_cons, List.not_mem_nil, or_false] at hw
    rcases hw with rfl | rfl | rfl
    · exact ⟨.order, .offering, hmoves _ _⟩
    · exact ⟨.order, .plan, hmoves _ _⟩
    · exact ⟨.order, .oldPlan, hmoves _ _⟩

theorem itemWrites_models (h : model ≠ .invoiceItem) (column : Attname ⊕ JsonField) :
    (model, column) ∉ (m.itemWrites x db).map Write.column := by
  intro hmem
  simp only [itemWrites, itemComponents, itemDetails, Write.column, List.map_cons, List.map_nil, List.mem_cons,
    List.not_mem_nil, or_false, Prod.mk.injEq] at hmem
  rcases hmem with ⟨heq, -⟩ | ⟨heq, -⟩ | ⟨heq, -⟩ | ⟨heq, -⟩ <;> exact h heq

/-- The columns of items that a merge writes. -/
theorem item_columns : ∀ column ∈ columns, column.1 = .invoiceItem →
    column.2 = .inl .planComponent ∨ column.2 = .inr .details := by
  decide

/-- The documents that a merge writes. -/
theorem docs_columns : ∀ column ∈ columns, (∃ a, column.2 = .inl a) ∨
    (∃ j ∈ jsonEntries, column = (j.model, .inr j.field)) ∨ column = (.invoiceItem, .inr .details) := by
  intro column hcolumn
  rcases List.mem_append.mp hcolumn with hentry | hitem
  · obtain ⟨entry, hmem, rfl⟩ := List.mem_map.mp hentry
    cases entry with
    | relation e => exact Or.inl ⟨e.attname, rfl⟩
    | jsonKeys j => exact Or.inr (Or.inl ⟨j, List.mem_filterMap.mpr ⟨_, hmem, rfl⟩, rfl⟩)
  · simp only [List.mem_cons, List.not_mem_nil, or_false] at hitem
    rcases hitem with rfl | rfl | rfl
    · exact Or.inl ⟨_, rfl⟩
    · exact Or.inr (Or.inr rfl)
    · exact Or.inl ⟨_, rfl⟩

/-- **A row comes back**, column by column. -/
theorem row_roundTrip (hunique : db.Unique) (hexecute : m.execute db = .ok x) (h : m.Restorable db)
    (hr : r ∈ (db.table model).rows) : rowAfter (m.undoWrites x x.db) model (m.rowMerged db model r) = r := by
  obtain ⟨-, hjournal, -⟩ := execute_eq_ok hexecute
  refine eq_of_columns (id_rowAfter.trans id_rowMerged) (fun a => ?_) (fun f => ?_)
    (isOpen_rowAfter.trans isOpen_rowMerged) (amount_rowAfter.trans amount_rowAfter)
  · by_cases hitem : model = .invoiceItem
    · subst hitem
      by_cases ha : a = .planComponent
      · rw [ha]
        exact (item_roundTrip hexecute hr).2
      · rw [item_undo_ne ha]
        refine refs_unwritten fun column hcolumn heq => ?_
        rcases item_columns column hcolumn (by rw [heq]) with hpc | hdetails
        · rw [heq] at hpc
          exact ha (Sum.inl.inj hpc)
        · rw [heq] at hdetails
          cases hdetails
    · have hjson : (model, .inl a) ∉ (jsonEntries.map (m.undoJson x x.db)).map Write.column := by
        rw [undoJson_columns]
        intro hmem
        obtain ⟨j, -, heq⟩ := List.mem_map.mp hmem
        cases (Prod.mk.inj heq).2
      unfold undoWrites
      rw [rowAfter_append, rowAfter_append, refs_rowAfter_ne (itemWrites_models hitem _), refs_rowAfter_ne hjson,
        rowAfter_undoRefs hunique hexecute h]
      exact refs_takenBack hjournal hitem hr
  · by_cases hentry : ∃ j ∈ jsonEntries, j.model = model ∧ j.field = f
    · obtain ⟨j, hj, rfl, rfl⟩ := hentry
      exact (docs_roundTrip hexecute hj hr).mpr (h.documents j hj r hr)
    · by_cases hdetails : model = .invoiceItem ∧ f = .details
      · obtain ⟨rfl, rfl⟩ := hdetails
        exact (item_roundTrip hexecute hr).1
      · have hjson : (model, .inr f) ∉ (jsonEntries.map (m.undoJson x x.db)).map Write.column := by
          rw [undoJson_columns]
          intro hmem
          obtain ⟨j, hj, heq⟩ := List.mem_map.mp hmem
          obtain ⟨hmodel, hfield⟩ := Prod.mk.inj heq
          exact hentry ⟨j, hj, hmodel, Sum.inr.inj hfield⟩
        have hitems : (model, .inr f) ∉ (m.itemWrites x x.db).map Write.column := by
          intro hmem
          simp only [itemWrites, itemComponents, itemDetails, Write.column, List.map_cons, List.map_nil, List.mem_cons,
            List.not_mem_nil, or_false, Prod.mk.injEq, Sum.inr.injEq, reduceCtorEq, and_false, false_or] at hmem
          rcases hmem with hmem | hmem <;> exact hdetails hmem
        have hwritten : (model, .inr f) ∉ columns := by
          intro hmem
          rcases docs_columns _ hmem with ⟨a, ha⟩ | ⟨j, hj, heq⟩ | heq
          · cases ha
          · obtain ⟨hmodel, hfield⟩ := Prod.mk.inj heq
            exact hentry ⟨j, hj, hmodel.symm, (Sum.inr.inj hfield).symm⟩
          · obtain ⟨hmodel, hfield⟩ := Prod.mk.inj heq
            exact hdetails ⟨hmodel, Sum.inr.inj hfield⟩
        unfold undoWrites
        rw [rowAfter_append, rowAfter_append, docs_rowAfter_ne hitems, docs_rowAfter_ne hjson,
          docs_rowAfter_ne undoRefs_columns]
        exact docs_execute_ne hwritten

/-! ### What a restoring undo needs -/

/-- An undo at once that restores leaves every row as it was. -/
theorem row_of_undo (hexecute : m.execute db = .ok x) (hundo : m.undo x x.db = .ok db) :
    m.undoBlockers x x.db = [] ∧ ∀ model, ∀ r ∈ (db.table model).rows,
      rowAfter (m.undoWrites x x.db) model (m.rowMerged db model r) = r := by
  obtain ⟨-, -, hrows⟩ := execute_eq_ok hexecute
  unfold undo at hundo
  split_ifs at hundo with hblockers
  refine ⟨List.isEmpty_iff.mp hblockers, fun model r hr => ?_⟩
  have htable : (((m.undoWrites x x.db).foldl Db.apply x.db).table model).rows = (db.table model).rows := by
    rw [Except.ok.inj hundo]
  rw [rows_foldl_apply, hrows, List.map_map] at htable
  exact List.map_inj_left.mp (htable.trans (List.map_id _).symm) r hr

/-- The foreign keys of a row that is no item are written with the foreign keys. -/
theorem refs_undo {later : Db} (hmodel : model ≠ .invoiceItem) :
    (rowAfter (m.undoWrites x later) model r).refs attname = (rowAfter (m.undoRefs x later) model r).refs attname := by
  have hjson : (model, .inl attname) ∉ (jsonEntries.map (m.undoJson x later)).map Write.column := by
    rw [undoJson_columns]
    intro hmem
    obtain ⟨j, -, heq⟩ := List.mem_map.mp hmem
    cases (Prod.mk.inj heq).2
  unfold undoWrites
  rw [rowAfter_append, rowAfter_append, refs_rowAfter_ne (itemWrites_models hmodel _), refs_rowAfter_ne hjson]

theorem movedFrom_source {resource s : ℕ} (h : m.movedFrom db resource = some s) : s ∈ m.sourceIds := by
  obtain ⟨r, -, hoffering⟩ := Option.bind_eq_some_iff.mp h
  exact List.contains_iff_mem.mp (Option.filter_eq_some_iff.mp hoffering).2

theorem leaves_source {s : ℕ} (h : m.leaves db r = some s) : s ∈ m.sourceIds := by
  obtain ⟨resource, -, hmoved⟩ := Option.bind_eq_some_iff.mp h
  exact movedFrom_source hmoved

/-- A component is not both of the target and of a source. -/
theorem component_apart (htarget : m.target.id ∉ m.sourceIds) {k k' : OfferingComponent} (hk : k ∈ m.targetComponents)
    (hk' : k' ∈ m.sourceComponents) : k'.id ≠ k.id := by
  intro heq
  obtain ⟨hmem, hoffering⟩ := List.mem_filter.mp hk
  obtain ⟨hmem', hsource⟩ := List.mem_filter.mp hk'
  obtain rfl := c.components.eq_of_key_eq hmem' hmem heq
  rw [of_decide_eq_true hoffering] at hsource
  exact htarget (List.contains_iff_mem.mp hsource)

/-- A moved order goes to the source that its resource left. -/
theorem newOrder_undone {s : ℕ} (hr : r ∈ m.newOrders x db) (hmovable : orderMovable x r = true)
    (hsource : (r.refs .resource).bind (resourceSource x) = some s) :
    (rowAfter (m.undoRefs x db) .order r).refs .offering = some s := by
  obtain ⟨hmem, hrow⟩ := List.mem_filter.mp hr
  have hoffering : r.refs .offering = some m.target.id :=
    of_decide_eq_true (Bool.and_eq_true_iff.mp (Bool.and_eq_true_iff.mp hrow).1).2
  obtain ⟨earlier, hearlier⟩ : ∃ ws, ws = (fkChanges x).map takenBack ++ usageModels.map (m.usageMoves x db) := ⟨_, rfl⟩
  have hid : (rowAfter earlier .order r).id = r.id := id_rowAfter
  have hmoved : r ∈ (m.newOrders x db).filter (orderMovable x) := List.mem_filter.mpr ⟨hr, hmovable⟩
  have hnodup : (((m.newOrders x db).filter (orderMovable x)).map Row.id).Nodup :=
    (db.table .order).nodup.sublist ((List.filter_sublist.trans List.filter_sublist).map _)
  have hcolumns : ((m.orderWrites x db).map Write.column).Nodup := by
    rw [orderWrites_columns]
    decide
  rw [undoRefs_eq, ← hearlier, rowAfter_append]
  refine (refs_rowAfter hcolumns List.mem_cons_self).trans ?_
  rw [hid, changeOf_filterMap (x := r) hnodup (fun r y hy => ?_) hmoved, hoffering]
  · simp only [hsource]
    rfl
  · obtain ⟨old, -, hy⟩ := Option.bind_eq_some_iff.mp hy
    obtain ⟨new, -, rfl⟩ := Option.map_eq_some_iff.mp hy
    rfl

/-- A new usage row goes to the component that its name had in the source. -/
theorem usageRow_undone {k k' : ℕ} (hmodel : model ∈ usageModels) (hr : r ∈ m.usageRows x db model)
    (hnew : changeOf (journalRefs x.journal model .component) r.id = none) (hk : r.refs .component = some k)
    (hk' : m.usageComponent x model r = some k') (hne : k' ≠ k) :
    (rowAfter (m.undoRefs x db) model r).refs .component = some k' := by
  obtain ⟨earlier, hearlier⟩ : ∃ ws, ws = (fkChanges x).map takenBack := ⟨_, rfl⟩
  have hid : (rowAfter earlier model r).id = r.id := id_rowAfter
  have hmoved : r ∈ (m.usageRows x db model).filter fun r =>
      (changeOf (journalRefs x.journal model .component) r.id).isNone :=
    List.mem_filter.mpr ⟨hr, by rw [hnew]; rfl⟩
  have hnodup : (((m.usageRows x db model).filter fun r =>
      (changeOf (journalRefs x.journal model .component) r.id).isNone).map Row.id).Nodup :=
    (db.table model).nodup.sublist ((List.filter_sublist.trans List.filter_sublist).map _)
  have hcolumns : ((usageModels.map (m.usageMoves x db)).map Write.column).Nodup := by
    rw [usageMoves_columns]
    decide
  have horders : (model, .inl .component) ∉ (m.orderWrites x db).map Write.column := by
    rw [orderWrites_columns]
    simp
  rw [undoRefs_eq, ← hearlier, rowAfter_append, rowAfter_append, refs_rowAfter_ne horders]
  refine (refs_rowAfter hcolumns (List.mem_map_of_mem hmodel)).trans ?_
  rw [hid, changeOf_filterMap (x := r) hnodup (fun r y hy => ?_) hmoved, hk, hk']
  · simp [hne]
  · obtain ⟨old, -, hy⟩ := Option.bind_eq_some_iff.mp hy
    obtain ⟨new, -, rfl⟩ := Option.map_eq_some_iff.mp hy
    rfl

/-- An order that was on the target before the merge would be moved off it. -/
theorem orders_of_undo (hexecute : m.execute db = .ok x) (hundo : m.undo x x.db = .ok db)
    (hr : r ∈ (db.table .order).rows) (hmoved : (m.leaves db r).isSome = true) :
    r.refs .offering ≠ some m.target.id := by
  intro hoffering
  obtain ⟨hblockers, hjournal, -⟩ := execute_eq_ok hexecute
  obtain ⟨htarget, -, -, -⟩ := blockers_nil hblockers
  obtain ⟨hallowed, hrows⟩ := row_of_undo hexecute hundo
  have hnew : m.rowMerged db .order r ∈ m.newOrders x x.db :=
    (newOrders_merged hexecute).mpr ⟨r, hr, rfl, hmoved, hoffering⟩
  obtain ⟨s, hs⟩ := Option.isSome_iff_exists.mp hmoved
  have hmovable : orderMovable x (m.rowMerged db .order r) = true := by
    obtain ⟨-, -, -, horders⟩ := undoBlockers_nil.mp hallowed
    unfold checkOrderMoves at horders
    simp only [List.isEmpty_iff] at horders
    split_ifs at horders with hnone
    have hnot := List.filter_eq_nil_iff.mp hnone _ hnew
    simpa using hnot
  have hsource : ((m.rowMerged db .order r).refs .resource).bind (resourceSource x) = some s := by
    rw [resourceSource_movedFrom hjournal]
    exact (leaves_merged List.mem_cons_self).trans hs
  have hundone := newOrder_undone hnew hmovable hsource
  rw [← refs_undo (by decide), hrows .order r hr, hoffering] at hundone
  exact htarget (Option.some.inj hundone ▸ leaves_source hs)

/-- A usage row that was on a component of the target before the merge would be moved off it. -/
theorem usage_of_undo (hexecute : m.execute db = .ok x) (hundo : m.undo x x.db = .ok db) (hmodel : model ∈ usageModels)
    (hr : r ∈ (db.table model).rows) (hmoved : (m.leaves db r).isSome = true) {k : OfferingComponent}
    (hk : k ∈ m.targetComponents) : r.refs .component ≠ some k.id := by
  intro hcomponent
  obtain ⟨hblockers, hjournal, hmerged⟩ := execute_eq_ok hexecute
  obtain ⟨htarget, -, -, -⟩ := blockers_nil hblockers
  obtain ⟨hallowed, hrows⟩ := row_of_undo hexecute hundo
  obtain ⟨s, hs⟩ := Option.isSome_iff_exists.mp hmoved
  obtain ⟨e, he, rfl, hattname, hrelated, -, -⟩ := usageEntry model hmodel
  have hid : (m.rowMerged db e.model r).id = r.id := id_rowMerged
  have hkept : ∀ a, (r, a) ∉ (m.planRelation db e).1 := by
    intro a ha
    obtain ⟨-, v, hv, href, -⟩ := moved_reference ha
    rw [hrelated] at hv
    obtain ⟨k', hk', rfl⟩ := List.mem_map.mp hv
    rw [hattname, hcomponent] at href
    exact component_apart htarget hk hk' (Option.some.inj href).symm
  have hchange := changeOf_kept hjournal he hr hkept
  have hrefs := refs_execute_kept (covered he) hr hkept
  rw [hattname] at hchange hrefs
  rw [hcomponent] at hrefs
  have hcontains : (m.targetComponents.map (·.id)).contains k.id = true :=
    List.contains_iff_mem.mpr (List.mem_map_of_mem hk)
  have hrow : m.rowMerged db e.model r ∈ m.usageRows x x.db e.model := by
    refine List.mem_filter.mpr ⟨?_, Bool.and_eq_true_iff.mpr ⟨?_, ?_⟩⟩
    · rw [hmerged]
      exact List.mem_map_of_mem hr
    · rw [movedResource_merged hjournal (List.mem_cons_of_mem _ hmodel)]
      exact hmoved
    · rw [hrefs, Option.any_some, hcontains]
      rfl
  have hinverse : m.usageComponent x e.model (m.rowMerged db e.model r) = m.inverseComponents s k.id := by
    have hsource : ((m.rowMerged db e.model r).refs .resource).bind (resourceSource x) = some s := by
      rw [resourceSource_movedFrom hjournal]
      exact (leaves_merged (List.mem_cons_of_mem _ hmodel)).trans hs
    unfold usageComponent
    rw [hid, hchange]
    simp only
    rw [hrefs, Option.bind_some, if_pos hcontains, hsource, Option.bind_some]
  have hmappable : (m.usageComponent x e.model (m.rowMerged db e.model r)).isSome = true := by
    obtain ⟨-, -, husage, -⟩ := undoBlockers_nil.mp hallowed
    have hmoves := husage e.model hmodel
    unfold checkUsageMoves at hmoves
    simp only [List.isEmpty_iff, List.append_eq_nil_iff] at hmoves
    obtain ⟨hunmappable, -⟩ := hmoves
    split_ifs at hunmappable with hnone
    have hnot := List.filter_eq_nil_iff.mp hnone _ hrow
    simpa [Option.isSome_iff_ne_none] using hnot
  obtain ⟨k', hk'⟩ := Option.isSome_iff_exists.mp hmappable
  have hne : k' ≠ k.id := by
    obtain ⟨entry, -, hfound⟩ := Option.bind_eq_some_iff.mp (hinverse.symm.trans hk')
    obtain ⟨k'', hfind, rfl⟩ := Option.map_eq_some_iff.mp hfound
    exact component_apart htarget hk (List.mem_of_find?_eq_some hfind)
  have hundone := usageRow_undone hmodel hrow (hid ▸ hchange) hrefs hk' hne
  have hitem : ∀ model ∈ usageModels, model ≠ .invoiceItem := by decide
  rw [← refs_undo (hitem _ hmodel), hrows e.model r hr, hcomponent] at hundone
  exact hne (Option.some.inj hundone).symm

/-- **An undo at once restores exactly what can be restored.** -/
theorem undo_restores_iff (m : Merge c) (db : Db) (x : Executed) (hunique : db.Unique)
    (hexecute : m.execute db = .ok x) : m.undo x x.db = .ok db ↔ m.Restorable db := by
  obtain ⟨-, hjournal, hmerged⟩ := execute_eq_ok hexecute
  constructor
  · intro hundo
    obtain ⟨hallowed, hrows⟩ := row_of_undo hexecute hundo
    refine ⟨fun r hr hmoved => ?_, fun model hmodel r hr hmoved k hk => usage_of_undo hexecute hundo hmodel hr hmoved hk,
      fun r hr hmoved => orders_of_undo hexecute hundo hr hmoved, fun j hj r hr => ?_⟩
    · obtain ⟨-, hpending, -, -⟩ := undoBlockers_nil.mp hallowed
      unfold checkUndoneOrders at hpending
      simp only [List.isEmpty_iff] at hpending
      split_ifs at hpending with hnone
      have hmem : m.rowMerged db .order r ∈ (x.db.table .order).rows := by
        rw [hmerged]
        exact List.mem_map_of_mem hr
      have hnot := List.filter_eq_nil_iff.mp hnone _ hmem
      rw [movedResource_merged hjournal List.mem_cons_self, hmoved, isOpen_rowMerged, Bool.true_and] at hnot
      exact Bool.eq_false_iff.mpr hnot
    · exact (docs_roundTrip hexecute hj hr).mp (congrArg (fun r => r.docs j.field) (hrows j.model r hr))
  · intro h
    have hallowed : m.undoBlockers x x.db = [] := undoBlockers_merged hunique hexecute h
    unfold undo
    rw [hallowed]
    refine congrArg Except.ok ?_
    have htables : ((m.undoWrites x x.db).foldl Db.apply x.db).table = db.table := by
      funext model
      refine Table.ext ?_
      rw [rows_foldl_apply, hmerged, List.map_map]
      exact (List.map_inj_left.mpr fun r hr => row_roundTrip hunique hexecute h hr).trans (List.map_id _)
    cases db
    exact congrArg Db.mk htables
end Restores

end Merge

theorem limited_single (offering : ℕ) (limits : Document Key Value) (model : Model) :
    ∀ r ∈ ((limited offering limits).table model).rows, ∀ r' ∈ ((limited offering limits).table model).rows, r = r' := by
  intro r hr r' hr'
  cases model <;> first
    | exact absurd hr List.not_mem_nil
    | rw [List.mem_singleton.mp hr, List.mem_singleton.mp hr']

theorem limited_unique (offering : ℕ) (limits : Document Key Value) : (limited offering limits).Unique :=
  fun _ _ _ r hr r' hr' _ _ _ => limited_single offering limits _ r hr r' hr'

/-- The limits of a resource of the source come back. -/
theorem limits_restored : cpuToCores.undo coresExecuted coresExecuted.db = .ok (limited 2 (four cpu)) := by
  refine (Merge.undo_restores_iff cpuToCores (limited 2 (four cpu)) coresExecuted (limited_unique 2 (four cpu))
    cpuToCores_executed).mpr ⟨fun r hr => ?_, fun model hmodel r hr => ?_, fun r hr => ?_, fun j hj r hr s d hs hd => ?_⟩
  · exact absurd hr List.not_mem_nil
  · have hempty : ∀ model ∈ usageModels, (((limited 2 (four cpu)).table model).rows) = [] := by
      intro model hmodel
      cases model <;> first
        | rfl
        | exact absurd hmodel (by decide)
    rw [hempty model hmodel] at hr
    exact absurd hr List.not_mem_nil
  · exact absurd hr List.not_mem_nil
  · have hresource : j.model = .resource := by
      cases hmodel : j.model <;> first
        | rfl
        | (rw [hmodel] at hr; exact absurd hr List.not_mem_nil)
    have hentries : ∀ j ∈ jsonEntries, j.model = .resource → j.field = .limits → j = Merge.resourceEntry .limits := by
      decide
    rw [hresource] at hr
    obtain rfl := List.mem_singleton.mp hr
    have hfield : j.field = .limits := by
      dsimp only at hd
      split_ifs at hd with hfield
      exact hfield
    obtain rfl := hentries j hj hresource hfield
    obtain rfl : 2 = s := Option.some.inj hs
    obtain rfl : four cpu = d := Column.object.inj hd
    decide

/-- Limits under the name of a component of the target are renamed by the undo alone. -/
theorem limits_renamed : ¬ ∀ (c : Catalogue) (m : Merge c) (db : Db) (x : Merge.Executed), db.Unique →
    m.execute db = .ok x → m.undo x x.db = .ok db := by
  intro h
  have hruns : (cpuToCores.blockers (limited 2 (four cores))).isEmpty = true := by decide
  have hexecute := cpuToCores.execute_eq (limited 2 (four cores)) hruns
  obtain ⟨-, hrows⟩ := Merge.row_of_undo hexecute (h _ _ _ _ (limited_unique 2 (four cores)) hexecute)
  have hentry : Merge.resourceEntry .limits ∈ jsonEntries := by decide
  have hrow := hrows .resource _ List.mem_cons_self
  have hback := (Merge.docs_roundTrip hexecute hentry List.mem_cons_self).mp
    (congrArg (fun r => r.docs .limits) hrow) 2 (four cores) rfl rfl
  exact absurd hback (by decide)

end Waldur.OfferingMerge
