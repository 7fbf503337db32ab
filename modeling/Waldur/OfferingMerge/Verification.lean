import Mathlib
import Waldur.OfferingMerge.Remains

/-!
# OfferingMerge.Verification — the checks after a merge

`_Verification` counts and adds up before the writes, and compares after them; `_check_references` looks for what the
moved resources should no longer refer to.  Every check but one holds of any merge that runs.  An invoice item is
rewritten for the one source that its resource leaves and checked for all of them: `verify_iff`.
-/

namespace Waldur.OfferingMerge

open Documents Document PythonText Relational Repointing

/-! ## Captures -/

section Captures

variable (db : Db)

/-- `_resource_counts`. -/
def resourceCounts (offering : ℕ) : ℕ := (db.table .resource).rows.countP fun r => r.refs .offering = some offering

/-- `invoice.total`. -/
def invoiceTotal (invoice : ℕ) : ℚ :=
  (((db.table .invoiceItem).rows.filter fun r => r.refs .invoice = some invoice).map (·.amount)).sum

/-- `_invoice_totals`: of the invoices of a month that can still change. -/
def invoiceTotals (customers : List ℕ) (month : ℕ) : List (ℕ × ℚ) :=
  ((db.table .invoice).rows.filter fun r => r.isOpen && r.refs .month = some month).filterMap fun r =>
    ((r.refs .customer).filter customers.contains).map (·, invoiceTotal db r.id)

/-- `_closed_item_hashes`, before hashing. -/
def closedItemHashes (resources : List ℕ) : List (ℕ × Column × Option ℕ) :=
  ((db.table .invoiceItem).rows.filter fun r => (r.refs .resource).any resources.contains && !r.isOpen).map fun r =>
    (r.id, r.docs .details, r.refs .planComponent)

/-- `_offering_roles`: the active roles on an offering; `contentType` is that of offerings. -/
def offeringRoles (contentType offering : ℕ) : ℕ :=
  (db.table .userRole).rows.countP fun r =>
    r.isOpen && r.refs .contentType = some contentType && r.refs .objectId = some offering

/-- The plan periods of a resource that have no end. -/
def openPlanPeriods (resource : ℕ) : ℕ :=
  (db.table .resourcePlanPeriod).rows.countP fun r => r.isOpen && r.refs .resource = some resource

end Captures

/-- `_Verification`: a resource moves from the offering that it leaves to the one that it reaches. -/
structure Verification where
  moves : List (ℕ × ℕ × ℕ)
  offeringIds : List ℕ
  policy : InvoicePolicy
  contentType : ℕ
  month : ℕ
  customerIds : List ℕ
  resourceCounts : ℕ → ℕ
  invoiceTotals : List (ℕ × ℚ)
  closedItems : Option (List (ℕ × Column × Option ℕ))
  roles : ℕ → ℕ

/-- `_Stale`. -/
structure Stale where
  offeringIds : List ℕ
  planIds : ℕ → Bool
  componentIds : ℕ → Bool
  planComponentIds : ℕ → Bool
  offeringUuids : List Uuid
  planUuids : List Uuid
  jsonKeys : ℕ → List Key
  allowed : Model → List ℕ

namespace Verification

/-- `_Verification.__init__`. -/
def capture (db : Db) (moves : List (ℕ × ℕ × ℕ)) (offeringIds : List ℕ) (policy : InvoicePolicy)
    (contentType month : ℕ) : Verification :=
  let resourceIds := moves.map Prod.fst
  let customerIds := ((db.table .resource).rows.filter fun r => resourceIds.contains r.id).filterMap (·.refs .customer)
  { moves := moves, offeringIds := offeringIds, policy := policy, contentType := contentType, month := month,
    customerIds := customerIds, resourceCounts := OfferingMerge.resourceCounts db,
    invoiceTotals := OfferingMerge.invoiceTotals db customerIds month,
    closedItems := if policy = .openMonth then some (closedItemHashes db resourceIds) else none,
    roles := offeringRoles db contentType }

variable (v : Verification) (stale : Stale) (db : Db)

def resourceIds : List ℕ := v.moves.map Prod.fst

/-! ## Checks -/

/-- `_check_resource_counts`. -/
def checkResourceCounts : Bool :=
  v.offeringIds.all fun o =>
    (v.resourceCounts o : ℤ) - v.moves.countP (fun x => x.2.1 = o) + v.moves.countP (fun x => x.2.2 = o) =
      OfferingMerge.resourceCounts db o

/-- `_check_plan_periods`. -/
def checkPlanPeriods : Bool := v.resourceIds.all fun resource => openPlanPeriods db resource ≤ 1

/-- `_check_invoice_totals`. -/
def checkInvoiceTotals : Bool :=
  let after := OfferingMerge.invoiceTotals db v.customerIds v.month
  (v.invoiceTotals ++ after).all fun e => v.invoiceTotals.lookup e.1 = after.lookup e.1

/-- `report`: rows of a model but the ones that may stay. -/
def report (model : Model) (p : Row → Bool) : List ℕ :=
  (((db.table model).rows.filter p).map (·.id)).filter fun pk => !(stale.allowed model).contains pk

/-- A row of a moved resource. -/
def ofMoved (r : Row) : Bool := (r.refs .resource).any v.resourceIds.contains

/-- The keys of a JSON column. -/
def columnKeys : Column → List Key
  | .plain _ => []
  | .object d => d.keys

/-- A resource with a component type that should have been renamed. -/
def staleKeys (r : Row) : Bool :=
  [JsonField.limits, .currentUsages].any fun f => (columnKeys (r.docs f)).any (stale.jsonKeys r.id).contains

/-- An invoice item that names what the merge maps. -/
def staleItem (r : Row) : Bool :=
  let details := match r.docs .details with
    | .object d => d
    | .plain _ => .empty
  (r.refs .planComponent).any stale.planComponentIds ||
    ((planComponentAt details).bind Int.toNat?).any stale.planComponentIds ||
    (uuidAt details offeringUuid).any stale.offeringUuids.contains ||
    (uuidAt details planUuid).any stale.planUuids.contains

/-- `_invoice_items_in_scope`. -/
def inScope (r : Row) : Bool := v.ofMoved r && (decide (v.policy = .allMonths) || r.isOpen)

/-- `_check_references`. -/
def checkReferences : Bool :=
  (report stale db .resource fun r => v.resourceIds.contains r.id &&
    ((r.refs .offering).any stale.offeringIds.contains || (r.refs .plan).any stale.planIds)).isEmpty &&
  (report stale db .resourcePlanPeriod fun r => v.ofMoved r && (r.refs .plan).any stale.planIds).isEmpty &&
  (report stale db .order fun r => v.ofMoved r && ((r.refs .offering).any stale.offeringIds.contains ||
    (r.refs .plan).any stale.planIds || (r.refs .oldPlan).any stale.planIds)).isEmpty &&
  (usageModels.all fun model =>
    (report stale db model fun r => v.ofMoved r && (r.refs .component).any stale.componentIds).isEmpty) &&
  (!(db.table .resource).rows.any fun r => v.resourceIds.contains r.id && staleKeys stale r) &&
  (!(db.table .invoiceItem).rows.any fun r => v.inScope r && staleItem stale r)

/-- `_check_offering_roles`. -/
def checkOfferingRoles : Bool := v.offeringIds.all fun o => offeringRoles db v.contentType o = v.roles o

/-- `_check_closed_items`. -/
def checkClosedItems : Bool :=
  match v.closedItems with
  | none => true
  | some items => items.all fun x => (closedItemHashes db v.resourceIds).lookup x.1 = some x.2

/-- `verify`. -/
def verify : Bool :=
  v.checkResourceCounts db && v.checkPlanPeriods db && v.checkInvoiceTotals db && v.checkReferences stale db &&
    v.checkOfferingRoles db && v.checkClosedItems db

end Verification

variable {c : Catalogue}

namespace Merge

section Definitions

variable (m : Merge c) (db : Db)

/-- A moved resource, with its source and the target. -/
def moveOf (r : Row) : Option (ℕ × ℕ × ℕ) :=
  ((r.refs .offering).filter m.sourceIds.contains).map fun o => (r.id, o, m.target.id)

/-- The moves of a merge. -/
def moves : List (ℕ × ℕ × ℕ) := (db.table .resource).rows.filterMap m.moveOf

/-- What `execute` captures before it writes. -/
def verification (contentType month : ℕ) : Verification :=
  .capture db (m.moves db) (m.sourceIds ++ [m.target.id]) m.invoicePolicy contentType month

/-- The component types of a source that the target does not have and that are renamed. -/
def renamedTypes (source : ℕ) : List Key :=
  (((m.componentTypeMap source).entries.filter fun e => e.1 ≠ e.2).map Prod.fst).filter fun k =>
    !m.targetComponents.any fun k' => k'.type = k

/-- `stale`. -/
def stale : Stale where
  offeringIds := m.sourceIds
  planIds := fun p => (m.planMap p).isSome
  componentIds := fun k => (m.componentMap k).isSome
  planComponentIds := fun pc => (m.planComponentMap pc).isSome
  offeringUuids := m.sources.map (·.uuid)
  planUuids := (m.sourcePlans.filter fun p => (m.planMap p.id).isSome).map (·.uuid)
  jsonKeys := fun resource => (m.movedFrom db resource).elim [] m.renamedTypes
  allowed := fun model => relations.flatMap fun e => if e.model = model then m.leftOnSource db e else []

/-- **An item names the source of its resource**: in the scope of the policy no item of a moved resource names another
source. -/
def NamesOwnSource : Prop :=
  ∀ r ∈ (db.table .invoiceItem).rows, ∀ source d, m.rewriteSource db r = some source → r.docs .details = .object d →
    ∀ s ∈ m.sources, uuidAt d offeringUuid = some s.uuid → s.id = source

end Definitions

variable {m : Merge c} {db after : Db} {e : Relation} {r : Row} {v a o : ℕ} {contentType month : ℕ}

/-! ## What every merge keeps -/

section Kept

/-- What is stored once under a key is found under it. -/
theorem lookup_of_mem {β : Type} {l : List (ℕ × β)} {y : ℕ × β} (h : (l.map Prod.fst).Nodup) (hy : y ∈ l) :
    l.lookup y.1 = some y.2 := by
  induction l with
  | nil => exact absurd hy List.not_mem_nil
  | cons z l ih =>
    obtain ⟨hnew, hnodup⟩ := List.nodup_cons.mp h
    rcases List.mem_cons.mp hy with rfl | hy
    · exact List.lookup_cons_self
    · have hne : (y.1 == z.1) = false := by
        rw [beq_eq_false_iff_ne]
        exact fun heq => hnew (heq ▸ List.mem_map_of_mem hy)
      rw [List.lookup_cons, hne]
      exact ih hnodup hy

theorem nodup_closedItemHashes (resources : List ℕ) : ((closedItemHashes db resources).map Prod.fst).Nodup := by
  unfold closedItemHashes
  rw [List.map_map]
  exact (db.table .invoiceItem).nodup.sublist (List.filter_sublist.map _)

/-- A column that is not among the written ones. -/
theorem refs_unwritten {model : Model} {attname : Attname} (h : ∀ column ∈ columns, column ≠ (model, .inl attname)) :
    (m.rowMerged db model r).refs attname = r.refs attname :=
  refs_execute_ne fun hmem => h _ hmem rfl

theorem isOpen_rowMerged {model : Model} : (m.rowMerged db model r).isOpen = r.isOpen := isOpen_rowAfter

theorem id_rowMerged {model : Model} : (m.rowMerged db model r).id = r.id := id_rowAfter

/-- A reference that no unique set guards is replaced wherever it is mapped. -/
theorem refs_repointed (he : e ∈ relations) (hunique : e.uniqueWith = []) (hr : r ∈ (db.table e.model).rows)
    (hmapped : ∀ v, (m.valueMapFor e.related v).isSome = true → v ∈ m.sourceIdsFor e.related) :
    (m.rowMerged db e.model r).refs e.attname =
      (r.refs e.attname).map fun v => (m.valueMapFor e.related v).getD v := by
  by_cases hmoved : ∃ a, (r, a) ∈ (m.planRelation db e).1
  · obtain ⟨a, ha⟩ := hmoved
    obtain ⟨-, v, -, href, hmap⟩ := moved_reference ha
    rw [refs_execute (covered he) ha, href, Option.map_some, hmap, Option.getD_some]
  · rw [refs_execute_kept (covered he) hr fun a ha => hmoved ⟨a, ha⟩]
    cases href : r.refs e.attname with
    | none => rfl
    | some v =>
      cases hmap : m.valueMapFor e.related v with
      | none => rw [Option.map_some, hmap, Option.getD_none]
      | some a =>
        have hv : v ∈ m.sourceIdsFor e.related := hmapped v (by rw [hmap]; rfl)
        have hnew : (r.refs e.attname).bind (m.valueMapFor e.related) = some a := by rw [href, Option.bind_some, hmap]
        have hcases : (r, a) ∈ (m.planRelation db e).1 ∨ r ∈ (m.planRelation db e).2 :=
          moved_or_left (mem_relationRows.mpr ⟨hr, v, hv, href⟩) hnew
        rcases hcases with hmoved' | hleft
        · exact absurd ⟨a, hmoved'⟩ hmoved
        · have hchecked := (mem_left hleft).1
          rw [hunique] at hchecked
          cases hchecked

theorem offering_mapped : (m.valueMapFor .offering o).isSome = true → o ∈ m.sourceIdsFor .offering := by
  intro h
  have hsource : (if m.sourceIds.contains o then some m.target.id else none).isSome = true := h
  split_ifs at hsource with hcontains
  · exact List.contains_iff_mem.mp hcontains
  · cases hsource

/-- The offering of a resource after a merge. -/
theorem offering_merged (hr : r ∈ (db.table .resource).rows) : (m.rowMerged db .resource r).refs .offering =
    (r.refs .offering).map fun o => if m.sourceIds.contains o then m.target.id else o := by
  have hentry : { model := .resource, attname := .offering, related := .offering } ∈ relations := by decide
  rw [refs_repointed hentry rfl hr fun _ => offering_mapped]
  refine congrArg (fun f => (r.refs .offering).map f) (funext fun o => ?_)
  show (if m.sourceIds.contains o then some m.target.id else none).getD o = _
  split_ifs <;> rfl

/-- Leaving and reaching add up, resource by resource. -/
theorem count_moves (rows : List Row) (g : Row → Row)
    (hg : ∀ r ∈ rows, (g r).refs .offering =
      (r.refs .offering).map fun o => if m.sourceIds.contains o then m.target.id else o) (o : ℕ) :
    (rows.map g).countP (fun r => decide (r.refs .offering = some o)) +
      (rows.filterMap m.moveOf).countP (fun x => decide (x.2.1 = o)) =
    rows.countP (fun r => decide (r.refs .offering = some o)) +
      (rows.filterMap m.moveOf).countP (fun x => decide (x.2.2 = o)) := by
  induction rows with
  | nil => rfl
  | cons r rows ih =>
    have hrest := ih fun r' hr' => hg r' (List.mem_cons_of_mem _ hr')
    have hfirst := hg r List.mem_cons_self
    cases href : r.refs .offering with
    | none =>
      have hmove : m.moveOf r = none := by
        unfold moveOf
        rw [href]
        rfl
      rw [href, Option.map_none] at hfirst
      rw [List.filterMap_cons_none hmove, List.map_cons, List.countP_cons, List.countP_cons, hfirst, href]
      omega
    | some s =>
      rw [href, Option.map_some] at hfirst
      by_cases hsource : m.sourceIds.contains s = true
      · have hmove : m.moveOf r = some (r.id, s, m.target.id) := by
          unfold moveOf
          rw [href, Option.filter_some, if_pos hsource, Option.map_some]
        rw [if_pos hsource] at hfirst
        rw [List.filterMap_cons_some hmove, List.map_cons, List.countP_cons, List.countP_cons, List.countP_cons,
          List.countP_cons, hfirst, href]
        simp only [Option.some.injEq]
        omega
      · have hmove : m.moveOf r = none := by
          unfold moveOf
          rw [href, Option.filter_some, if_neg hsource, Option.map_none]
        rw [if_neg hsource] at hfirst
        rw [List.filterMap_cons_none hmove, List.map_cons, List.countP_cons, List.countP_cons, hfirst, href]
        omega

variable (hrows : ∀ model, (after.table model).rows = (db.table model).rows.map (m.rowMerged db model))

include hrows

theorem resourceCounts_merged (o : ℕ) : (resourceCounts db o : ℤ) - (m.moves db).countP (fun x => x.2.1 = o) +
    (m.moves db).countP (fun x => x.2.2 = o) = resourceCounts after o := by
  have hcount := count_moves (db.table .resource).rows (m.rowMerged db .resource) (fun _ hr => offering_merged hr) o
  have hafter : resourceCounts after o =
      ((db.table .resource).rows.map (m.rowMerged db .resource)).countP fun r => decide (r.refs .offering = some o) := by
    unfold resourceCounts
    rw [hrows]
  have hbefore : resourceCounts db o = (db.table .resource).rows.countP fun r => decide (r.refs .offering = some o) :=
    rfl
  have hmoves : m.moves db = (db.table .resource).rows.filterMap m.moveOf := rfl
  rw [hafter, hbefore, hmoves]
  omega

theorem openPlanPeriods_merged (resource : ℕ) : openPlanPeriods after resource = openPlanPeriods db resource := by
  unfold openPlanPeriods
  rw [hrows, List.countP_map]
  refine List.countP_congr fun r _ => ?_
  rw [Function.comp_apply, isOpen_rowMerged, refs_unwritten (by decide)]

theorem invoiceTotals_merged (customers : List ℕ) : invoiceTotals after customers month = invoiceTotals db customers month := by
  have htotal : ∀ invoice, invoiceTotal after invoice = invoiceTotal db invoice := by
    intro invoice
    unfold invoiceTotal
    rw [hrows, List.filter_map, List.map_map]
    have hfilter : (fun r : Row => decide (r.refs .invoice = some invoice)) ∘ m.rowMerged db .invoiceItem =
        fun r => decide (r.refs .invoice = some invoice) :=
      funext fun r => by rw [Function.comp_apply, refs_unwritten (by decide)]
    rw [hfilter]
    exact congrArg List.sum (List.map_congr_left fun r _ => amount_rowAfter)
  unfold invoiceTotals
  rw [hrows, List.filter_map, List.filterMap_map]
  have hfilter : (fun r : Row => r.isOpen && decide (r.refs .month = some month)) ∘ m.rowMerged db .invoice =
      fun r => r.isOpen && decide (r.refs .month = some month) :=
    funext fun r => by rw [Function.comp_apply, isOpen_rowMerged, refs_unwritten (by decide)]
  rw [hfilter]
  refine List.filterMap_congr fun r _ => ?_
  rw [Function.comp_apply, refs_unwritten (by decide), id_rowMerged, htotal]

theorem offeringRoles_merged (o : ℕ) : offeringRoles after contentType o = offeringRoles db contentType o := by
  unfold offeringRoles
  rw [hrows, List.countP_map]
  refine List.countP_congr fun r _ => ?_
  rw [Function.comp_apply, isOpen_rowMerged, refs_unwritten (by decide), refs_unwritten (by decide)]

/-- Under `open_month` the items of closed invoices are as they were. -/
theorem closedItemHashes_merged (hpolicy : m.invoicePolicy = .openMonth) (resources : List ℕ) :
    closedItemHashes after resources = closedItemHashes db resources := by
  unfold closedItemHashes
  rw [hrows, List.filter_map, List.map_map]
  have hfilter : (fun r : Row => (r.refs .resource).any resources.contains && !r.isOpen) ∘
      m.rowMerged db .invoiceItem = fun r => (r.refs .resource).any resources.contains && !r.isOpen :=
    funext fun r => by rw [Function.comp_apply, isOpen_rowMerged, refs_unwritten (by decide)]
  rw [hfilter]
  refine List.map_congr_left fun r hr => ?_
  obtain ⟨hmem, hclosed⟩ := List.mem_filter.mp hr
  have hscope : m.inScope r = false := by
    unfold inScope
    rw [hpolicy]
    simpa using (Bool.and_eq_true_iff.mp hclosed).2
  have hkept : m.rewriteSource db r = none := by
    unfold rewriteSource
    rw [Option.filter_eq_none_iff]
    intro source _ htrue
    rw [hscope] at htrue
    cases htrue
  rw [Function.comp_apply, id_rowMerged, details_execute hmem, planComponent_execute hmem, hkept]
  rfl

end Kept

/-! ## References -/

section References

theorem plan_mapped (h : (m.valueMapFor .plan v).isSome = true) : v ∈ m.sourceIdsFor .plan := by
  obtain ⟨a, ha⟩ := Option.isSome_iff_exists.mp h
  obtain ⟨p', hp', -⟩ := Option.map_eq_some_iff.mp ha
  obtain ⟨p, hp, -⟩ := Option.bind_eq_some_iff.mp hp'
  have hid : p.id = v := by simpa using List.find?_some hp
  exact hid ▸ List.mem_map_of_mem (List.mem_of_find?_eq_some hp)

theorem component_mapped (h : (m.valueMapFor .component v).isSome = true) : v ∈ m.sourceIdsFor .component := by
  obtain ⟨a, ha⟩ := Option.isSome_iff_exists.mp h
  obtain ⟨k', hk', -⟩ := Option.map_eq_some_iff.mp ha
  obtain ⟨k, hk, -⟩ := Option.bind_eq_some_iff.mp hk'
  have hid : k.id = v := by simpa using List.find?_some hk
  exact hid ▸ List.mem_map_of_mem (List.mem_of_find?_eq_some hk)

theorem related_mapped {related : Related} (h : (m.valueMapFor related v).isSome = true) :
    v ∈ m.sourceIdsFor related := by
  cases related with
  | offering => exact offering_mapped h
  | plan => exact plan_mapped h
  | component => exact component_mapped h

/-- What is mapped is referred to no more, except by rows that may stay. -/
theorem stale_allowed (hblockers : m.blockers db = []) (he : e ∈ relations) (hr : r ∈ (db.table e.model).rows)
    (href : (m.rowMerged db e.model r).refs e.attname = some v)
    (hmapped : (m.valueMapFor e.related v).isSome = true) :
    (m.rowMerged db e.model r).id ∈ (m.stale db).allowed e.model := by
  obtain ⟨htarget, -, -, -⟩ := blockers_nil hblockers
  have hremains : m.Remains e (m.rowMerged db e.model r) := ⟨v, related_mapped hmapped, href⟩
  have hold : r.refs e.attname = some v := by
    rw [← href, refs_execute_kept (covered he) hr fun a => not_moved_of_remains htarget he hremains]
  refine List.mem_flatMap.mpr ⟨e, he, ?_⟩
  rw [if_pos rfl]
  refine reported_of_mapped hblockers he hr (fun v' _ hv' => ?_) hremains
  obtain rfl := Option.some.inj (hold.symm.trans hv')
  exact hmapped

variable {stale : Stale} {model : Model} {p : Row → Bool}

/-- Nothing is reported of a model all of whose rows under `p` may stay. -/
theorem report_isEmpty (hrows : (after.table model).rows = (db.table model).rows.map (m.rowMerged db model))
    (h : ∀ r ∈ (db.table model).rows, p (m.rowMerged db model r) = true →
      (m.rowMerged db model r).id ∈ stale.allowed model) :
    (Verification.report stale after model p).isEmpty = true := by
  rw [List.isEmpty_iff]
  unfold Verification.report
  rw [List.filter_eq_nil_iff]
  intro pk hpk
  obtain ⟨r', hr', rfl⟩ := List.mem_map.mp hpk
  obtain ⟨hmem, hp⟩ := List.mem_filter.mp hr'
  rw [hrows] at hmem
  obtain ⟨r, hr, rfl⟩ := List.mem_map.mp hmem
  rw [Bool.not_eq_true', Bool.not_eq_false]
  exact List.contains_iff_mem.mpr (h r hr hp)

/-- The references of a row to what is mapped. -/
theorem stale_ref (hblockers : m.blockers db = []) (he : e ∈ relations) (hr : r ∈ (db.table e.model).rows)
    (h : ((m.rowMerged db e.model r).refs e.attname).any (fun v => (m.valueMapFor e.related v).isSome) = true) :
    (m.rowMerged db e.model r).id ∈ (m.stale db).allowed e.model := by
  obtain ⟨v, href, hmapped⟩ := (Option.any_eq_true ..).mp h
  exact stale_allowed hblockers he hr href hmapped

/-- A source is mapped to the target. -/
theorem source_mapped {ref : Option ℕ} (h : ref.any m.sourceIds.contains = true) :
    ref.any (fun v => (m.valueMapFor .offering v).isSome) = true := by
  obtain ⟨v, href, hsource⟩ := (Option.any_eq_true ..).mp h
  refine (Option.any_eq_true ..).mpr ⟨v, href, ?_⟩
  show (if m.sourceIds.contains v then some m.target.id else none).isSome = true
  rw [if_pos hsource]
  rfl

/-- The entry of a document of a resource that is keyed by component type. -/
def resourceEntry (f : JsonField) : JsonKeys where
  model := .resource
  field := f
  offeringPath := .offering
  rename := .componentTypes
  resourcePath := .pk

/-- No component type of a moved resource should still be renamed. -/
theorem staleKeys_merged (hr : r ∈ (db.table .resource).rows) :
    Verification.staleKeys (m.stale db) (m.rowMerged db .resource r) = false := by
  have hget : (db.table .resource).get? r.id = some r := Table.get?_eq_some.mpr ⟨hr, rfl⟩
  unfold Verification.staleKeys
  rw [List.any_eq_false]
  intro f hf hstale
  obtain ⟨k, hk, hrenamed⟩ := List.any_eq_true.mp hstale
  have hkey : k ∈ (m.movedFrom db r.id).elim [] m.renamedTypes := by
    rw [id_rowMerged] at hrenamed
    exact List.contains_iff_mem.mp hrenamed
  cases hsource : m.movedFrom db r.id with
  | none =>
    rw [hsource] at hkey
    exact absurd hkey List.not_mem_nil
  | some o =>
    rw [hsource, Option.elim_some] at hkey
    obtain ⟨htype, htarget⟩ := List.mem_filter.mp hkey
    obtain ⟨entry, hentry, rfl⟩ := List.mem_map.mp htype
    obtain ⟨hmem, hne⟩ := List.mem_filter.mp hentry
    have hmap : (m.componentTypeMap o).get? entry.1 = some entry.2 := get?_eq_some.mpr hmem
    have hdocs : ∀ f ∈ [JsonField.limits, .currentUsages], (m.rowMerged db .resource r).docs f =
        renameKeys (r.docs f) (m.componentTypeMap o) := by
      intro f hf
      have hj : CoverageEntry.jsonKeys (resourceEntry f) ∈ mergeCoverage := by
        revert f
        decide
      have hjson : m.jsonSource db (resourceEntry f) r = some o := by
        unfold movedFrom at hsource
        rw [hget, Option.bind_some] at hsource
        obtain ⟨href, hcontains⟩ := Option.filter_eq_some_iff.mp hsource
        refine Option.filter_eq_some_iff.mpr ⟨href, ?_⟩
        rw [hcontains]
        rfl
      refine (docs_execute hj hr).trans ?_
      rw [hjson]
      rfl
    rw [hdocs f hf] at hk
    cases hcolumn : r.docs f with
    | plain l =>
      rw [hcolumn] at hk
      exact absurd hk List.not_mem_nil
    | object d =>
      rw [hcolumn] at hk
      obtain ⟨k', -, hrename⟩ := mem_keys_renameDocument.mp hk
      unfold renamed at hrename
      cases hk' : (m.componentTypeMap o).get? k' with
      | none =>
        rw [hk', Option.getD_none] at hrename
        rw [hrename, hmap] at hk'
        cases hk'
      | some type =>
        rw [hk', Option.getD_some] at hrename
        have hreal := (List.mem_filter.mp (get?_eq_some.mp hk')).2
        obtain ⟨-, hany⟩ := Bool.and_eq_true_iff.mp hreal
        rw [hrename] at hany
        rw [hany] at htarget
        cases htarget

end References

/-! ## Invoice items -/

section Items

/-- A plan component of the target is not mapped. -/
theorem planComponentMap_target (htarget : m.target.id ∉ m.sourceIds) {pc : ℕ} {pc' : PlanComponent}
    (h : m.planComponentMap pc = some pc') : m.planComponentMap pc'.id = none := by
  obtain ⟨old, -, hplan⟩ := Option.bind_eq_some_iff.mp h
  obtain ⟨plan, hmapped, hcomponent⟩ := Option.bind_eq_some_iff.mp hplan
  obtain ⟨component, -, hfind⟩ := Option.bind_eq_some_iff.mp hcomponent
  have hmem : pc' ∈ c.planComponents.rows := List.mem_of_find?_eq_some hfind
  have hplan' : pc'.plan = plan := by
    have hboth := List.find?_some hfind
    exact of_decide_eq_true (Bool.and_eq_true_iff.mp hboth).1
  have hnot : plan ∉ m.sourceIdsFor .plan :=
    @valueMapFor_target _ m { model := .resource, attname := .plan, related := .plan } _ _ htarget hmapped
  have hnone : m.sourcePlanComponents.find? (fun pc => pc.id = pc'.id) = none := by
    rw [List.find?_eq_none]
    intro pc'' hpc'' hid
    obtain ⟨hmem'', hsource⟩ := List.mem_filter.mp hpc''
    obtain rfl := c.planComponents.eq_of_key_eq hmem'' hmem (of_decide_eq_true hid)
    obtain ⟨p, hp, hp'⟩ := List.any_eq_true.mp hsource
    refine hnot ?_
    rw [← hplan', ← of_decide_eq_true hp']
    exact List.mem_map_of_mem hp
  unfold planComponentMap
  rw [hnone, Option.bind_none]

/-- No stored plan of the target is a mapped source plan. -/
theorem uuid_of_targetPlan (htarget : m.target.id ∉ m.sourceIds) {p p' : Plan} (h : m.targetPlan p = some p') :
    p'.uuid ∉ m.sourcePlans.map (·.uuid) := by
  intro hsource
  obtain ⟨uuid, -, hfind⟩ := Option.bind_eq_some_iff.mp h
  obtain ⟨hmem, hoffering⟩ := List.mem_filter.mp (List.mem_of_find?_eq_some hfind)
  obtain ⟨p'', hp'', huuid⟩ := List.mem_map.mp hsource
  obtain ⟨hmem'', hcontains⟩ := List.mem_filter.mp hp''
  obtain rfl := List.inj_on_of_nodup_map c.plan_uuid hmem'' hmem huuid
  rw [of_decide_eq_true hoffering] at hcontains
  exact htarget (List.contains_iff_mem.mp hcontains)

theorem snapshotPlans_of_mem {p : Plan} (hp : p ∈ m.sourcePlans) : (m.snapshotMap o).plans p.uuid = m.targetPlan p := by
  have hfind : m.sourcePlans.find? (fun p' => p'.uuid = p.uuid) = some p := by
    cases h : m.sourcePlans.find? fun p' => p'.uuid = p.uuid with
    | none => simpa using List.find?_eq_none.mp h p hp
    | some p' =>
      have huuid : p'.uuid = p.uuid := by simpa using List.find?_some h
      have hp' : p' ∈ c.plans.rows := List.mem_of_mem_filter (List.mem_of_find?_eq_some h)
      rw [List.inj_on_of_nodup_map c.plan_uuid hp' (List.mem_of_mem_filter hp) huuid]
  show (m.sourcePlans.find? fun p' => p'.uuid = p.uuid).bind m.targetPlan = m.targetPlan p
  rw [hfind, Option.bind_some]

variable {d : Document Key Value} {planComponent : Option ℕ}

/-- The plan of a rewritten document is not stale. -/
theorem planUuid_rewritten (htarget : m.target.id ∉ m.sourceIds) :
    (uuidAt (rewriteDocument c (m.snapshotMap o) d planComponent) planUuid).any (m.stale db).planUuids.contains =
      false := by
  rw [Bool.eq_false_iff]
  intro hstale
  obtain ⟨u, hu, hcontains⟩ := (Option.any_eq_true ..).mp hstale
  obtain ⟨p, hp, rfl⟩ := List.mem_map.mp (List.contains_iff_mem.mp hcontains)
  obtain ⟨hsource, hmapped⟩ := List.mem_filter.mp hp
  rw [rewriteDocument_plan] at hu
  obtain ⟨old, -, hnew⟩ := Option.bind_eq_some_iff.mp hu
  cases hplan : (m.snapshotMap o).plans old with
  | some p' =>
    rw [hplan] at hnew
    obtain ⟨q, -, htargetPlan⟩ := Option.bind_eq_some_iff.mp (show (m.sourcePlans.find? _).bind m.targetPlan = _ from hplan)
    refine uuid_of_targetPlan htarget htargetPlan ?_
    rw [show p'.uuid = p.uuid from Option.some.inj hnew]
    exact List.mem_map_of_mem hsource
  | none =>
    rw [hplan] at hnew
    obtain rfl : old = p.uuid := Option.some.inj hnew
    rw [snapshotPlans_of_mem hsource] at hplan
    rw [planMap_of_mem hsource, hplan] at hmapped
    cases hmapped

/-- The plan component of a rewritten document is not stale. -/
theorem planComponentId_rewritten (htarget : m.target.id ∉ m.sourceIds) :
    ((planComponentAt (rewriteDocument c (m.snapshotMap o) d planComponent)).bind Int.toNat?).any
      (m.stale db).planComponentIds = false := by
  rw [Bool.eq_false_iff]
  intro hstale
  obtain ⟨n, hn, hmapped⟩ := (Option.any_eq_true ..).mp hstale
  rw [rewriteDocument_planComponent] at hn
  cases hsnapshot : snapshotPlanComponent (m.snapshotMap o) d planComponent with
  | some pc' =>
    rw [hsnapshot, Option.elim_some] at hn
    obtain ⟨z, hz, hnat⟩ := Option.bind_eq_some_iff.mp hn
    obtain ⟨_, -, rfl⟩ := Option.map_eq_some_iff.mp hz
    obtain rfl : pc'.id = n := Option.some.inj hnat
    have hfrom : ∃ pc, m.planComponentMap pc = some pc' := by
      unfold snapshotPlanComponent at hsnapshot
      cases hfk : planComponent.bind (m.snapshotMap o).planComponents with
      | some found =>
        rw [hfk] at hsnapshot
        obtain ⟨pc, -, hpc⟩ := Option.bind_eq_some_iff.mp hfk
        exact ⟨pc, hpc.trans hsnapshot⟩
      | none =>
        rw [hfk] at hsnapshot
        obtain ⟨pc, -, hpc⟩ := Option.bind_eq_some_iff.mp hsnapshot
        exact ⟨pc, hpc⟩
    obtain ⟨pc, hpc⟩ := hfrom
    have hnone : m.planComponentMap pc'.id = none := planComponentMap_target htarget hpc
    have hsome : (m.planComponentMap pc'.id).isSome = true := hmapped
    rw [hnone] at hsome
    cases hsome
  | none =>
    rw [hsnapshot, Option.elim_none] at hn
    have hnone : m.planComponentMap n = none := by
      unfold snapshotPlanComponent at hsnapshot
      rw [hn, Option.bind_some] at hsnapshot
      cases hfk : planComponent.bind (m.snapshotMap o).planComponents with
      | some found =>
        rw [hfk] at hsnapshot
        cases hsnapshot
      | none =>
        rw [hfk] at hsnapshot
        exact hsnapshot
    have hsome : (m.planComponentMap n).isSome = true := hmapped
    rw [hnone] at hsome
    cases hsome

/-- The plan component of a rewritten item is not stale. -/
theorem planComponent_rewritten (htarget : m.target.id ∉ m.sourceIds) :
    (m.rewriteItem o r).2.any (m.stale db).planComponentIds = false := by
  rw [Bool.eq_false_iff, rewriteItem_planComponent]
  intro hstale
  obtain ⟨n, hn, hmapped⟩ := (Option.any_eq_true ..).mp hstale
  obtain ⟨pc, -, hnew⟩ := Option.map_eq_some_iff.mp hn
  have hsome : (m.planComponentMap n).isSome = true := hmapped
  cases hpc : m.planComponentMap pc with
  | none =>
    rw [hpc] at hnew
    obtain rfl : pc = n := hnew
    rw [hpc] at hsome
    cases hsome
  | some pc' =>
    rw [hpc] at hnew
    obtain rfl : pc'.id = n := hnew
    rw [planComponentMap_target htarget hpc] at hsome
    cases hsome

theorem target_uuid (htarget : m.target.id ∉ m.sourceIds) : m.target.uuid ∉ m.sources.map (·.uuid) := by
  intro hsource
  obtain ⟨s, hs, huuid⟩ := List.mem_map.mp hsource
  have hstored : s ∈ c.offerings.rows := m.stored s (List.mem_cons_of_mem _ hs)
  obtain rfl := List.inj_on_of_nodup_map c.offering_uuid hstored (m.stored m.target List.mem_cons_self) huuid
  exact htarget (List.mem_map_of_mem hs)

/-- **A rewritten document names a source** exactly where it named one other than that of its resource. -/
theorem offeringUuid_rewritten (htarget : m.target.id ∉ m.sourceIds) :
    (uuidAt (rewriteDocument c (m.snapshotMap o) d planComponent) offeringUuid).any (m.stale db).offeringUuids.contains =
      false ↔ ∀ s ∈ m.sources, uuidAt d offeringUuid = some s.uuid → s.id = o := by
  rw [rewriteDocument_offering]
  have hnamed : ∀ s ∈ m.sources, s.uuid ∈ (m.snapshotMap o).offeringUuids ↔ s.id = o := by
    intro s hs
    constructor
    · intro hmem
      obtain ⟨s', hs', huuid⟩ := List.mem_map.mp hmem
      obtain ⟨hsource', hid⟩ := List.mem_filter.mp hs'
      have hstored : ∀ s ∈ m.sources, s ∈ c.offerings.rows := fun s hs => m.stored s (List.mem_cons_of_mem _ hs)
      rw [← List.inj_on_of_nodup_map c.offering_uuid (hstored s' hsource') (hstored s hs) huuid]
      exact of_decide_eq_true hid
    · rintro rfl
      exact List.mem_map_of_mem (List.mem_filter.mpr ⟨hs, decide_eq_true rfl⟩)
  cases hu : uuidAt d offeringUuid with
  | none => simp
  | some u =>
    rw [Option.any_some]
    split_ifs with hown
    · refine iff_of_true ?_ fun s hs heq => ?_
      · rw [Option.any_some, Bool.eq_false_iff]
        exact fun hcontains => target_uuid htarget (List.contains_iff_mem.mp hcontains)
      · rw [Option.some.inj heq] at hown
        exact (hnamed s hs).mp (List.contains_iff_mem.mp hown)
    · rw [Option.any_some, Bool.eq_false_iff]
      constructor
      · intro hnone s hs heq
        rw [Option.some.inj heq] at hnone
        exact absurd (List.contains_iff_mem.mpr (List.mem_map_of_mem hs)) hnone
      · intro hall hcontains
        obtain ⟨s, hs, rfl⟩ := List.mem_map.mp (List.contains_iff_mem.mp hcontains)
        exact hown (List.contains_iff_mem.mpr ((hnamed s hs).mpr (hall s hs rfl)))

end Items

/-! ## Verification -/

section Verify

theorem contains_resourceIds (resource : ℕ) :
    ((m.moves db).map Prod.fst).contains resource = (m.movedFrom db resource).isSome := by
  have hmove : ∀ r : Row, ∀ y, m.moveOf r = some y → y.1 = r.id := by
    intro r y hy
    obtain ⟨o, -, rfl⟩ := Option.map_eq_some_iff.mp hy
    rfl
  rw [Bool.eq_iff_iff, List.contains_iff_mem, Option.isSome_iff_exists]
  constructor
  · intro hmem
    obtain ⟨y, hy, rfl⟩ := List.mem_map.mp hmem
    obtain ⟨r, hr, hry⟩ := List.mem_filterMap.mp hy
    obtain ⟨o, ho, -⟩ := Option.map_eq_some_iff.mp hry
    refine ⟨o, ?_⟩
    unfold movedFrom
    rw [hmove r y hry, Table.get?_eq_some.mpr ⟨hr, rfl⟩, Option.bind_some]
    exact ho
  · rintro ⟨o, ho⟩
    obtain ⟨r, hget, hoffering⟩ := Option.bind_eq_some_iff.mp ho
    obtain ⟨hr, rfl⟩ := Table.get?_eq_some.mp hget
    have hsome : m.moveOf r = some (r.id, o, m.target.id) := by
      unfold moveOf
      rw [hoffering, Option.map_some]
    exact List.mem_map.mpr ⟨_, List.mem_filterMap.mpr ⟨r, hr, hsome⟩, rfl⟩

/-- The items that are checked are those that are rewritten. -/
theorem inScope_merged : (m.verification db contentType month).inScope (m.rowMerged db .invoiceItem r) =
    (m.rewriteSource db r).isSome := by
  have hscope : (decide ((m.verification db contentType month).policy = .allMonths) ||
      (m.rowMerged db .invoiceItem r).isOpen) = m.inScope r := by
    rw [isOpen_rowMerged]
    rfl
  have hmoved : (m.verification db contentType month).ofMoved (m.rowMerged db .invoiceItem r) =
      (m.itemSource db r).isSome := by
    unfold Verification.ofMoved itemSource
    rw [refs_unwritten (by decide)]
    cases r.refs .resource with
    | none => rfl
    | some resource => exact contains_resourceIds resource
  unfold Verification.inScope rewriteSource
  rw [hscope, hmoved]
  cases m.itemSource db r with
  | none => rfl
  | some o => cases m.inScope r <;> rfl

/-- An item is stale after its rewriting exactly where it names a source other than that of its resource. -/
theorem staleItem_merged (htarget : m.target.id ∉ m.sourceIds) (hr : r ∈ (db.table .invoiceItem).rows)
    (hsource : m.rewriteSource db r = some o) :
    Verification.staleItem (m.stale db) (m.rowMerged db .invoiceItem r) = false ↔
      ∀ d, r.docs .details = .object d → ∀ s ∈ m.sources, uuidAt d offeringUuid = some s.uuid → s.id = o := by
  have hdetails : (m.rowMerged db .invoiceItem r).docs .details = (m.rewriteItem o r).1 := by
    rw [details_execute hr, hsource, Option.elim_some]
  have hcomponent : (m.rowMerged db .invoiceItem r).refs .planComponent = (m.rewriteItem o r).2 := by
    rw [planComponent_execute hr, hsource, Option.elim_some]
  unfold Verification.staleItem
  rw [hdetails, hcomponent, planComponent_rewritten htarget]
  unfold rewriteItem rewriteSnapshot
  cases hcolumn : r.docs .details with
  | plain l => exact iff_of_true rfl fun d hd => by cases hd
  | object d =>
    simp only [Bool.false_or]
    rw [planComponentId_rewritten htarget, planUuid_rewritten htarget, Bool.false_or, Bool.or_false,
      offeringUuid_rewritten htarget]
    constructor
    · intro hown d' hd'
      obtain rfl := Column.object.inj hd'
      exact hown
    · exact fun hall => hall d rfl

variable (hrows : ∀ model, (after.table model).rows = (db.table model).rows.map (m.rowMerged db model))

include hrows

/-- Only invoice items can be stale. -/
theorem checkReferences_merged (hblockers : m.blockers db = []) :
    (m.verification db contentType month).checkReferences (m.stale db) after = true ↔ m.NamesOwnSource db := by
  obtain ⟨htarget, -, -, -⟩ := blockers_nil hblockers
  have hresource : (Verification.report (m.stale db) after .resource fun r =>
      (m.verification db contentType month).resourceIds.contains r.id &&
        ((r.refs .offering).any (m.stale db).offeringIds.contains || (r.refs .plan).any (m.stale db).planIds)).isEmpty =
      true := by
    refine report_isEmpty (hrows _) fun r hr hstale => ?_
    rcases Bool.or_eq_true_iff.mp (Bool.and_eq_true_iff.mp hstale).2 with hoffering | hplan
    · exact @stale_ref _ _ _ { model := .resource, attname := .offering, related := .offering } _ hblockers (by decide) hr
        (source_mapped hoffering)
    · exact @stale_ref _ _ _ { model := .resource, attname := .plan, related := .plan } _ hblockers (by decide) hr hplan
  have hperiod : (Verification.report (m.stale db) after .resourcePlanPeriod fun r =>
      (m.verification db contentType month).ofMoved r && (r.refs .plan).any (m.stale db).planIds).isEmpty = true := by
    refine report_isEmpty (hrows _) fun r hr hstale => ?_
    exact @stale_ref _ _ _ { model := .resourcePlanPeriod, attname := .plan, related := .plan } _ hblockers (by decide) hr
      (Bool.and_eq_true_iff.mp hstale).2
  have horder : (Verification.report (m.stale db) after .order fun r =>
      (m.verification db contentType month).ofMoved r && ((r.refs .offering).any (m.stale db).offeringIds.contains ||
        (r.refs .plan).any (m.stale db).planIds || (r.refs .oldPlan).any (m.stale db).planIds)).isEmpty = true := by
    refine report_isEmpty (hrows _) fun r hr hstale => ?_
    rcases Bool.or_eq_true_iff.mp (Bool.and_eq_true_iff.mp hstale).2 with hfirst | hold
    · rcases Bool.or_eq_true_iff.mp hfirst with hoffering | hplan
      · exact @stale_ref _ _ _ { model := .order, attname := .offering, related := .offering } _ hblockers (by decide) hr
          (source_mapped hoffering)
      · exact @stale_ref _ _ _ { model := .order, attname := .plan, related := .plan } _ hblockers (by decide) hr hplan
    · exact @stale_ref _ _ _ { model := .order, attname := .oldPlan, related := .plan } _ hblockers (by decide) hr hold
  have husage : (usageModels.all fun model => (Verification.report (m.stale db) after model fun r =>
      (m.verification db contentType month).ofMoved r &&
        (r.refs .component).any (m.stale db).componentIds).isEmpty) = true := by
    have hentry : ∀ model ∈ usageModels, ∃ e ∈ relations, e.model = model ∧ e.attname = .component ∧
        e.related = .component := by decide
    refine List.all_eq_true.mpr fun model hmodel => report_isEmpty (hrows _) fun r hr hstale => ?_
    obtain ⟨e, he, rfl, hattname, hrelated⟩ := hentry model hmodel
    refine stale_ref hblockers he hr ?_
    rw [hattname, hrelated]
    exact (Bool.and_eq_true_iff.mp hstale).2
  have hkeys : (!(after.table .resource).rows.any fun r =>
      (m.verification db contentType month).resourceIds.contains r.id && Verification.staleKeys (m.stale db) r) = true := by
    rw [Bool.not_eq_true', List.any_eq_false]
    intro r' hr' hstale
    rw [hrows] at hr'
    obtain ⟨r, hr, rfl⟩ := List.mem_map.mp hr'
    rw [staleKeys_merged hr, Bool.and_false] at hstale
    cases hstale
  unfold Verification.checkReferences
  rw [hresource, hperiod, horder, husage, hkeys, Bool.and_self, Bool.and_self, Bool.and_self, Bool.and_self,
    Bool.true_and, Bool.not_eq_true', List.any_eq_false]
  constructor
  · intro hnone r hr o d hsource hd s hs hnamed
    have hmem : m.rowMerged db .invoiceItem r ∈ (after.table .invoiceItem).rows := by
      rw [hrows]
      exact List.mem_map_of_mem hr
    have hfresh : Verification.staleItem (m.stale db) (m.rowMerged db .invoiceItem r) = false := by
      rw [← Bool.not_eq_true]
      intro hstale
      refine hnone _ hmem ?_
      rw [inScope_merged, hsource, hstale]
      rfl
    exact (staleItem_merged htarget hr hsource).mp hfresh d hd s hs hnamed
  · intro hown r' hr' hstale
    rw [hrows] at hr'
    obtain ⟨r, hr, rfl⟩ := List.mem_map.mp hr'
    rw [inScope_merged] at hstale
    obtain ⟨hscope, hitem⟩ := Bool.and_eq_true_iff.mp hstale
    obtain ⟨o, hsource⟩ := Option.isSome_iff_exists.mp hscope
    rw [(staleItem_merged htarget hr hsource).mpr fun d hd => hown r hr o d hsource hd] at hitem
    cases hitem

end Verify

/-- **What verification says of a merge**: it passes exactly where no item in the scope of the policy names a source
other than that of its resource. -/
theorem verify_iff (m : Merge c) (db : Db) (x : Executed) (contentType month : ℕ)
    (hperiods : ∀ resource, openPlanPeriods db resource ≤ 1) (h : m.execute db = .ok x) :
    (m.verification db contentType month).verify (m.stale db) x.db = true ↔ m.NamesOwnSource db := by
  obtain ⟨hblockers, -, hrows⟩ := execute_eq_ok h
  have hcounts : (m.verification db contentType month).checkResourceCounts x.db = true :=
    List.all_eq_true.mpr fun o _ => decide_eq_true (resourceCounts_merged hrows o)
  have hplanPeriods : (m.verification db contentType month).checkPlanPeriods x.db = true := by
    refine List.all_eq_true.mpr fun resource _ => decide_eq_true ?_
    rw [openPlanPeriods_merged hrows]
    exact hperiods resource
  have htotals : (m.verification db contentType month).checkInvoiceTotals x.db = true := by
    unfold Verification.checkInvoiceTotals
    simp only
    rw [invoiceTotals_merged hrows]
    exact List.all_eq_true.mpr fun e _ => decide_eq_true rfl
  have hroles : (m.verification db contentType month).checkOfferingRoles x.db = true :=
    List.all_eq_true.mpr fun o _ => decide_eq_true (offeringRoles_merged hrows o)
  have hclosed : (m.verification db contentType month).checkClosedItems x.db = true := by
    unfold Verification.checkClosedItems
    by_cases hpolicy : m.invoicePolicy = .openMonth
    · have hitems : (m.verification db contentType month).closedItems =
          some (closedItemHashes db (m.verification db contentType month).resourceIds) := if_pos hpolicy
      rw [hitems]
      simp only
      rw [closedItemHashes_merged hrows hpolicy]
      exact List.all_eq_true.mpr fun y hy => decide_eq_true (lookup_of_mem (nodup_closedItemHashes _) hy)
    · have hitems : (m.verification db contentType month).closedItems = none := if_neg hpolicy
      rw [hitems]
  unfold Verification.verify
  rw [hcounts, hplanPeriods, htotals, hroles, hclosed, Bool.true_and, Bool.true_and, Bool.true_and, Bool.and_true,
    Bool.and_true]
  exact checkReferences_merged hrows hblockers

end Merge

/-- The target 1 and the sources 2 and 3. -/
def threeRows : List Offering := [{ id := 1, uuid := numbered 1 }, { id := 2, uuid := numbered 2 }, { id := 3, uuid := numbered 3 }]

theorem threeRows_ids : (threeRows.map Offering.id).Nodup := by decide

theorem threeRows_uuids : (threeRows.map (·.uuid)).Nodup := by decide

def threeOfferings : Catalogue where
  offerings := ⟨threeRows, threeRows_ids⟩
  plans := Table.empty
  components := Table.empty
  planComponents := Table.empty
  offering_uuid := threeRows_uuids
  plan_uuid := noPlans_uuid
  component_type := noComponents_type
  plan_component := noPlanComponents_unique

theorem threeOfferings_stored : ∀ o ∈ ({ id := 1, uuid := numbered 1 } : Offering) ::
    [{ id := 2, uuid := numbered 2 }, { id := 3, uuid := numbered 3 }], o ∈ threeOfferings.offerings.rows := by
  decide

def bothIntoFirst : Merge threeOfferings where
  target := { id := 1, uuid := numbered 1 }
  sources := [{ id := 2, uuid := numbered 2 }, { id := 3, uuid := numbered 3 }]
  stored := threeOfferings_stored

/-- A resource of the source 2 with an open invoice item that names the offering `named`. -/
def invoiced (named : Uuid) : Db where
  table
    | .resource => ⟨[{ id := 7, refs := fun a => if a = .offering then some 2 else none }], List.nodup_singleton _⟩
    | .invoiceItem => ⟨[{
        id := 9
        refs := fun a => if a = .resource then some 7 else none
        docs := fun _ => .object ⟨[(offeringUuid, .leaf (.text (hex named)))], List.pairwise_singleton _ _⟩
        isOpen := true }], List.nodup_singleton _⟩
    | _ => Table.empty

theorem uuidAt_invoiced (named : Uuid) :
    uuidAt ⟨[(offeringUuid, .leaf (.text (hex named)))], List.pairwise_singleton _ _⟩ offeringUuid = some named := by
  unfold uuidAt
  rw [get?_eq_some.mpr List.mem_cons_self, Option.bind_some]
  exact readUuid_hex named

theorem openPlanPeriods_invoiced (named : Uuid) (resource : ℕ) : openPlanPeriods (invoiced named) resource ≤ 1 :=
  Nat.zero_le 1

/-- An item that names the source of its resource passes. -/
theorem ownSource_verified : ∃ x, bothIntoFirst.execute (invoiced (numbered 2)) = .ok x ∧
    (bothIntoFirst.verification (invoiced (numbered 2)) 0 0).verify (bothIntoFirst.stale (invoiced (numbered 2))) x.db = true := by
  obtain ⟨x, hx⟩ := Merge.execute_of_blockers bothIntoFirst (invoiced (numbered 2)) (by decide)
  refine ⟨x, hx, (Merge.verify_iff bothIntoFirst (invoiced (numbered 2)) x 0 0 (openPlanPeriods_invoiced (numbered 2)) hx).mpr ?_⟩
  intro r hr source d hsource hd s hs hnamed
  obtain rfl := List.mem_singleton.mp hr
  obtain rfl : 2 = source := Option.some.inj hsource
  obtain rfl := Column.object.inj hd
  rw [uuidAt_invoiced] at hnamed
  rcases List.mem_cons.mp hs with rfl | hs
  · rfl
  · obtain rfl := List.mem_singleton.mp hs
    exact absurd (Option.some.inj hnamed) (by decide)

/-- An item that names the other source keeps the name, and the verification finds it. -/
theorem otherSource_unverified : ¬ ∀ (c : Catalogue) (m : Merge c) (db : Db) (x : Merge.Executed)
    (contentType month : ℕ), (∀ resource, openPlanPeriods db resource ≤ 1) → m.execute db = .ok x →
      (m.verification db contentType month).verify (m.stale db) x.db = true := by
  intro h
  obtain ⟨x, hx⟩ := Merge.execute_of_blockers bothIntoFirst (invoiced (numbered 3)) (by decide)
  have hverified := h threeOfferings bothIntoFirst (invoiced (numbered 3)) x 0 0 (openPlanPeriods_invoiced (numbered 3)) hx
  obtain ⟨hblockers, -, hrows⟩ := Merge.execute_eq_ok hx
  unfold Verification.verify at hverified
  simp only [Bool.and_eq_true] at hverified
  obtain ⟨⟨⟨-, hreferences⟩, -⟩, -⟩ := hverified
  have hown := (Merge.checkReferences_merged hrows hblockers).mp hreferences
  have hsource := hown _ List.mem_cons_self 2 _ rfl rfl { id := 3, uuid := numbered 3 } (by decide) (uuidAt_invoiced (numbered 3))
  exact absurd hsource (by decide)

end Waldur.OfferingMerge
