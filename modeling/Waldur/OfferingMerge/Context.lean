import Mathlib
import Waldur.Lib.Repointing
import Waldur.OfferingMerge.Coverage
import Waldur.OfferingMerge.Renames

/-!
# OfferingMerge.Context — what the preview derives from a merge record

`_MergeContext` up to the registry writes: the maps from source plans and components to those of the target, the rows
that an entry covers, and what refuses the merge.  Everything is read off the rows as they are before the merge.
-/

namespace Waldur.OfferingMerge

open Documents PythonText Relational Repointing

variable {c : Catalogue}

namespace Merge

variable (m : Merge c) (db : Db)

/-! ## Mappings -/

section Mappings

def sourceIds : List ℕ := m.sources.map (·.id)

def sourcePlans : List Plan := c.plans.rows.filter fun p => m.sourceIds.contains p.offering

def sourceComponents : List OfferingComponent := c.components.rows.filter fun k => m.sourceIds.contains k.offering

def sourcePlanComponents : List PlanComponent :=
  c.planComponents.rows.filter fun pc => m.sourcePlans.any fun p => p.id = pc.plan

/-- `self.target.plans`. -/
def targetPlans : List Plan := c.plans.rows.filter fun p => p.offering = m.target.id

/-- `self.target.components`. -/
def targetComponents : List OfferingComponent := c.components.rows.filter fun k => k.offering = m.target.id

/-- `mapping.get(plan.uuid.hex)`. -/
def targetPlan (p : Plan) : Option Plan :=
  (m.planMapping.get? p.uuid).bind fun uuid => m.targetPlans.find? fun p' => p'.uuid = uuid

/-- `plan_map`. -/
def planMap (plan : ℕ) : Option ℕ := ((m.sourcePlans.find? fun p => p.id = plan).bind m.targetPlan).map (·.id)

/-- `per_source.get(source.id, {})`. -/
def typesOf (source : ℕ) : Document Key Key :=
  ((m.sources.find? fun s => s.id = source).bind fun s => m.componentMapping.get? s.uuid).getD .empty

/-- The target component of a source component. -/
def targetComponent (k : OfferingComponent) : Option OfferingComponent :=
  ((m.typesOf k.offering).get? k.type).bind fun type => m.targetComponents.find? fun k' => k'.type = type

/-- `component_map`. -/
def componentMap (component : ℕ) : Option ℕ :=
  ((m.sourceComponents.find? fun k => k.id = component).bind m.targetComponent).map (·.id)

/-- `component_type_map`. -/
def componentTypeMap (source : ℕ) : Document Key Key :=
  (m.typesOf source).filter fun e => (m.sourceComponents.any fun k => k.offering = source && k.type = e.1) &&
    m.targetComponents.any fun k => k.type = e.2

/-- `plan_component_map`. -/
def planComponentMap (planComponent : ℕ) : Option PlanComponent :=
  (m.sourcePlanComponents.find? fun pc => pc.id = planComponent).bind fun pc =>
    (m.planMap pc.plan).bind fun plan => (pc.component.bind m.componentMap).bind fun component =>
      c.planComponents.rows.find? fun pc' => pc'.plan = plan && pc'.component = some component

/-- `_source_ids_for`. -/
def sourceIdsFor : Related → List ℕ
  | .offering => m.sourceIds
  | .plan => m.sourcePlans.map (·.id)
  | .component => m.sourceComponents.map (·.id)

/-- `_value_map_for`. -/
def valueMapFor : Related → ℕ → Option ℕ
  | .offering, o => if m.sourceIds.contains o then some m.target.id else none
  | .plan, p => m.planMap p
  | .component, k => m.componentMap k

end Mappings

/-! ## Covered rows -/

section Rows

/-- The rows of an entry that refer to a source. -/
def relationRows (e : Relation) : List Row :=
  (db.table e.model).rows.filter fun r => (r.refs e.attname).any (m.sourceIdsFor e.related).contains

/-- The keys of the unique set that the target has already. -/
def existing (e : Relation) : List (ℕ × List (Option ℕ)) :=
  match e.uniqueWith with
  | [] => []
  | first :: _ =>
    ((db.table e.model).rows.filter fun r => ((m.relationRows db e).map (·.refs first)).contains (r.refs first)).filterMap
      fun r => ((r.refs e.attname).filter ((m.sourceIdsFor e.related).filterMap (m.valueMapFor e.related)).contains).map
        fun value => (value, e.uniqueWith.map r.refs)

/-- `_plan_relation`: the rows to write with their new reference, and the collisions. -/
def planRelation (e : Relation) : List (Row × ℕ) × List Row :=
  repoint (fun r => (r.refs e.attname).bind (m.valueMapFor e.related)) (fun r => e.uniqueWith.map r.refs)
    (!e.uniqueWith.isEmpty) (m.existing db e) (m.relationRows db e)

end Rows

end Merge

/-- The offering of a row by a lookup path. -/
def rowOffering (c : Catalogue) (db : Db) : OfferingPath → Row → Option ℕ
  | .offering, r => r.refs .offering
  | .resourceOffering, r => (r.refs .resource).bind fun id => ((db.table .resource).get? id).bind (·.refs .offering)
  | .planOffering, r => (r.refs .plan).bind fun id => (c.plans.get? id).map (·.offering)

namespace Merge

variable (m : Merge c) (db : Db)

/-- `_json_rows`: the moved rows of a JSON entry, with their offering. -/
def jsonRows (e : JsonKeys) : List (ℕ × Row) :=
  (db.table e.model).rows.filterMap fun r =>
    ((rowOffering c db e.offeringPath r).filter fun o =>
      m.sourceIds.contains o && (!e.mappedPlan || (r.refs .plan).any fun p => (m.planMap p).isSome)).map (·, r)

/-- The document of a moved row under the target. -/
def renameColumn (e : JsonKeys) (source : ℕ) (value : Column) : Column :=
  match e.rename with
  | .componentTypes => renameKeys value (m.componentTypeMap source)
  | .answerKeys => renameAnswers value m.attributeKeyMapping (m.componentTypeMap source)

/-! ## What refuses a merge -/

section Blockers

/-- The codes of the blockers, with what they name. -/
inductive Issue
  | noSources
  | targetInSources
  | targetArchived
  | remoteOffering (offering : ℕ)
  | offeringHierarchy (offering : ℕ)
  | offeringTypeNotAllowed (source : ℕ)
  | invalidPlanMapping (source target : Uuid)
  | unmappedPlan (plan : ℕ)
  | planUnitMismatch (source target : ℕ)
  | invalidComponentOffering (offering : Uuid)
  | invalidComponentMapping (source : ℕ) (sourceType targetType : Key)
  | componentMappingNotInjective (source : ℕ)
  | unmappedComponent (component : ℕ)
  | componentBillingTypeMismatch (source target : ℕ)
  | pendingOrders (orders : List ℕ)
  | openCreationIssue (issues : List ℕ)
  | uniqueCollision (code : String) (rows : List ℕ)
  | invalidInvoicePolicy (policy : String)
deriving Repr

/-- `CROSS_TYPE_MERGEABLE_TYPES`. -/
def crossTypeMergeableTypes : List String := ["Marketplace.Basic", "Support.OfferingTemplate", "Marketplace.Slurm"]

/-- `OfferingStates.ARCHIVED`. -/
def archived : ℕ := 4

/-- One parent and one scope for all. -/
def siblings (offerings : List Offering) : Bool :=
  (offerings.map (·.parent)).dedup.length = 1 && (offerings.map (·.scope)).dedup.length = 1

/-- `_check_selection`. -/
def checkSelection : List Issue :=
  let offerings := m.sources ++ [m.target]
  (if m.sources.isEmpty then [.noSources] else []) ++
  (if m.sourceIds.contains m.target.id then [.targetInSources] else []) ++
  (if ((db.table .offering).get? m.target.id).bind (·.refs .state) = some archived then [.targetArchived] else []) ++
  (offerings.flatMap fun o =>
    (if o.type = "Waldur.RemoteOffering" then [.remoteOffering o.id] else []) ++
    (if (o.parent.isSome && !siblings offerings) || o.hasChildren then [.offeringHierarchy o.id] else [])) ++
  (m.sources.filter fun s => s.type ≠ m.target.type &&
    !(crossTypeMergeableTypes.contains s.type && crossTypeMergeableTypes.contains m.target.type)).map
      (.offeringTypeNotAllowed ·.id)

/-- `_referenced_plan_ids`. -/
def referencedPlan (plan : ℕ) : Bool :=
  planReferences.any fun ref => (db.table ref.1).rows.any fun r => r.refs ref.2 = some plan

/-- `_check_plan_mapping`. -/
def checkPlanMapping : List Issue :=
  ((m.planMapping.entries.filter fun e =>
    !((m.sourcePlans.any fun p => p.uuid = e.1) && m.targetPlans.any fun p => p.uuid = e.2)).map
      fun e => .invalidPlanMapping e.1 e.2) ++
  m.sourcePlans.flatMap fun p =>
    match m.targetPlan p with
    | none => if referencedPlan db p.id then [.unmappedPlan p.id] else []
    | some p' => if p.unit ≠ p'.unit then [.planUnitMismatch p.id p'.id] else []

/-- The component types among the keys of a document. -/
def typeKeys (e : JsonKeys) : Column → List Key
  | .plain _ => []
  | .object d =>
    match e.rename with
    | .componentTypes => d.keys
    | .answerKeys =>
      match d.get? oldLimits with
      | some (.object limits) => limits.keys
      | _ => []

/-- `_referenced_component_ids`. -/
def referencedComponent (k : OfferingComponent) : Bool :=
  (componentReferences.any fun ref => (db.table ref.1).rows.any fun r => r.refs ref.2 = some k.id) ||
  (c.planComponents.rows.any fun pc => (m.planMap pc.plan).isSome && pc.component = some k.id &&
    (decide (0 < pc.price) || decide (0 < pc.amount))) ||
  jsonEntries.any fun e => (m.jsonRows db e).any fun x => x.1 = k.offering && (typeKeys e (x.2.docs e.field)).contains k.type

/-- `_check_component_mapping`. -/
def checkComponentMapping : List Issue :=
  ((m.componentMapping.entries.filter fun e => !m.sources.any fun s => s.uuid = e.1).map
    fun e => .invalidComponentOffering e.1) ++
  m.sources.flatMap fun s =>
    (((m.typesOf s.id).entries.filter fun e =>
      !((m.sourceComponents.any fun k => k.offering = s.id && k.type = e.1) &&
        m.targetComponents.any fun k => k.type = e.2)).map fun e => .invalidComponentMapping s.id e.1 e.2) ++
    (if ((m.typesOf s.id).entries.map Prod.snd).Nodup then [] else [.componentMappingNotInjective s.id]) ++
    (m.sourceComponents.filter fun k => k.offering = s.id).flatMap fun k =>
      match (m.typesOf s.id).get? k.type with
      | none => if m.referencedComponent db k then [.unmappedComponent k.id] else []
      | some _ =>
        match m.targetComponent k with
        | none => []
        | some k' => if k.billingType ≠ k'.billingType then [.componentBillingTypeMismatch k.id k'.id] else []

/-- `_check_pending_orders`. -/
def checkPendingOrders : List Issue :=
  let pending := (db.table .order).rows.filter fun r => (r.refs .offering).any m.sourceIds.contains && r.isOpen
  if pending.isEmpty then [] else [.pendingOrders (pending.map (·.id))]

/-- `_check_creation_issues`. -/
def checkCreationIssues : List Issue :=
  let support := (m.sources.filter fun s => s.type = "Support.OfferingTemplate").map (·.id)
  let issues := (db.table .issue).rows.filter fun i => i.isOpen && (db.table .resource).rows.any fun r =>
    (r.refs .offering).any support.contains && r.refs .issue = some i.id
  if issues.isEmpty then [] else [.openCreationIssue (issues.map (·.id))]

/-- The collisions of the entries that do not leave rows behind. -/
def checkCollisions : List Issue :=
  relations.flatMap fun e =>
    match e.strategy, (m.planRelation db e).2 with
    | .repoint, r :: rows =>
      [.uniqueCollision (if e.collisionBlocker = "" then "unique_collision" else e.collisionBlocker)
        ((r :: rows).map (·.id))]
    | _, _ => []

def checkInvoicePolicy : List Issue :=
  match m.invoicePolicy with
  | .unknown name => [.invalidInvoicePolicy name]
  | _ => []

def blockers : List Issue :=
  m.checkSelection db ++ m.checkPlanMapping db ++ m.checkComponentMapping db ++ m.checkPendingOrders db ++
    m.checkCreationIssues db ++ m.checkCollisions db ++ m.checkInvoicePolicy

end Blockers

/-- `left_on_source`. -/
def leftOnSource (e : Relation) : List ℕ :=
  match e.strategy with
  | .repointDedupe => (m.planRelation db e).2.map (·.id)
  | .repoint => []

end Merge

end Waldur.OfferingMerge
