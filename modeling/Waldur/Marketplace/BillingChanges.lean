import Mathlib
import Waldur.Marketplace.Billing

/-!
# Marketplace.BillingChanges — limit changes, plan changes and terminations

The entry points of `MarketplaceBillingService` after the creation of a resource, and the one of usage
billing.  A call that raises leaves what it stored before: a transaction around the whole call is not
taken for granted, only those that the functions open themselves.
-/

namespace Waldur.Marketplace

open Calendar Clock Invoices Relational Runs

namespace Organization

variable (org : Organization)

/-! ## The invoice of a month -/

/-- `_process_resource`, component by component. -/
def processResourceUntil (invoice : Invoice) (start stop : Instant) (orderType : Option OrderType) (db : Db)
    (resource : BilledResource) : Db × Option BillingError :=
  match resource.plan with
  | none => (db, none)
  | some plan =>
    if !resource.billable then (db, none)
    else
      foldUntil (fun db pc => leave db (processComponent org resource plan invoice start stop orderType db pc)) db
        plan.components

/-- `get_or_create_invoice` outside a transaction. -/
def openInvoice (date : Instant) (orderType : Option OrderType) (db : Db) : Db × Except BillingError Invoice :=
  match org.findInvoice date db with
  | some invoice => (db, .ok invoice)
  | none =>
    let invoice := org.newInvoice date db
    let created := { db with invoices := db.invoices.insert invoice (get?_nextInvoice db) }
    match foldUntil (org.processResourceUntil invoice date (monthEnd date) orderType) created org.billedResources with
    | (db, none) => (db, .ok invoice)
    | (db, some e) => (db, .error e)

end Organization

/-! ## Limits -/

section

variable (resource : BilledResource)

/-- `_update_invoice_item`, with the billing period of the component. -/
def updateLimitItem (componentType : String) (now : Instant) (newQuantity : ℚ) (inv : Invoice) :
    Except BillingError Invoice :=
  match resource.plan with
  | none => .ok inv
  | some plan =>
    match h : inv.items.filter (isLimitItem resource.ref.id componentType plan.uuid) with
    | [] => .error (.lookup .doesNotExist)
    | _ :: _ :: _ => .error (.lookup .multipleObjectsReturned)
    | [item] =>
      match item.details.resourceLimitPeriods.getLast? with
      | none => .error (.lookup .popFromEmptyList)
      | some oldPeriod =>
        let newQuantity := convertQuantity newQuantity resource.offeringType componentType
        if oldPeriod.quantity = newQuantity then .ok inv
        else
          match resource.offeringComponent? componentType with
          | none => .error (.lookup .doesNotExist)
          | some component =>
            match getBillingPeriod (resolveComponent component (some plan.billingMode)).limitPeriod now
                resource.created with
            | .error e => .error e
            | .ok billingPeriod =>
              match plan.component? componentType with
              | none => .error (.lookup .doesNotExist)
              | some _ =>
                .ok (replaceItem inv (isLimitItem resource.ref.id componentType plan.uuid)
                  (reviseItem plan.unit billingPeriod.2 now oldPeriod newQuantity item)
                  (reviseItem_wellAttributed (inv.attributed item (mem_of_filter_eq h))))

theorem replaced_id (inv' inv₀ : Invoice) : ({ inv' with id := inv₀.id } : Invoice).id = inv₀.id := rfl

/-- The update of an item on one invoice, stored. -/
def updateOnInvoice (invoice : ℕ) (componentType : String) (now : Instant) (newQuantity : ℚ) (db : Db) :
    Except BillingError Db :=
  match db.invoices.get? invoice with
  | none => .ok db
  | some inv => do
    let inv' ← updateLimitItem resource componentType now newQuantity inv
    .ok { db with
      invoices := db.invoices.update invoice (fun inv₀ => { inv' with id := inv₀.id }) (replaced_id inv') }

/-- The invoice has an item of the resource and the component. -/
def hasItem (invoice : ℕ) (componentType : String) (db : Db) : Bool :=
  (db.invoices.get? invoice).any (fun inv => inv.items.any (fun it =>
    it.resource.any (fun r => r.id == resource.ref.id) && it.details.offeringComponentType == some componentType))

/-- The invoice that the billing period of a quarterly or annual component began on. -/
def periodInvoice (org : Organization) (invoice : ℕ) (componentType : String) (limitPeriod : Option LimitPeriods)
    (start : Instant) (db : Db) : Option Invoice :=
  if limitPeriod = some .quarterly ∨ limitPeriod = some .annual then
    (org.findInvoice start db).filter (fun inv => inv.id != invoice && hasItem resource inv.id componentType db)
  else none

/-- `_create_or_update_invoice_item`. -/
def createOrUpdateInvoiceItem (org : Organization) (invoice : ℕ) (component : OfferingComponent) (now : Instant)
    (quantity : ℚ) (db : Db) : Except BillingError Db :=
  match resource.plan with
  | none => .ok db
  | some plan =>
    if hasItem resource invoice component.type db then updateOnInvoice resource invoice component.type now quantity db
    else
      match plan.component? component.type with
      | none => .ok db
      | some pc => do
        let effective := resolveComponent component (some plan.billingMode)
        let billingPeriod ← getBillingPeriod effective.limitPeriod now resource.created
        match periodInvoice resource org invoice component.type effective.limitPeriod billingPeriod.1 db with
        | some inv => updateOnInvoice resource inv.id component.type now quantity db
        | none => .ok (createInvoiceItem resource plan pc effective invoice billingPeriod.1 billingPeriod.2 db)

/-- The effective component of the resource's plan, or without one. -/
def resolved (component : OfferingComponent) : EffectiveComponent :=
  resolveComponent component (resource.plan.map (·.billingMode))

/-- `LimitPeriodProcessor.process_update`. -/
def processUpdate (org : Organization) (invoice : ℕ) (now : Instant) (db : Db) (limit : String × ℚ) :
    Except BillingError Db :=
  match resource.offeringComponent? limit.1 with
  | none => .error (.lookup .doesNotExist)
  | some component =>
    if (resolved resource component).limitPeriod = some .total then
      .ok (createInvoiceItemForTotalLimit db resource.toMarketplaceResource invoice limit.1 limit.2 now (monthEnd now))
    else createOrUpdateInvoiceItem resource org invoice component now limit.2 db

/-- The limits of components that are billed by limits. -/
def billedLimits : List (String × ℚ) :=
  resource.limits.filter (fun limit =>
    resource.offeringComponents.any (fun component =>
      component.type == limit.1 && (resolved resource component).billingType == .limit))

/-- `prepaid_types`. -/
def prepaidComponents : List OfferingComponent :=
  resource.offeringComponents.filter (fun component =>
    (resolved resource component).billingType == .oneTime && (resolved resource component).isPrepaid)

/-- The item of a prepaid limit that was raised or lowered. -/
def supplementaryItem (plan : Plan) (pc : PlanComponent) (limitDiff : ℚ) (remainingMonths : ℕ) (now : Instant)
    (uuid : ℕ) : InvoiceItem where
  uuid := uuid
  unitPrice := if limitDiff > 0 then pc.price else -pc.price
  quantity := |limitDiff| * remainingMonths
  unit := .quantity
  resource := some resource.ref
  planComponent := some pc.id
  project := some resource.ref.project
  start := now
  stop := monthEnd now
  details :=
    { offeringComponentType := some pc.componentType
      planUuid := some plan.uuid
      planComponentId := some pc.id }

/-- What a prepaid limit changed by, in the units that it is sold in; nothing without an old limit. -/
def prepaidDiff (oldLimits : List (String × ℚ)) (componentType : String) : Option ℚ :=
  let newLimit := (resource.limit? componentType).getD 0
  let oldLimit := (oldLimits.lookup componentType).getD 0
  let factor := (resource.componentFactors.lookup componentType).getD 1
  if oldLimit = 0 ∨ newLimit = oldLimit then none
  else some (newLimit / factor - oldLimit / factor) |>.filter (fun diff => decide (diff ≠ 0))

/-- One component of `_handle_prepaid_limits_change`. -/
def changePrepaidLimit (invoice : ℕ) (oldLimits : List (String × ℚ)) (remainingMonths : ℕ) (now : Instant) (db : Db)
    (component : OfferingComponent) : Except BillingError Db :=
  match prepaidDiff resource oldLimits component.type with
  | none => .ok db
  | some diff =>
    match resource.plan with
    | none => .error .attributeError
    | some plan =>
      match plan.component? component.type with
      | none => .error (.lookup .doesNotExist)
      | some pc => .ok (createItem invoice (supplementaryItem resource plan pc diff remainingMonths now) db)

/-- The months from an instant to the end date of a resource; none without one, or after it. -/
def remainingMonths (now : Instant) : ℕ :=
  (resource.endDate.map (fun endDate => if endDate < now.date then 0 else startedMonths now.date endDate)).getD 0

/-- `_handle_prepaid_limits_change`. -/
def handlePrepaidLimitsChange (invoice : ℕ) (oldLimits : List (String × ℚ)) (now : Instant)
    (db : Db) : Db × Option BillingError :=
  if remainingMonths resource now = 0 then (db, none)
  else
    foldUntil (fun db component =>
      leave db (changePrepaidLimit resource invoice oldLimits (remainingMonths resource now) now db component)) db
      (prepaidComponents resource)

end

/-- What the orders and the field tracker of a resource know of its limits before the change. -/
structure OldLimits where
  lastUpdateOrder : Option (List (String × ℚ)) := none
  createOrder : List (String × ℚ) := []
  tracker : List (String × ℚ) := []

/-- `old_limits`; without any the call stops. -/
def OldLimits.read (old : OldLimits) : Option (List (String × ℚ)) :=
  match old.lastUpdateOrder with
  | some limits => some limits
  | none =>
    if old.createOrder ≠ [] then some old.createOrder
    else if old.tracker ≠ [] then some old.tracker
    else none

namespace Organization

variable (org : Organization)

/-- `handle_limits_change`. -/
def handleLimitsChange (resource : BilledResource) (old : OldLimits) (now : Instant) (db : Db) :
    Db × Option BillingError :=
  match org.openInvoice (monthStart now) none db with
  | (db, .error e) => (db, some e)
  | (db, .ok invoice) =>
    match old.read with
    | none => (db, none)
    | some oldLimits =>
      match foldUntil (fun db limit => leave db (processUpdate resource org invoice.id now db limit)) db
          (billedLimits resource) with
      | (db, some e) => (db, some e)
      | (db, none) => handlePrepaidLimitsChange resource invoice.id oldLimits now db

/-! ## Terminations and plan changes -/

variable (planComponents : ℕ → Option PlanComponentLink)

/-- The items of a resource that run to the end of the month, on its open invoices. -/
def terminateItems (resource : Resource) (now : Instant) (db : Db) : Db :=
  { db with
    invoices := db.invoices.mapRows (·.terminateResource planComponents resource now) (fun inv => by
      unfold Invoice.terminateResource
      split <;> rfl) }

/-- `_terminate`. -/
def terminate (resource : BilledResource) (now : Instant) (db : Db) : Except BillingError Db := do
  let opened ← org.getOrCreateInvoice now none db
  .ok (terminateItems planComponents resource.ref now opened.1)

/-- `handle_resource_termination`. -/
def handleResourceTermination (resource : BilledResource) (now : Instant) (db : Db) : Db × Option BillingError :=
  leave db (org.terminate planComponents resource now db)

/-- `handle_plan_change`. -/
def handlePlanChange (resource : BilledResource) (now : Instant) (db : Db) : Db × Option BillingError :=
  match leave db (org.terminate planComponents resource now db) with
  | (db, some e) => (db, some e)
  | (db, none) => leave db (org.register resource now .update db)

/-! ## Usage -/

/-- `_create_or_update_usage_invoice_item`. -/
def createOrUpdateUsageInvoiceItem (ctx : UsageContext) (component : OfferingComponent) (usage : ℚ) (isOverage : Bool)
    (db : Db) : Db × Option BillingError :=
  match org.openInvoice (ctx.month.firstDay * dayLength) none db with
  | (db, .error e) => (db, some e)
  | (db, .ok invoice) =>
    ({ db with
      invoices := db.invoices.update invoice.id
        (fun inv => { ctx.createOrUpdate component usage isOverage db.nextUuid inv with id := inv.id }) (fun _ => rfl)
      nextUuid := db.nextUuid + 1 }, none)

end Organization

/-! ## Monthly components -/

section Month

variable {resource : BilledResource} {component : OfferingComponent} {componentType : String}
variable {now : Instant} {q : ℚ} {inv : Invoice} {plan : Plan} {item : InvoiceItem}

/-- The update where the lookup finds one item. -/
theorem updateInvoiceItem_of_single {resource : MarketplaceResource} {month : BillingMonth}
    (hplan : resource.plan = some plan)
    (hitem : inv.items.filter (isLimitItem resource.ref.id componentType plan.uuid) = [item]) :
    updateInvoiceItem resource componentType month now q inv =
      match item.details.resourceLimitPeriods.getLast? with
      | none => .error .popFromEmptyList
      | some oldPeriod =>
        if oldPeriod.quantity = convertQuantity q resource.offeringType componentType then .ok inv
        else
          match plan.component? componentType with
          | none => .error .doesNotExist
          | some _ =>
            .ok (replaceItem inv (isLimitItem resource.ref.id componentType plan.uuid)
              (reviseItem plan.unit month.stop now oldPeriod
                (convertQuantity q resource.offeringType componentType) item)
              (reviseItem_wellAttributed (inv.attributed item (mem_of_filter_eq hitem)))) := by
  unfold updateInvoiceItem
  rw [hplan]
  dsimp only
  split
  · next h => simp [hitem] at h
  · next h => simp [hitem] at h
  · next item' hitem' =>
    obtain rfl : item = item' := List.singleton_inj.mp (hitem.symm.trans hitem')
    rfl

/-- **A monthly component** is updated as `updateInvoiceItem` does it, to the end of the month. -/
theorem updateLimitItem_month (hcomponent : resource.offeringComponent? componentType = some component)
    (hperiod : (resolved resource component).limitPeriod = some .month) :
    updateLimitItem resource componentType now q inv =
      (updateInvoiceItem resource.toMarketplaceResource componentType now.month now q inv).mapError .lookup := by
  cases hplan : resource.plan with
  | none =>
    unfold updateLimitItem updateInvoiceItem
    rw [hplan]
    rfl
  | some plan =>
    have hplan' : resource.toMarketplaceResource.plan = some plan := hplan
    unfold resolved at hperiod
    rw [hplan, Option.map_some] at hperiod
    unfold updateLimitItem
    rw [hplan]
    dsimp only
    split
    · next h =>
      unfold updateInvoiceItem
      rw [hplan']
      dsimp only
      split <;> simp_all [Except.mapError]
    · next h =>
      unfold updateInvoiceItem
      rw [hplan']
      dsimp only
      split <;> simp_all [Except.mapError]
    · next item hitem =>
      rw [updateInvoiceItem_of_single hplan' hitem]
      cases item.details.resourceLimitPeriods.getLast? with
      | none => rfl
      | some oldPeriod =>
        dsimp only
        split
        · rfl
        · rw [hcomponent]
          dsimp only
          rw [hperiod]
          cases plan.component? componentType <;> rfl

end Month

end Waldur.Marketplace
