import Mathlib
import Waldur.Lib.TableCounts
import Waldur.Marketplace.TotalLimit
import Waldur.Marketplace.BillingUsage
import Waldur.Marketplace.ResourceTermination

/-!
# Marketplace.Billing — invoice items of a resource, from its creation on

`MarketplaceBillingService`: the invoice of a month is created with the items of every billed resource of
the organization, and a resource that is created or switched later in the month is added to it.  Limit
components are billed by their limit period, the others as their billing type says.
-/

namespace Waldur.Marketplace

open Calendar Clock Invoices Relational

/-- `OrderTypes`, the ones that billing tells apart. -/
inductive OrderType
  | create
  | update
deriving DecidableEq, Repr

/-- What billing raises. -/
inductive BillingError
  | valueError
  | attributeError
  | lookup (error : UpdateError)
deriving DecidableEq, Repr

/-- An organization with its resources, in query order, and the price that campaigns leave of a unit price in
a month; `none` is an error in `get_discount_for_resource`.  A plan prices a component at most once. -/
structure Organization where
  id : ℕ
  taxPercent : ℚ
  resources : List BilledResource
  discountedUnitPrice : Resource → ℕ → ℕ → ℚ → Option ℚ
  tax_nonneg : 0 ≤ taxPercent
  owned : ∀ r ∈ resources, r.ref.project.customer = id
  distinct : (resources.map (·.ref.id)).Nodup
  pricedOnce : ∀ r ∈ resources, ∀ plan, r.plan = some plan → (plan.components.map (·.componentType)).Nodup

/-! ## Billing periods -/

/-- `datetime.replace(year=year)`: there is no 29 February in most years, and no year 0. -/
def replaceYear (t : Instant) (year : ℕ) : Except BillingError Instant :=
  if h : 1 ≤ year ∧ t.date.day ≤ monthDays year t.date.month then
    .ok (midnight ⟨year, t.date.month, t.date.day, month_valid_date t, t.date.day_valid.1, h.2⟩ + timeOfDay t)
  else .error .valueError

/-- `get_quarter_end`. -/
def quarterEnd (d : Date) : Instant :=
  midnight ⟨d.year, (d.month - 1) / 3 * 3 + 3, monthDays d.year ((d.month - 1) / 3 * 3 + 3),
    by have := d.month_valid; omega, one_le_monthDays _ _, le_refl _⟩ + (dayLength - 1)

/-- `_get_billing_period` of a resource. -/
def getBillingPeriod (limitPeriod : Option LimitPeriods) (date created : Instant) :
    Except BillingError (Instant × Instant) :=
  match limitPeriod with
  | some .quarterly => .ok (quarterStart (quarterOf date.date), quarterEnd date.date)
  | some .annual => do
    let anniversaryThisYear ← replaceYear created date.date.year
    let start ← (if date < anniversaryThisYear then replaceYear created (date.date.year - 1)
      else .ok anniversaryThisYear : Except BillingError Instant)
    let next ← replaceYear start (start.date.year + 1)
    .ok (start, next - second)
  | _ => .ok (monthStart date, monthEnd date)

/-- `_should_process_billing` of a resource. -/
def shouldProcessBilling (limitPeriod : Option LimitPeriods) (date created : Instant) : Bool :=
  match limitPeriod with
  | some .quarterly => [1, 4, 7, 10].contains date.date.month
  | some .annual => date.date.month == created.date.month
  | _ => true

/-- The months of `relativedelta(stop, start)` from an earlier date, a started month as a whole one. -/
def startedMonths (start stop : Date) : ℕ :=
  let months := (stop.year * 12 + stop.month) - (start.year * 12 + start.month)
  let months := if stop < start.addMonths months then months - 1 else months
  if start.addMonths months < stop then months + 1 else months

/-- `calculate_duration_months`. -/
def calculateDurationMonths (start stop : Date) : ℕ := if stop < start then 1 else max 1 (startedMonths start stop)

/-! ## Limit components -/

section

variable (resource : BilledResource) (plan : Plan) (pc : PlanComponent)

/-- A new item on an invoice. -/
def createItem (invoice : ℕ) (item : ℕ → InvoiceItem) (db : Db) : Db :=
  { db with
    invoices := db.invoices.update invoice (·.bulkCreate [item db.nextUuid]) (fun inv => inv.bulkCreate_id _)
    nextUuid := db.nextUuid + 1 }

/-- The item of a limit component. -/
def limitItem (isTotalLimit : Bool) (start stop : Instant) (quantity : ℚ) (uuid : ℕ) : InvoiceItem where
  uuid := uuid
  unitPrice := pc.price
  quantity := if isTotalLimit then quantity else getTotalQuantity plan.unit quantity start stop
  unit := if isTotalLimit then .quantity else plan.unit
  resource := some resource.ref
  planComponent := some pc.id
  project := some resource.ref.project
  start := start
  stop := stop
  details :=
    { offeringComponentType := some pc.componentType
      planUuid := some plan.uuid
      planComponentId := some pc.id
      discountUsage := some quantity
      resourceLimitPeriods := [serializeResourceLimitPeriod start stop quantity]
      limitPeriod := if isTotalLimit then some .total else none }

/-- The component has been billed for the resource, on any invoice. -/
def isBilled (db : Db) (componentType : String) : Bool :=
  db.invoices.rows.any (fun inv => inv.items.any (fun it =>
    it.resource.any (fun r => r.id == resource.ref.id) && it.details.offeringComponentType == some componentType))

/-- The limit that an item is created for: neither absent nor 0 nor -1. -/
def billableLimit (componentType : String) : Option ℚ :=
  (resource.limit? componentType).filter (fun limit => decide (limit ≠ 0 ∧ limit ≠ -1))

/-- `_create_invoice_item`. -/
def createInvoiceItem (effective : EffectiveComponent) (invoice : ℕ) (start stop : Instant) (db : Db) : Db :=
  let isTotalLimit := effective.billingType == .limit && effective.limitPeriod == some .total
  if isTotalLimit && isBilled resource db pc.componentType then db
  else
    match billableLimit resource pc.componentType with
    | none => db
    | some limit =>
      let quantity := convertQuantity limit resource.offeringType pc.componentType
      let reopened :=
        if isTotalLimit then none
        else (db.invoices.get? invoice).bind
          (reopenClosedItem resource.ref.id pc.componentType plan.uuid start stop quantity)
      match reopened with
      | some inv =>
        { db with invoices := db.invoices.update invoice (fun inv₀ => { inv with id := inv₀.id }) (fun _ => rfl) }
      | none => createItem invoice (limitItem resource plan pc isTotalLimit start stop quantity) db

/-- `LimitPeriodProcessor.process_creation`. -/
def processCreation (effective : EffectiveComponent) (invoice : ℕ) (start stop : Instant)
    (orderType : Option OrderType) (db : Db) : Except BillingError Db :=
  if effective.limitPeriod = some .total then
    .ok (if orderType = some .create then createInvoiceItem resource plan pc effective invoice start stop db else db)
  else if !shouldProcessBilling effective.limitPeriod start resource.created then .ok db
  else if effective.limitPeriod = some .quarterly ∨ effective.limitPeriod = some .annual then do
    let period ← getBillingPeriod effective.limitPeriod start resource.created
    .ok (createInvoiceItem resource plan pc effective invoice period.1 period.2 db)
  else .ok (createInvoiceItem resource plan pc effective invoice start stop db)

/-! ## Simple components -/

/-- The item of a simple component. -/
def simpleItem (unitPrice quantity volume : ℚ) (unit : Units) (start stop : Instant) (uuid : ℕ) : InvoiceItem where
  uuid := uuid
  unitPrice := unitPrice
  quantity := quantity
  unit := unit
  resource := some resource.ref
  planComponent := some pc.id
  project := some resource.ref.project
  start := start
  stop := stop
  details :=
    { offeringComponentType := some pc.componentType
      planUuid := some plan.uuid
      planComponentId := some pc.id
      discountUsage := some volume }

/-- A limit of a prepaid component in the units that it is sold in. -/
def prepaidVolume (componentType : String) : ℚ :=
  (resource.limit? componentType).getD 0 / (resource.componentFactors.lookup componentType).getD 1

/-- Charged when an invoice or an order of that type is processed. -/
def isCharged (effective : EffectiveComponent) (orderType : Option OrderType) : Bool :=
  effective.billingType == .fixed || effective.billingType == .oneTime && orderType == some .create ||
    effective.billingType == .onPlanSwitch && orderType == some .update

/-- The price of a unit before campaigns: a fixed component is priced by its amount. -/
def simpleUnitPrice (effective : EffectiveComponent) : ℚ :=
  if effective.billingType = .fixed then pc.price * pc.amount else pc.price

/-- `_process_simple_billing_component`. -/
def processSimpleBillingComponent (org : Organization) (effective : EffectiveComponent) (invoice : Invoice)
    (start stop : Instant) (orderType : Option OrderType) (db : Db) : Except BillingError Db :=
  if !isCharged effective orderType then .ok db
  else
    match org.discountedUnitPrice resource.ref invoice.year invoice.month (simpleUnitPrice pc effective) with
    | none => .error .valueError
    | some unitPrice =>
      let volume := prepaidVolume resource pc.componentType
      .ok (createItem invoice.id
        (if effective.billingType = .fixed then
          simpleItem resource plan pc unitPrice (getQuantity plan.unit start stop) pc.amount plan.unit start stop
        else if effective.billingType = .oneTime ∧ effective.isPrepaid = true then
          let months := (resource.endDate.map (calculateDurationMonths start.date)).getD 1
          simpleItem resource plan pc unitPrice (volume * months) volume .quantity start stop
        else simpleItem resource plan pc unitPrice pc.amount pc.amount .quantity start stop) db)

end

/-! ## Invoices -/

/-- One component of `_process_resource`. -/
def processComponent (org : Organization) (resource : BilledResource) (plan : Plan) (invoice : Invoice)
    (start stop : Instant) (orderType : Option OrderType) (db : Db) (pc : PlanComponent) : Except BillingError Db :=
  match resource.offeringComponent? pc.componentType with
  | none => .ok db
  | some component =>
    let effective := resolveComponent component (some plan.billingMode)
    if effective.billingType = .limit then
      processCreation resource plan pc effective invoice.id start stop orderType db
    else processSimpleBillingComponent resource plan pc org effective invoice start stop orderType db

/-- `_process_resource`. -/
def processResource (org : Organization) (invoice : Invoice) (start stop : Instant) (orderType : Option OrderType)
    (db : Db) (resource : BilledResource) : Except BillingError Db :=
  match resource.plan with
  | none => .ok db
  | some plan =>
    if !resource.billable then .ok db
    else plan.components.foldlM (processComponent org resource plan invoice start stop orderType) db

/-- A key that no invoice has. -/
def nextInvoice (db : Db) : ℕ := (db.invoices.rows.map Invoice.id).foldr max 0 + 1

theorem get?_nextInvoice (db : Db) : db.invoices.get? (nextInvoice db) = none := db.invoices.get?_freshId

namespace Organization

variable (org : Organization)

/-- The resources that a new invoice bills. -/
def billedResources : List BilledResource :=
  org.resources.filter (fun r => !(r.state == .creating || r.state == .terminated) && r.billable)

/-- The invoice of the month of an instant. -/
def findInvoice (date : Instant) (db : Db) : Option Invoice :=
  db.invoices.rows.find? (fun inv =>
    inv.customer == org.id && inv.year == date.date.year && inv.month == date.date.month)

def newInvoice (date : Instant) (db : Db) : Invoice where
  id := nextInvoice db
  customer := org.id
  year := date.date.year
  month := date.date.month
  taxPercent := org.taxPercent
  items := []
  month_valid := month_valid_date date
  tax_nonneg := org.tax_nonneg
  attributed := fun _ h => absurd h List.not_mem_nil

/-- `get_or_create_invoice`; the third component says whether the invoice was created. -/
def getOrCreateInvoice (date : Instant) (orderType : Option OrderType) (db : Db) :
    Except BillingError (Db × Invoice × Bool) :=
  match org.findInvoice date db with
  | some invoice => .ok (db, invoice, false)
  | none => do
    let invoice := org.newInvoice date db
    let created := { db with invoices := db.invoices.insert invoice (get?_nextInvoice db) }
    let billed ← org.billedResources.foldlM (processResource org invoice date (monthEnd date) orderType) created
    .ok (billed, invoice, true)

/-- `_register`. -/
def register (resource : BilledResource) (now : Instant) (orderType : OrderType) (db : Db) :
    Except BillingError Db := do
  let (db, invoice, created) ← org.getOrCreateInvoice now (some orderType) db
  if created then .ok db
  else processResource org invoice now (monthEnd now) (some orderType) db resource

end Organization

end Waldur.Marketplace
