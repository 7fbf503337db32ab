import Mathlib
import Waldur.Marketplace.LimitQuantity

/-!
# Marketplace.BillingUsage — invoice items of reported usage

`BillingUsageProcessor`: a usage report of a component is billed on one item of the month's invoice, which
it creates or updates.  Usage of a prepaid component is covered by the prepaid balance, and what exceeds it
is billed on the item of the overage component.
-/

namespace Waldur.Marketplace

open Calendar Clock Invoices

/-- `convert_quantity` of a usage, with the billing type. -/
def convertUsage (usage : ℚ) (offeringType componentType : String) (billingType : BillingType) : ℚ :=
  if offeringType = "SlurmInvoices.SlurmPackage" then convertSlurmUsage usage componentType
  else if offeringType = "OpenStack.Tenant" then
    let result := if componentType = "storage" ∨ componentType = "ram" then usage / 1024 else usage
    if billingType = .usage then Decimal.quantizeHalfEven 2 result else truncate result
  else usage

/-! ## Plan periods and usage rows -/

/-- `ResourcePlanPeriod`. -/
structure PlanPeriod where
  uuid : ℕ
  resource : ℕ
  plan : Plan
  start : Option Instant := none
  stop : Option Instant := none

/-- The period overlaps the month. -/
def PlanPeriod.overlaps (period : PlanPeriod) (month : BillingMonth) : Bool :=
  period.start.all (fun start => decide (start ≤ month.stop)) &&
    period.stop.all (fun stop => decide (month.firstDay * dayLength ≤ stop))

/-- `_periods_of_month`. -/
def periodsOfMonth (planPeriods : List PlanPeriod) (planPeriod : PlanPeriod) (month : BillingMonth) :
    List PlanPeriod :=
  planPeriods.filter (fun period => period.resource == planPeriod.resource && period.overlaps month)

/-- `_is_only_plan_period_of_month`. -/
def isOnlyPlanPeriodOfMonth (planPeriods : List PlanPeriod) (planPeriod : PlanPeriod) (month : BillingMonth) : Bool :=
  ((periodsOfMonth planPeriods planPeriod month).filter (fun period => period.uuid != planPeriod.uuid)).isEmpty

structure ComponentUsage where
  id : ℕ
  component : ℕ
  date : Instant
  usage : ℚ

/-! ## The prepaid balance -/

/-- `instant + relativedelta(months=k)`. -/
def addMonths (t : Instant) (k : ℕ) : Instant := midnight (t.date.addMonths k) + timeOfDay t

/-- The whole months of `relativedelta(now, created)`. -/
def monthsSince (now created : Instant) : ℕ :=
  let months := (now.date.year * 12 + now.date.month) - (created.date.year * 12 + created.date.month)
  if addMonths created months ≤ now then months else months - 1

/-- `period_start` and `period_end` of `get_prepaid_balance`. -/
def prepaidPeriod (limitPeriod : LimitPeriods) (resource : BilledResource) (now : Instant) : Instant × Instant :=
  let months := monthsSince now resource.created
  match limitPeriod with
  | .month =>
    let start := addMonths resource.created months
    (start, addMonths start 1 - 1)
  | .quarterly =>
    let start := addMonths resource.created (months / 3 * 3)
    (start, addMonths start 3 - 1)
  | .annual =>
    let start := addMonths resource.created (months / 12 * 12)
    (start, addMonths start 12 - 1)
  | .total => (resource.created, (resource.endDate.map midnight).getD now)

def getPrepaidBalance (resource : BilledResource) (component : OfferingComponent) (usages : List ComponentUsage)
    (excluded : List ℕ) (now : Instant) : ℕ :=
  match resource.limit? component.type with
  | none => 0
  | some initialQuota =>
    if initialQuota ≤ 0 then 0
    else
      match component.limitPeriod with
      | none => 0
      | some limitPeriod =>
        let period := prepaidPeriod limitPeriod resource now
        let counted := usages.filter (fun u =>
          u.component == component.id && decide (period.1 ≤ u.date) && decide (u.date ≤ period.2) &&
            !excluded.contains u.id)
        (truncate (initialQuota - (counted.map (·.usage)).sum)).toNat

/-! ## The item of a usage report -/

/-- The items that may bill the usage of a component: no compensations, no discounts. -/
def isUsageCandidate (resource : ℕ) (componentType : String) (it : InvoiceItem) : Bool :=
  it.resource.any (fun r => r.id == resource) && it.details.offeringComponentType == some componentType &&
    decide (0 ≤ it.unitPrice)

/-- What a usage report is billed under, besides the amount. -/
structure UsageContext where
  resource : BilledResource
  planPeriods : List PlanPeriod
  planPeriod : PlanPeriod
  month : BillingMonth

namespace UsageContext

variable (ctx : UsageContext)

/-- `same_plan_periods or [plan_period.uuid.hex]`. -/
def samePlanPeriods : List ℕ :=
  let samePlan := (periodsOfMonth ctx.planPeriods ctx.planPeriod ctx.month).filter (fun period =>
    period.plan.uuid == ctx.planPeriod.plan.uuid)
  if samePlan.isEmpty then [ctx.planPeriod.uuid] else samePlan.map (·.uuid)

/-- Keyed to a period of the same plan. -/
def isKeyed (componentType : String) (it : InvoiceItem) : Bool :=
  isUsageCandidate ctx.resource.ref.id componentType it &&
    it.details.planPeriodUuid.any (fun uuid => ctx.samePlanPeriods.contains uuid)

/-- A usage item that carries no plan period. -/
def isLegacy (componentType : String) (it : InvoiceItem) : Bool :=
  isUsageCandidate ctx.resource.ref.id componentType it && it.details.planPeriodUuid.isNone &&
    it.details.resourceLimitPeriods.isEmpty

/-- The item that a report is billed on, if there is one. -/
def findItem (componentType : String) (items : List InvoiceItem) : Option InvoiceItem :=
  match items.find? (ctx.isKeyed componentType) with
  | some it => some it
  | none =>
    match items.find? (fun it => ctx.isLegacy componentType it &&
        it.details.planUuid == some ctx.planPeriod.plan.uuid) with
    | some it => some it
    | none =>
      if isOnlyPlanPeriodOfMonth ctx.planPeriods ctx.planPeriod ctx.month then
        items.find? (ctx.isLegacy componentType)
      else none

/-- `converted_usage`. -/
def convertedUsage (component : OfferingComponent) (usage : ℚ) : ℚ :=
  convertUsage usage ctx.resource.offeringType component.type
    (resolveComponent component (some ctx.planPeriod.plan.billingMode)).billingType

/-- The item with its quantity set anew. -/
def updatedItem (component : OfferingComponent) (usage : ℚ) (isOverage : Bool) (it : InvoiceItem) : InvoiceItem :=
  { it with
    quantity := ctx.convertedUsage component usage
    details :=
      { it.details with
        planPeriodUuid := some ctx.planPeriod.uuid
        discountUsage :=
          if (ctx.planPeriod.plan.component? component.type).isSome && !isOverage then
            some (ctx.convertedUsage component usage)
          else it.details.discountUsage } }

/-- A new item; a component that the plan does not price costs 0. -/
def createdItem (uuid : ℕ) (component : OfferingComponent) (usage : ℚ) (isOverage : Bool) : InvoiceItem where
  uuid := uuid
  unitPrice := ((ctx.planPeriod.plan.component? component.type).map (·.price)).getD 0
  quantity := ctx.convertedUsage component usage
  unit := .quantity
  resource := some ctx.resource.ref
  planComponent := (ctx.planPeriod.plan.component? component.type).map (·.id)
  project := some ctx.resource.ref.project
  start := (ctx.planPeriod.start.map (max (ctx.month.firstDay * dayLength))).getD (ctx.month.firstDay * dayLength)
  stop := (ctx.planPeriod.stop.map (min ctx.month.stop)).getD ctx.month.stop
  details :=
    { offeringComponentType := some component.type
      planUuid := some ctx.planPeriod.plan.uuid
      planComponentId := (ctx.planPeriod.plan.component? component.type).map (·.id)
      planPeriodUuid := some ctx.planPeriod.uuid
      isOverage := isOverage
      discountUsage :=
        if !isOverage && (ctx.planPeriod.plan.component? component.type).isSome then
          some (ctx.convertedUsage component usage)
        else none }

theorem findItem_mem {componentType : String} {items : List InvoiceItem} {it : InvoiceItem}
    (h : ctx.findItem componentType items = some it) : it ∈ items := by
  unfold findItem at h
  split at h
  · next heq =>
    cases h
    exact List.mem_of_find?_eq_some heq
  · split at h
    · next heq =>
      cases h
      exact List.mem_of_find?_eq_some heq
    · split at h
      · exact List.mem_of_find?_eq_some h
      · cases h

/-- `_create_or_update_usage_invoice_item` on the invoice of the month. -/
def createOrUpdate (component : OfferingComponent) (usage : ℚ) (isOverage : Bool) (nextUuid : ℕ) (inv : Invoice) :
    Invoice :=
  if !inv.state.isMutable then inv
  else
    match h : ctx.findItem component.type inv.items with
    | some it =>
      replaceItem inv (fun it' => it'.uuid == it.uuid) (ctx.updatedItem component usage isOverage it)
        (inv.attributed it (ctx.findItem_mem h))
    | none => inv.bulkCreate [ctx.createdItem nextUuid component usage isOverage]

end UsageContext

/-! ## Reports -/

/-- A row of `ComponentUsage` of an invoiced month, and what its billing reads.  A report is accepted for a
plan period of the resource that overlaps the month. -/
structure UsageRow extends UsageContext where
  id : ℕ
  component : OfferingComponent
  usages : List ComponentUsage
  period_mem : planPeriod ∈ planPeriods
  period_overlaps : planPeriod.overlaps month = true

namespace UsageRow

variable (row : UsageRow)

/-- The prepaid balance without the row itself. -/
def balance (now : Instant) : ℕ := getPrepaidBalance row.resource row.component row.usages [row.id] now

/-- `_process_prepaid_usage`. -/
def processPrepaidUsage (usage : ℚ) (now : Instant) (nextUuid : ℕ) (inv : Invoice) : Invoice :=
  let reportedUsage := truncate usage
  let prepaidBalance := row.balance now
  if reportedUsage ≤ prepaidBalance then inv
  else
    let overageAmount : ℤ := reportedUsage - prepaidBalance
    match row.component.overageComponent.bind (fun id =>
        row.resource.offeringComponents.find? (fun component => component.id == id)) with
    | none => inv
    | some overageComponent => row.createOrUpdate overageComponent overageAmount true nextUuid inv

/-- `_run_billing`. -/
def runBilling (usage : ℚ) (now : Instant) (nextUuid : ℕ) (inv : Invoice) : Invoice :=
  let effective := resolveComponent row.component (some row.planPeriod.plan.billingMode)
  if effective.isPrepaid then row.processPrepaidUsage usage now nextUuid inv
  else if effective.billingType = .usage then row.createOrUpdate row.component usage false nextUuid inv
  else inv

end UsageRow

end Waldur.Marketplace
