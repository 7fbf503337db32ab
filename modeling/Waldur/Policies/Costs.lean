import Mathlib
import Waldur.Invoices.Compensations
import Waldur.Policies.Models

/-!
# Policies.Costs — the estimated cost policies

`EstimatedCostPolicyMixin` and its three subclasses of `policy/models.py`: the cost of a scope over a
window of months, less the credit that will still be drawn this month, against a limit.  A queryset of
invoice items is a list of items with their invoices.
-/

namespace Waldur.Policies

open Invoices Calendar Relational

/-- `PeriodMixin.Periods`. -/
inductive Period
  | total
  | month1
  | month3
  | month12
deriving DecidableEq, Repr

/-- What the policies read of an organization. -/
structure Customer where
  id : ℕ
  blocked : Bool := false
  archived : Bool := false
  organizationGroups : List ℕ := []
  groups_nodup : organizationGroups.Nodup := by decide

/-- The columns of `EstimatedCostPolicyMixin`. -/
structure EstimatedCostPolicy where
  pk : ℕ
  period : Period := .month1
  limitCost : ℤ
  actions : List ActionName

structure ProjectEstimatedCostPolicy extends EstimatedCostPolicy where
  scope : Invoices.Project
  resource : Option Invoices.Resource := none
  useCredit : Bool := true

structure CustomerEstimatedCostPolicy extends EstimatedCostPolicy where
  scope : ℕ

structure OfferingEstimatedCostPolicy extends EstimatedCostPolicy where
  scope : ℕ
  organizationGroups : List ℕ := []
  applyToAll : Bool := false

inductive CostPolicy
  | project (policy : ProjectEstimatedCostPolicy)
  | customer (policy : CustomerEstimatedCostPolicy)
  | offering (policy : OfferingEstimatedCostPolicy)

/-- The invoices and credits, the organizations and the cost policies, on a day. -/
structure World where
  db : Db
  customers : Table ℕ Customer Customer.id
  policies : List CostPolicy
  today : Date

/-- `InvoiceItem.total`. -/
def itemTotal (row : Invoice × InvoiceItem) : ℚ := row.2.price + row.2.price * row.1.taxPercent / 100

/-- `InvoiceItem.objects.all()`. -/
def World.invoiceItems (w : World) : List (Invoice × InvoiceItem) :=
  w.db.invoices.rows.flatMap fun inv => inv.items.map fun it => (inv, it)

/-- `Customer.objects.filter(blocked=False, archived=False)`. -/
def World.activeCustomer (w : World) (customer : ℕ) : Bool :=
  (w.customers.get? customer).any fun c => !c.blocked && !c.archived

/-- The customer is in one of the groups. -/
def World.inGroups (w : World) (groups : List ℕ) (customer : ℕ) : Bool :=
  (w.customers.get? customer).any fun c => c.organizationGroups.any groups.contains

/-! ## `EstimatedCostPolicyMixin` -/

/-- The year and month `n` months before the current one. -/
def monthsBefore (today : Date) (n : ℕ) : ℕ × ℕ :=
  let months := today.year * 12 + (today.month - 1) - n
  (months / 12, months % 12 + 1)

/-- The filter over the months of a period; an empty filter keeps everything. -/
def monthsFilter (today : Date) (period : ℕ) (row : Invoice × InvoiceItem) : Bool :=
  period == 0 || (List.range period).any fun n => (row.1.year, row.1.month) == monthsBefore today n

/-- `_eligible_items`. -/
def World.eligibleItems (w : World) (items : List (Invoice × InvoiceItem)) : List (Invoice × InvoiceItem) :=
  items.filter fun row => w.activeCustomer row.1.customer && row.1.state != .canceled

/-- The rounding that `_scoped_cost` does in the database: `sign(v) * ceil(abs(v) * 100) / 100`. -/
def sqlQuantizedPrice (raw : ℚ) : ℚ :=
  (if raw < 0 then -1 else if raw = 0 then 0 else 1) * (⌈|raw| * 100⌉ : ℚ) / 100

/-- `_scoped_cost`: one row for each tax rate. -/
def scopedCost (items : List (Invoice × InvoiceItem)) : ℚ :=
  ((items.map fun row => row.1.taxPercent).dedup.map fun taxPercent =>
    ((items.filter fun row => row.1.taxPercent == taxPercent).map
      fun row => sqlQuantizedPrice (row.2.unitPrice * row.2.quantity)).sum * (1 + taxPercent / 100)).sum

/-- The number of months in `_evaluated_cost`. -/
def Period.months (p : Period) : ℕ :=
  if p = .month1 then 1 else if p = .month3 then 3 else if p = .month12 then 12 else 0

/-- `_evaluated_cost`. -/
def EstimatedCostPolicy.evaluatedCost (p : EstimatedCostPolicy) (w : World) (items : List (Invoice × InvoiceItem))
    (compensation : ℚ) : ℚ :=
  scopedCost ((w.eligibleItems items).filter (monthsFilter w.today p.period.months)) - compensation

/-- `_pending_compensation`. -/
def World.pendingCompensation (w : World) (items : List (Invoice × InvoiceItem)) (projected : ℚ) : ℚ :=
  if projected ≤ 0 then 0
  else
    let written := items.filter fun row =>
      row.1.year == w.today.year && row.1.month == w.today.month && row.2.credit.isSome
    max 0 (projected - -scopedCost written)

/-- `_is_triggered`, of a cost that has been evaluated. -/
def EstimatedCostPolicy.exceeds (p : EstimatedCostPolicy) (cost : ℚ) : Bool := decide ((p.limitCost : ℚ) < cost)

/-! ## The credit -/

/-- `MonthlyCompensation(customer)`, calculated. -/
def World.monthlyCompensation (w : World) (customer : ℕ) : MonthlyCompensation :=
  (MonthlyCompensation.init w.db customer none).calculateCurrentCompensations w.db w.today

/-- `get_project_compensation`. -/
def getProjectCompensation (mc : MonthlyCompensation) (project : Invoices.Project) : ℚ :=
  totalProjectCompensation mc.compensations project

/-- `get_resource_compensation`. -/
def getResourceCompensation (mc : MonthlyCompensation) (resource : Invoices.Resource) : ℚ :=
  ((mc.compensations.filter fun c => c.resource == some resource).map fun c => c.unitPrice * -1).sum

/-! ## The policies -/

namespace ProjectEstimatedCostPolicy

variable (p : ProjectEstimatedCostPolicy) (w : World)

/-- The items of `_cost_inputs`. -/
def items : List (Invoice × InvoiceItem) :=
  let items := w.invoiceItems.filter fun row => row.2.project == some p.scope
  match p.resource with
  | some resource => items.filter fun row => row.2.resource == some resource
  | none => items

/-- What the credit will draw for the scope this month. -/
def projected : ℚ :=
  let compensation := w.monthlyCompensation p.scope.customer
  match p.resource with
  | some resource => getResourceCompensation compensation resource
  | none => getProjectCompensation compensation p.scope

/-- The deduction of `_cost_inputs`. -/
def deduction : ℚ := if p.useCredit then w.pendingCompensation (p.items w) (p.projected w) else 0

/-- `get_current_cost`. -/
def currentCost : ℚ := p.evaluatedCost w (p.items w) (p.deduction w)

/-- `is_triggered`, of a cost that has been evaluated. -/
def triggeredAt (cost : ℚ) : Bool :=
  if !p.exceeds cost then false
  else if !p.useCredit then true
  else
    match w.db.projectCredit? p.scope with
    | some projectCredit => decide (projectCredit.value ≤ p.limitCost)
    | none =>
      match w.db.customerCredit? p.scope.customer with
      | some customerCredit => !decide ((p.limitCost : ℚ) < customerCredit.value)
      | none => true

/-- `is_triggered`. -/
def isTriggered : Bool := p.triggeredAt w (p.currentCost w)

end ProjectEstimatedCostPolicy

namespace CustomerEstimatedCostPolicy

variable (p : CustomerEstimatedCostPolicy) (w : World)

/-- The items of `_cost_inputs`. -/
def items : List (Invoice × InvoiceItem) := w.invoiceItems.filter fun row => row.1.customer == p.scope

/-- What the credit will draw for the organization this month. -/
def projected : ℚ := (w.monthlyCompensation p.scope).totalCompensation

/-- The deduction of `_cost_inputs`. -/
def deduction : ℚ := w.pendingCompensation (p.items w) (p.projected w)

/-- `get_current_cost`. -/
def currentCost : ℚ := p.evaluatedCost w (p.items w) (p.deduction w)

/-- `is_triggered`, of a cost that has been evaluated. -/
def triggeredAt (cost : ℚ) : Bool :=
  if !p.exceeds cost then false
  else
    match w.db.customerCredit? p.scope with
    | some customerCredit => !decide ((p.limitCost : ℚ) < customerCredit.value)
    | none => true

/-- `is_triggered`. -/
def isTriggered : Bool := p.triggeredAt w (p.currentCost w)

end CustomerEstimatedCostPolicy

namespace OfferingEstimatedCostPolicy

variable (p : OfferingEstimatedCostPolicy) (w : World)

/-- `resource__offering=self.scope`. -/
def offeringItems : List (Invoice × InvoiceItem) :=
  w.invoiceItems.filter fun row => row.2.resource.any fun r => r.offering == p.scope

/-- The items of `_cost_inputs`. -/
def items : List (Invoice × InvoiceItem) :=
  if p.applyToAll then (p.offeringItems w).filter fun row => w.activeCustomer row.1.customer
  else (p.offeringItems w).filter fun row =>
    w.inGroups p.organizationGroups row.1.customer && w.activeCustomer row.1.customer

/-- `get_current_cost`. -/
def currentCost : ℚ := p.evaluatedCost w (p.items w) 0

/-- `is_triggered`. -/
def isTriggered : Bool := p.exceeds (p.currentCost w)

end OfferingEstimatedCostPolicy

/-- `is_triggered` with the evaluated cost increased by `extra`. -/
def CostPolicy.triggeredWith (w : World) (extra : ℚ) : CostPolicy → Bool
  | .project p => p.triggeredAt w (p.currentCost w + extra)
  | .customer p => p.triggeredAt w (p.currentCost w + extra)
  | .offering p => p.exceeds (p.currentCost w + extra)

end Waldur.Policies
