import Mathlib
import Waldur.Policies.Costs

/-!
# Policies.Preflight — the check before a resource is created

`validate_resource_creation_against_cost_policies` of `policy/handlers.py` evaluates the conditions of the
cost policies a second time, with the cost of the new resource added.
-/

namespace Waldur.Policies

open Invoices Relational

/-- What the check reads of the resource that is to be created. -/
structure NewResource where
  project : Invoices.Project
  offering : ℕ

/-- `PolicyException`: the policy and the projected cost of its message. -/
inductive PolicyException
  | project (policy : ProjectEstimatedCostPolicy) (projectedCost : ℚ)
  | customer (policy : CustomerEstimatedCostPolicy) (projectedCost : ℚ)
  | offering (policy : OfferingEstimatedCostPolicy) (projectedCost : ℚ)

/-- `_period_months`. -/
def periodMonths (p : EstimatedCostPolicy) : ℕ :=
  (([(.month1, 1), (.month3, 3), (.month12, 12)] : List (Period × ℕ)).lookup p.period).getD 0

/-- `_existing_total`. -/
def existingTotal (w : World) (items : List (Invoice × InvoiceItem)) (p : EstimatedCostPolicy) : ℚ :=
  ((((items.filter fun row => w.activeCustomer row.1.customer).filter fun row => row.1.state != .canceled).filter
    (monthsFilter w.today (periodMonths p))).map itemTotal).sum

/-- The body of the loop of `_check_project_policies`. -/
def checkProjectPolicy (w : World) (project : Invoices.Project) (cost : ℚ) (policy : ProjectEstimatedCostPolicy) :
    Except PolicyException Unit :=
  let existing := existingTotal w (w.invoiceItems.filter fun row => row.2.project == some project) policy.toEstimatedCostPolicy
  let compensation :=
    if policy.useCredit then getProjectCompensation (w.monthlyCompensation project.customer) project else 0
  let projected := existing + cost
  if projected - compensation ≤ policy.limitCost then .ok ()
  else
    let covered :=
      policy.useCredit &&
        match w.db.projectCredit? project with
        | some projectCredit => decide ((policy.limitCost : ℚ) < projectCredit.value)
        | none => (w.db.customerCredit? project.customer).any fun customerCredit =>
            decide ((policy.limitCost : ℚ) < customerCredit.value)
    if covered then .ok () else .error (.project policy (projected - compensation))

/-- `_check_project_policies`. -/
def checkProjectPolicies (w : World) (resource : NewResource) (cost : ℚ) : Except PolicyException Unit :=
  (w.policies.filterMap fun
    | .project p => if p.scope = resource.project ∧ .blockCreationOfNewResources ∈ p.actions ∧ p.resource = none
        then some p else none
    | _ => none).forM (checkProjectPolicy w resource.project cost)

/-- The body of the loop of `_check_customer_policies`. -/
def checkCustomerPolicy (w : World) (customer : ℕ) (cost : ℚ) (policy : CustomerEstimatedCostPolicy) :
    Except PolicyException Unit :=
  let existing := existingTotal w (w.invoiceItems.filter fun row => row.1.customer == customer) policy.toEstimatedCostPolicy
  let compensation := (w.monthlyCompensation customer).totalCompensation
  let projected := existing + cost
  if projected - compensation ≤ policy.limitCost then .ok ()
  else if (w.db.customerCredit? customer).any fun customerCredit =>
      decide ((policy.limitCost : ℚ) < customerCredit.value) then .ok ()
  else .error (.customer policy (projected - compensation))

/-- `_check_customer_policies`. -/
def checkCustomerPolicies (w : World) (resource : NewResource) (cost : ℚ) : Except PolicyException Unit :=
  (w.policies.filterMap fun
    | .customer p => if p.scope = resource.project.customer ∧ .blockCreationOfNewResources ∈ p.actions
        then some p else none
    | _ => none).forM (checkCustomerPolicy w resource.project.customer cost)

/-- The groups of the policy that a customer is in: one joined row for each. -/
def World.joinedGroups (w : World) (groups : List ℕ) (customer : ℕ) : List ℕ :=
  ((w.customers.get? customer).map fun c => c.organizationGroups.filter groups.contains).getD []

/-- The body of the loop of `_check_offering_policies`. -/
def checkOfferingPolicy (w : World) (resource : NewResource) (cost : ℚ) (policy : OfferingEstimatedCostPolicy) :
    Except PolicyException Unit :=
  if !policy.applyToAll && !w.inGroups policy.organizationGroups resource.project.customer then .ok ()
  else
    let ofOffering := w.invoiceItems.filter fun row => row.2.resource.any fun r => r.offering == resource.offering
    let items :=
      if policy.applyToAll then ofOffering.filter fun row => w.activeCustomer row.1.customer
      -- the join over the groups is not made distinct
      else ofOffering.flatMap fun row =>
        (w.joinedGroups policy.organizationGroups row.1.customer).map fun _ => row
    let existing := existingTotal w items policy.toEstimatedCostPolicy
    let projected := existing + cost
    if (policy.limitCost : ℚ) < projected then .error (.offering policy projected) else .ok ()

/-- `_check_offering_policies`. -/
def checkOfferingPolicies (w : World) (resource : NewResource) (cost : ℚ) : Except PolicyException Unit :=
  (w.policies.filterMap fun
    | .offering p => if p.scope = resource.offering ∧ .blockCreationOfNewResources ∈ p.actions
        then some p else none
    | _ => none).forM (checkOfferingPolicy w resource cost)

/-- `validate_resource_creation_against_cost_policies`. -/
def validateResourceCreation (w : World) (resource : NewResource) (cost : ℚ) : Except PolicyException Unit := do
  checkProjectPolicies w resource cost
  checkCustomerPolicies w resource cost
  checkOfferingPolicies w resource cost

/-- The check raises because of this policy: it raises where the policy is the only one. -/
def RaisesBecauseOf (w : World) (resource : NewResource) (cost : ℚ) (policy : CostPolicy) : Prop :=
  ∃ e, validateResourceCreation { w with policies := [policy] } resource cost = .error e

end Waldur.Policies
