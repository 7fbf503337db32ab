import Mathlib
import Waldur.Marketplace.Models

/-!
# Marketplace.BillingMode — how a component is billed under a plan

`billing_mode.resolve_component`: a plan may bill the builtin components of its offering by limits or by
usage instead of the way the component says.  A plan component is read through its key, as invoice items
hold it.
-/

namespace Waldur.Marketplace

open Invoices

/-- `BillingTypes`. -/
inductive BillingType
  | fixed
  | usage
  | oneTime
  | onPlanSwitch
  | limit
deriving DecidableEq, Repr

structure OfferingComponent where
  id : ℕ
  type : String
  billingType : BillingType
  limitPeriod : Option LimitPeriods := none
  isPrepaid : Bool := false
  billedPerPlan : Bool := false
  overageComponent : Option ℕ := none
deriving DecidableEq, Repr

/-- An offering component as it is billed under one plan. -/
structure EffectiveComponent where
  billingType : BillingType
  isPrepaid : Bool
  limitPeriod : Option LimitPeriods
deriving DecidableEq, Repr

/-- `_own_values`. -/
def ownValues (component : OfferingComponent) : EffectiveComponent :=
  ⟨component.billingType, component.isPrepaid, component.limitPeriod⟩

/-- `resolve_component`, by the billing mode of the plan, if there is one. -/
def resolveComponent (component : OfferingComponent) (mode : Option BillingMode) : EffectiveComponent :=
  match mode with
  | none => ownValues component
  | some .inherit => ownValues component
  | some .limit => if !component.billedPerPlan then ownValues component else ⟨.limit, false, some .month⟩
  | some .usage => if !component.billedPerPlan then ownValues component else ⟨.usage, false, component.limitPeriod⟩

namespace EffectiveComponent

variable (effective : EffectiveComponent)

/-- Billed again every period: fixed, or a limit that is not a one-time total. -/
def isRecurring : Bool :=
  effective.billingType == .fixed || effective.billingType == .limit && effective.limitPeriod != some .total

end EffectiveComponent

/-- The component and the billing mode of the plan that a plan component belongs to. -/
structure PlanComponentLink where
  component : Option OfferingComponent
  billingMode : BillingMode
deriving DecidableEq, Repr

/-- A resource with the columns of its offering that billing reads; an absent limit has no entry. -/
structure BilledResource extends MarketplaceResource where
  billable : Bool := true
  offeringComponents : List OfferingComponent
  componentFactors : List (String × ℚ) := []
  limits : List (String × ℚ)
  created : Instant
  endDate : Option Calendar.Date := none

namespace BilledResource

variable (resource : BilledResource)

/-- `offering.components.get(type=component_type)`. -/
def offeringComponent? (componentType : String) : Option OfferingComponent :=
  resource.offeringComponents.find? (fun component => component.type == componentType)

/-- `limits.get(component_type)`. -/
def limit? (componentType : String) : Option ℚ := resource.limits.lookup componentType

end BilledResource

end Waldur.Marketplace
