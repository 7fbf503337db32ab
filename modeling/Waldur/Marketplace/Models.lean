import Mathlib
import Waldur.Invoices.Models

/-!
# Marketplace.Models — plans and resources as billing reads them

The columns of `marketplace/models.py` that the limit billing reads.  A discount formula is a function
of the aggregated usage that may fail; its language is not modelled.
-/

namespace Waldur.Marketplace

open Invoices

/-- `ResourceStates`. -/
inductive ResourceState
  | creating
  | ok
  | erred
  | updating
  | terminating
  | terminated
deriving DecidableEq, Repr

/-- `OrderStates`. -/
inductive OrderState
  | pendingConsumer
  | pendingProvider
  | pendingProject
  | pendingStartDate
  | executing
  | done
  | erred
  | canceled
  | rejected
deriving DecidableEq, Repr

/-- `DiscountAggregations`. -/
inductive DiscountAggregation
  | perResource
  | perCustomer
deriving DecidableEq, Repr

/-- `BillingModes`. -/
inductive BillingMode
  | inherit
  | limit
  | usage
deriving DecidableEq, Repr

/-- A plan component; its price carries `MinValueValidator(0)`.  The formula is `none` where it is empty,
its value is `none` where it raises `FormulaError`. -/
structure PlanComponent where
  id : ℕ
  componentType : String
  price : ℚ
  amount : ℚ := 0
  discountFormula : Option (ℚ → Option ℚ) := none
  discountAggregation : DiscountAggregation := .perCustomer
  price_nonneg : 0 ≤ price

structure Plan where
  uuid : ℕ
  unit : Units
  components : List PlanComponent
  billingMode : BillingMode := .inherit

/-- `plan.components.get(component__type=component_type)`; `none` is `ObjectDoesNotExist`. -/
def Plan.component? (plan : Plan) (componentType : String) : Option PlanComponent :=
  plan.components.find? (fun pc => pc.componentType == componentType)

structure MarketplaceResource where
  ref : Resource
  offeringType : String
  state : ResourceState
  plan : Option Plan

end Waldur.Marketplace
