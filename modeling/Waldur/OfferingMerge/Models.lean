import Mathlib
import Waldur.Lib.Documents
import Waldur.Lib.PythonText
import Waldur.Lib.Table

/-!
# OfferingMerge.Models — what a merge reads and writes

The offerings, plans and components that a merge maps (`Catalogue`), the merge record, and the rows of the covered
models.  The merge engine addresses a row by model label, primary key and attname, so a row is the values of its
columns by attname; a JSON column holds an object or a value that is none.
-/

namespace Waldur.OfferingMerge

open Documents PythonText Relational

/-! ## JSON columns -/

/-- The key of a JSON object. -/
structure Key where
  name : String
deriving DecidableEq, Repr

/-- `jsonb` keeps shorter keys first, and keys of one length by their bytes. -/
def Key.rank (k : Key) : ℕ ×ₗ List Char := toLex (k.name.utf8ByteSize, k.name.toList)

theorem Key.rank_injective : Function.Injective Key.rank := by
  intro a b h
  have hchars : a.name.toList = b.name.toList := congrArg (fun r => (ofLex r).2) h
  cases a
  cases b
  exact congrArg Key.mk (String.toList_inj.mp hchars)

instance : LinearOrder Key := LinearOrder.lift' Key.rank Key.rank_injective

/-- A JSON value without keys; `other` stands for `null` or a list. -/
inductive Leaf
  | text (s : String)
  | int (n : ℤ)
  | float (x : ℚ)
  | bool (b : Bool)
  | other (code : ℕ)
deriving DecidableEq, Repr

/-- A value under a key of a JSON column. -/
inductive Value
  | leaf (l : Leaf)
  | object (d : Document Key Leaf)
deriving DecidableEq

/-- The value of a JSON column. -/
inductive Column
  | plain (l : Leaf)
  | object (d : Document Key Value)
deriving DecidableEq

/-! ## The catalogue -/

structure Offering where
  id : ℕ
  uuid : Uuid
  name : String := ""
  type : String := "Marketplace.Basic"
  customer : ℕ := 1
  /-- The hex of the service provider's uuid, empty without a provider. -/
  providerUuid : String := ""
  customerName : String := ""
  parent : Option ℕ := none
  scope : Option (ℕ × ℕ) := none
  hasChildren : Bool := false
deriving DecidableEq

structure Plan where
  id : ℕ
  uuid : Uuid
  offering : ℕ
  name : String := ""
  unit : String := "month"
deriving DecidableEq

structure OfferingComponent where
  id : ℕ
  offering : ℕ
  type : Key
  name : String := ""
  billingType : String := "limit"
deriving DecidableEq

structure PlanComponent where
  id : ℕ
  plan : ℕ
  component : Option ℕ
  price : ℚ := 0
  amount : ℕ := 0
deriving DecidableEq

/-- The offerings with their plans and components; the fields are the unique constraints of the models. -/
structure Catalogue where
  offerings : Table ℕ Offering Offering.id
  plans : Table ℕ Plan Plan.id
  components : Table ℕ OfferingComponent OfferingComponent.id
  planComponents : Table ℕ PlanComponent PlanComponent.id
  offering_uuid : (offerings.rows.map (·.uuid)).Nodup
  plan_uuid : (plans.rows.map (·.uuid)).Nodup
  component_type : (components.rows.map fun c => (c.offering, c.type)).Nodup
  plan_component : (planComponents.rows.filterMap fun pc => pc.component.map (pc.plan, ·)).Nodup

/-! ## Covered rows -/

/-- The models of the rows that a merge reads or writes; a many-to-many field by its through table. -/
inductive Model
  | resourcePlanPeriod
  | componentUsage
  | componentQuota
  | componentUsagePollRecord
  | componentUserUsageLimit
  | resource
  | order
  | resourceProject
  | resourceLimitChangeRequest
  | offeringUser
  | offeringUserGroup
  | offeringRoleGroup
  | issue
  | customerCreditOfferings
  | customerUsagePolicyComponent
  | requestedOffering
  | rule
  | projectTemplateOfferings
  | invoiceItem
  | invoice
  | offering
  | userRole
deriving DecidableEq, Repr

/-- The columns that hold a reference, a member of a unique set or a state. -/
inductive Attname
  | offering
  | plan
  | oldPlan
  | component
  | planComponent
  | resource
  | planPeriod
  | billingPeriod
  | user
  | contentType
  | objectId
  | role
  | customerCredit
  | projectTemplate
  | policy
  | period
  | customer
  | invoice
  | issue
  | month
  | state
deriving DecidableEq, Repr

/-- The JSON columns. -/
inductive JsonField
  | limits
  | currentUsages
  | attributes
  | requestedLimits
  | planLimits
  | details
deriving DecidableEq, Repr

/-- One row.  `isOpen`: the order is pending, the plan period has no end, the issue is open, the invoice of the item
(or the invoice) is in a mutable state, the role is active.  `amount` is what an invoice item costs with its tax. -/
structure Row where
  id : ℕ
  refs : Attname → Option ℕ := fun _ => none
  docs : JsonField → Column := fun _ => .plain (.other 0)
  isOpen : Bool := false
  amount : ℚ := 0

/-- The rows of each model. -/
structure Db where
  table : Model → Table ℕ Row Row.id

/-! ## The merge record -/

inductive InvoicePolicy
  | openMonth
  | allMonths
  | unknown (name : String)
deriving DecidableEq, Repr

/-- A merge over a catalogue.  The API stores `plan_mapping` and `component_mapping` under normalised uuids. -/
structure Merge (c : Catalogue) where
  target : Offering
  sources : List Offering
  planMapping : Document Uuid Uuid := .empty
  componentMapping : Document Uuid (Document Key Key) := .empty
  attributeKeyMapping : Document Key Key := .empty
  invoicePolicy : InvoicePolicy := .openMonth
  stored : ∀ o ∈ target :: sources, o ∈ c.offerings.rows

end Waldur.OfferingMerge
