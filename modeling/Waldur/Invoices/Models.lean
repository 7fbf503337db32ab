import Mathlib
import Waldur.Lib.Table
import Waldur.Lib.Decimal
import Waldur.Lib.Calendar

/-!
# Invoices.Models — invoices, credits and their ledger

The data model of `invoices/models.py`: the columns that the billing and credit code reads or writes.
Decimals are exact rationals, instants are microseconds, a foreign key is the key of the row it points
to.  Names, texts, article codes and other columns that no modelled function reads are left out.

Invariants are fields: an `Invoice` only holds items attributed to the project of their resource, a
project of the invoiced organization (items are created so, and moving a resource or a project moves
its items of the open invoices along), and its tax percent is not negative (`MinValueValidator(0)`).
-/

namespace Waldur.Invoices

open Calendar Relational

/-- Microseconds since the epoch, in UTC. -/
abbrev Instant := ℤ

def quantizePrice (x : ℚ) : ℚ := Decimal.quantizeUp 2 x

structure Project where
  id : ℕ
  customer : ℕ
deriving DecidableEq, Repr

/-- What the credit code reads of a marketplace resource through an invoice item. -/
structure Resource where
  id : ℕ
  offering : ℕ
  project : Project
deriving DecidableEq, Repr

inductive Units
  | perMonth
  | perQuarter
  | perHalfMonth
  | perDay
  | perHour
  | quantity
deriving DecidableEq, Repr

inductive LimitPeriods
  | month
  | quarterly
  | annual
  | total
deriving DecidableEq, Repr

/-- An entry of `details["resource_limit_periods"]`. -/
structure LimitPeriod where
  start : Instant
  stop : Instant
  quantity : ℚ
  billingPeriods : ℤ
  total : ℚ
deriving DecidableEq, Repr

/-- The keys of `InvoiceItem.details` that code branches on; an absent key is the default. -/
structure Details where
  isDiscount : Bool := false
  discountOfItem : Option ℕ := none
  isCompensation : Bool := false
  compensationOfItem : Option ℕ := none
  offeringComponentType : Option String := none
  planUuid : Option ℕ := none
  planComponentId : Option ℕ := none
  planPeriodUuid : Option ℕ := none
  isOverage : Bool := false
  discountUsage : Option ℚ := none
  resourceLimitPeriods : List LimitPeriod := []
  limitPeriod : Option LimitPeriods := none
deriving DecidableEq, Repr

structure InvoiceItem where
  uuid : ℕ
  unitPrice : ℚ
  quantity : ℚ
  unit : Units
  resource : Option Resource
  planComponent : Option ℕ := none
  project : Option Project
  credit : Option ℕ := none
  start : Instant := 0
  stop : Instant := 0
  details : Details := {}
deriving DecidableEq, Repr

namespace InvoiceItem

/-- `_price()`, which is also `price`. -/
def price (it : InvoiceItem) : ℚ := quantizePrice (it.unitPrice * it.quantity)

/-- The item is booked on the project of its resource, and that project is the customer's. -/
def WellAttributed (customer : ℕ) (it : InvoiceItem) : Prop :=
  ∀ r, it.resource = some r → it.project = some r.project ∧ r.project.customer = customer

instance (customer : ℕ) (it : InvoiceItem) : Decidable (WellAttributed customer it) :=
  match h : it.resource with
  | none => isTrue (fun r hr => by rw [h] at hr; cases hr)
  | some r =>
    if h' : it.project = some r.project ∧ r.project.customer = customer then
      isTrue (fun r' hr' => by rw [h] at hr'; cases hr'; exact h')
    else isFalse (fun hw => h' (hw r h))

end InvoiceItem

inductive InvoiceState
  | pending
  | pendingFinalization
  | created
  | paid
  | canceled
deriving DecidableEq, Repr

/-- `Invoice.States.MUTABLE_STATES`. -/
def InvoiceState.isMutable : InvoiceState → Bool
  | pending | pendingFinalization => true
  | created | paid | canceled => false

structure Invoice where
  id : ℕ
  customer : ℕ
  year : ℕ
  month : ℕ
  state : InvoiceState := .pending
  taxPercent : ℚ
  items : List InvoiceItem
  month_valid : 1 ≤ month ∧ month ≤ 12
  tax_nonneg : 0 ≤ taxPercent
  attributed : ∀ it ∈ items, it.WellAttributed customer

namespace Invoice

/-- An invoice without tax. -/
theorem untaxed : (0 : ℚ) ≤ 0 := le_refl 0

/-- `Invoice.price`. -/
def price (inv : Invoice) : ℚ := quantizePrice (inv.items.map InvoiceItem.price).sum

/-- New items after the present ones. -/
def addItems (inv : Invoice) (new : List InvoiceItem) (h : ∀ it ∈ new, it.WellAttributed inv.customer) :
    Invoice :=
  { inv with
    items := inv.items ++ new
    attributed := fun it hit => (List.mem_append.mp hit).elim (inv.attributed it) (h it) }

/-- `InvoiceItem.objects.bulk_create` of compensations.  They copy resource and project from an item of
the invoice, so the test never fails (`bulkCreate_compensations`). -/
def bulkCreate (inv : Invoice) (new : List InvoiceItem) : Invoice :=
  if h : ∀ it ∈ new, it.WellAttributed inv.customer then inv.addItems new h else inv

theorem bulkCreate_id (inv : Invoice) (new : List InvoiceItem) : (inv.bulkCreate new).id = inv.id := by
  unfold bulkCreate
  split <;> rfl

/-- Delete the items a query selects. -/
def deleteItems (inv : Invoice) (p : InvoiceItem → Bool) : Invoice :=
  { inv with
    items := inv.items.filter (fun it => !p it)
    attributed := fun it hit => inv.attributed it (List.mem_of_mem_filter hit) }

end Invoice

/-! ## Credits -/

inductive MinimalConsumptionLogic
  | fixed
  | linear
deriving DecidableEq, Repr

structure BaseCredit where
  value : ℚ := 0
  expectedConsumption : ℚ := 0
  minimalConsumptionLogic : MinimalConsumptionLogic := .fixed
  graceCoefficient : ℚ := 0
  applyAsMinimalConsumption : Bool := true
  endDate : Option Date := none
deriving DecidableEq

namespace BaseCredit

def timeLeftFactor (today endDate : Date) : ℚ :=
  let daysUntilCreditEnd : ℤ := endDate.replaceDayOne.daysSince today
  if daysUntilCreditEnd ≤ 0 then 1
  else min 1 ((monthDays today.year today.month : ℚ) / daysUntilCreditEnd)

/-- `calculate_linear_expected_consumption`, for a credit with an end date. -/
def calculateLinearExpectedConsumption (c : BaseCredit) (today endDate : Date) (totalCompensation : ℚ) : ℚ :=
  max 0 (c.expectedConsumption - totalCompensation) * (1 - timeLeftFactor today endDate) +
    c.value * timeLeftFactor today endDate

def minimalConsumption (c : BaseCredit) (today : Date) : ℚ :=
  if !c.applyAsMinimalConsumption then 0
  else if c.endDate.any (fun d => d.year == today.year && d.month == today.month) then
    c.expectedConsumption
  else (100 - c.graceCoefficient) / 100 * c.expectedConsumption

end BaseCredit

structure CustomerCredit extends BaseCredit where
  customer : ℕ
  offerings : List ℕ := []
deriving DecidableEq

structure ProjectCredit extends BaseCredit where
  project : Project
  markUnusedCreditAsSpentOnProjectTermination : Bool := false
deriving DecidableEq

/-- `ledger.part_key`: the credit a value change belongs to.  A ledger row moves exactly one. -/
inductive CreditKey
  | customer (customer : ℕ)
  | project (project : Project)
deriving DecidableEq, Repr

/-- `CreditTransaction.Types`. -/
inductive TransactionType
  | staffGrant
  | compensation
  | minimalDraw
  | affiliateFee
  | transferIn
  | transferOut
  | payout
  | expiry
  | rollback
  | adjustment
  | withdrawableAdjustment
deriving DecidableEq, Repr

/-- `WITHDRAWABLE_TYPES`. -/
def TransactionType.isWithdrawable : TransactionType → Bool
  | affiliateFee | transferIn | transferOut | payout | withdrawableAdjustment => true
  | staffGrant | compensation | minimalDraw | expiry | rollback | adjustment => false

/-- What a ledger row refers to. -/
inductive Reference
  | invoice (id : ℕ)
  | projectCredit (project : Project)
  | accrual (link invoice : ℕ)
deriving DecidableEq, Repr

structure CreditTransaction where
  credit : CreditKey
  amount : ℚ
  transactionType : TransactionType
  billingPeriod : Option Date := none
  reference : Option Reference := none
  comment : String := ""
deriving DecidableEq

/-- `rf_exceptions.ValidationError` as the credit models raise it. -/
inductive ValidationError
  | endDateNotFirstOfMonth
  | customerCreditDoesNotExist
  | projectCreditsExceedCustomerCredit
deriving DecidableEq, Repr

def ValidationError.message : ValidationError → String
  | .endDateNotFirstOfMonth => "End date must be the first day of the month."
  | .customerCreditDoesNotExist => "Customer credit does not exist."
  | .projectCreditsExceedCustomerCredit =>
    "The sum of project credits cannot exceed the credit for organization."

/-! ## The database -/

/-- The tables of the invoices application that the credit code reads and writes.  An organization has
at most one credit, a project at most one. -/
structure Db where
  customerCredits : Table ℕ CustomerCredit CustomerCredit.customer
  projectCredits : Table Project ProjectCredit ProjectCredit.project
  invoices : Table ℕ Invoice Invoice.id
  transactions : List CreditTransaction
  accruals : List (ℕ × ℕ)
  nextUuid : ℕ

namespace Db

def empty : Db := ⟨.empty, .empty, .empty, [], [], 0⟩

/-- `CustomerCredit.objects.filter(customer=customer).first()`. -/
def customerCredit? (db : Db) (customer : ℕ) : Option CustomerCredit := db.customerCredits.get? customer

/-- `ProjectCredit.objects.filter(project=project).first()`. -/
def projectCredit? (db : Db) (project : Project) : Option ProjectCredit := db.projectCredits.get? project

/-- `ProjectCredit.objects.filter(project__customer=customer)`. -/
def customerProjectCredits (db : Db) (customer : ℕ) : List ProjectCredit :=
  db.projectCredits.rows.filter (fun pc => pc.project.customer == customer)

/-- The stored value of a credit, 0 where there is none. -/
def balance (db : Db) : CreditKey → ℚ
  | .customer c => ((db.customerCredit? c).map (·.value)).getD 0
  | .project p => ((db.projectCredit? p).map (·.value)).getD 0

end Db

end Waldur.Invoices
