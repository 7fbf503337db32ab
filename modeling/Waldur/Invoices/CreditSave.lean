import Mathlib
import Waldur.Lib.Journal
import Waldur.Invoices.Models

/-!
# Invoices.CreditSave — writing a credit and its ledger rows

`ledger.py`, `handlers.record_credit_transaction` and the `save` methods of the credit models.

* `LedgerState` is the thread-local state of `ledger.py`; `withType` and `withParts` are its two context
  managers.  A block is entered by passing the changed state on, and left by dropping it.
* `Loaded` is a credit instance in memory: the object and the value the field tracker saved when it was
  read or last written.
* A save returns the new database, or the validation error and nothing (`Db` is only replaced on
  success).  `transaction.atomic` is `Except.bind`.
-/

namespace Waldur.Invoices

open Calendar Relational

/-! ## `ledger.py` -/

/-- `ledger.TransactionPart`. -/
structure TransactionPart where
  transactionType : TransactionType
  amount : ℚ
  billingPeriod : Option Date := none
deriving DecidableEq

/-- The tuple that `credit_transaction_type` declares. -/
structure TypeBlock where
  transactionType : TransactionType
  reference : Option Reference := none
  comment : String := ""
  billingPeriod : Option Date := none
deriving DecidableEq

structure LedgerState where
  current : Option TypeBlock := none
  parts : List (CreditKey × List TransactionPart) := []
  partsReference : Option Reference := none
  partsComment : String := ""

namespace LedgerState

/-- `with ledger.credit_transaction_type(...)`. -/
def withType (st : LedgerState) (block : TypeBlock) : LedgerState := { st with current := some block }

/-- `with ledger.credit_transaction_parts(...)`. -/
def withParts (st : LedgerState) (parts : List (CreditKey × List TransactionPart))
    (reference : Option Reference) : LedgerState :=
  { st with parts := parts, partsReference := reference, partsComment := "" }

/-- `current_credit_transaction_parts`: the declared breakdown of a credit, empty where there is none. -/
def currentParts (st : LedgerState) (key : CreditKey) : List TransactionPart :=
  (st.parts.lookup key).getD []

end LedgerState

/-! ## `record_credit_transaction` -/

/-- `update_fields` of a `save` call. -/
inductive UpdateFields
  | all
  | value
  | expectedConsumption
deriving DecidableEq, Repr

def UpdateFields.writesValue : UpdateFields → Bool
  | all | value => true
  | expectedConsumption => false

def UpdateFields.writesEndDate : UpdateFields → Bool
  | all => true
  | value | expectedConsumption => false

/-- The rows of a declared breakdown; parts without an amount are skipped. -/
def partRows (st : LedgerState) (key : CreditKey) (parts : List TransactionPart) : List CreditTransaction :=
  (parts.filter (fun part => part.amount ≠ 0)).map (fun part =>
    { credit := key
      amount := part.amount
      transactionType := part.transactionType
      billingPeriod := part.billingPeriod
      reference := st.partsReference
      comment := st.partsComment })

/-- The single row of a movement without a breakdown, a staff grant outside every type block. -/
def typeRow (st : LedgerState) (key : CreditKey) (delta : ℚ) : CreditTransaction :=
  match st.current with
  | some block =>
    { credit := key
      amount := delta
      transactionType := block.transactionType
      billingPeriod := block.billingPeriod
      reference := block.reference
      comment := block.comment }
  | none => { credit := key, amount := delta, transactionType := .staffGrant }

/-- The ledger rows that the `post_save` handler writes: `previous` is the tracked value of the instance,
`none` for a created one. -/
def recordCreditTransaction (st : LedgerState) (key : CreditKey) (fields : UpdateFields)
    (previous : Option ℚ) (value : ℚ) : List CreditTransaction :=
  if !fields.writesValue then []
  else
    let delta := value - previous.getD 0
    if delta = 0 then []
    else
      let parts := st.currentParts key
      if parts ≠ [] ∧ (parts.map (·.amount)).sum = delta then partRows st key parts
      -- A refused breakdown falls through to a single row of the enclosing type.
      else [typeRow st key delta]

/-! ## The saves -/

/-- A credit instance in memory and the value its field tracker remembers. -/
structure Loaded (ρ : Type) where
  obj : ρ
  saved : ℚ

def CustomerCredit.load (cc : CustomerCredit) : Loaded CustomerCredit := ⟨cc, cc.value⟩

def ProjectCredit.load (pc : ProjectCredit) : Loaded ProjectCredit := ⟨pc, pc.value⟩

/-- The columns of the stored row that a save with these fields overwrites. -/
def BaseCredit.merge (fields : UpdateFields) (stored new : BaseCredit) : BaseCredit :=
  match fields with
  | .all => new
  | .value => { stored with value := new.value }
  | .expectedConsumption => { stored with expectedConsumption := new.expectedConsumption }

/-- `BaseCredit.save`, the check before the write. -/
def BaseCredit.checkEndDate (fields : UpdateFields) (c : BaseCredit) : Except ValidationError Unit :=
  if fields.writesEndDate && c.endDate.any (fun d => d.day != 1) then .error .endDateNotFirstOfMonth
  else .ok ()

/-- `agg["sum"] or 0 + self.value`: Python's `or` takes the right operand when the sum is missing or
zero, and `+` binds tighter than `or`. -/
def sumOr (agg : Option ℚ) (value : ℚ) : ℚ :=
  match agg with
  | some s => if s = 0 then 0 + value else s
  | none => 0 + value

/-- `queryset.aggregate(sum=Sum("value"))["sum"]`: no sum over no rows. -/
def aggregateSum (values : List ℚ) : Option ℚ := if values = [] then none else some values.sum

/-- The other project credits of the customer: `.filter(project__customer=...).exclude(pk=self.pk)`. -/
def Db.otherProjectCredits (db : Db) (project : Project) : List ProjectCredit :=
  db.projectCredits.rows.filter (fun pc => pc.project.customer == project.customer && pc.project != project)

/-- `total_value` in `ProjectCredit.save`. -/
def Db.totalValue (db : Db) (pc : ProjectCredit) : ℚ :=
  sumOr (aggregateSum ((db.otherProjectCredits pc.project).map (·.value))) pc.value

/-- The guard of `ProjectCredit.save`. -/
def Db.checkAllocation (db : Db) (pc : ProjectCredit) : Except ValidationError Unit :=
  match db.customerCredit? pc.project.customer with
  | none => .error .customerCreditDoesNotExist
  | some cc =>
    if cc.value < db.totalValue pc then .error .projectCreditsExceedCustomerCredit else .ok ()

/-- The stored customer credit after a save of `new` with these fields. -/
def CustomerCredit.overwrite (fields : UpdateFields) (new stored : CustomerCredit) : CustomerCredit :=
  { toBaseCredit := stored.toBaseCredit.merge fields new.toBaseCredit
    customer := stored.customer
    offerings := if fields = .all then new.offerings else stored.offerings }

/-- The stored project credit after a save of `new` with these fields. -/
def ProjectCredit.overwrite (fields : UpdateFields) (new stored : ProjectCredit) : ProjectCredit :=
  { toBaseCredit := stored.toBaseCredit.merge fields new.toBaseCredit
    project := stored.project
    markUnusedCreditAsSpentOnProjectTermination :=
      if fields = .all then new.markUnusedCreditAsSpentOnProjectTermination
      else stored.markUnusedCreditAsSpentOnProjectTermination }

/-- The write of an existing customer credit, with its ledger rows. -/
def Db.writeCustomerCredit (db : Db) (st : LedgerState) (cc : Loaded CustomerCredit)
    (fields : UpdateFields) : Db :=
  { db with
    customerCredits :=
      db.customerCredits.update cc.obj.customer (CustomerCredit.overwrite fields cc.obj) (fun _ => rfl)
    transactions := db.transactions ++
      recordCreditTransaction st (.customer cc.obj.customer) fields (some cc.saved) cc.obj.value }

/-- The write of an existing project credit, with its ledger rows. -/
def Db.writeProjectCredit (db : Db) (st : LedgerState) (pc : Loaded ProjectCredit)
    (fields : UpdateFields) : Db :=
  { db with
    projectCredits :=
      db.projectCredits.update pc.obj.project (ProjectCredit.overwrite fields pc.obj) (fun _ => rfl)
    transactions := db.transactions ++
      recordCreditTransaction st (.project pc.obj.project) fields (some pc.saved) pc.obj.value }

/-- `CustomerCredit.save` of a stored credit. -/
def Db.saveCustomerCredit (db : Db) (st : LedgerState) (cc : Loaded CustomerCredit)
    (fields : UpdateFields) : Except ValidationError Db := do
  cc.obj.checkEndDate fields
  return db.writeCustomerCredit st cc fields

/-- `ProjectCredit.save` of a stored credit. -/
def Db.saveProjectCredit (db : Db) (st : LedgerState) (pc : Loaded ProjectCredit)
    (fields : UpdateFields) : Except ValidationError Db := do
  db.checkAllocation pc.obj
  pc.obj.checkEndDate fields
  return db.writeProjectCredit st pc fields

/-- `CustomerCredit.save` of a new credit.  A second credit of the customer breaks the unique key; that
is not a validation error, so it is excluded by the argument. -/
def Db.createCustomerCredit (db : Db) (st : LedgerState) (cc : CustomerCredit)
    (h : db.customerCredits.get? cc.customer = none) : Except ValidationError Db := do
  cc.checkEndDate .all
  return { db with
    customerCredits := db.customerCredits.insert cc h
    transactions := db.transactions ++
      recordCreditTransaction st (.customer cc.customer) .all none cc.value }

/-- `ProjectCredit.save` of a new credit. -/
def Db.createProjectCredit (db : Db) (st : LedgerState) (pc : ProjectCredit)
    (h : db.projectCredits.get? pc.project = none) : Except ValidationError Db := do
  db.checkAllocation pc
  pc.checkEndDate .all
  return { db with
    projectCredits := db.projectCredits.insert pc h
    transactions := db.transactions ++
      recordCreditTransaction st (.project pc.project) .all none pc.value }

end Waldur.Invoices
