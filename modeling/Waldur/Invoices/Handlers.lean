import Mathlib
import Waldur.Invoices.CreditSave

/-!
# Invoices.Handlers — the signal handlers that move credit

`refund_project_credit_on_project_removal` and `accrue_affiliate_fee` of `handlers.py`.
-/

namespace Waldur.Invoices

open Relational

/-- The branch of `mark_unused_credit_as_spent_on_project_termination`. -/
def spendUnusedCredit (db : Db) (st : LedgerState) (customerCredit : CustomerCredit)
    (projectCredit : ProjectCredit) : Except ValidationError Db :=
  if projectCredit.markUnusedCreditAsSpentOnProjectTermination then
    let value :=
      if projectCredit.value < customerCredit.value then customerCredit.value - projectCredit.value else 0
    db.saveCustomerCredit st ⟨{ customerCredit with value := value }, customerCredit.value⟩ .value
  else .ok db

def refundProjectCreditOnProjectRemoval (db : Db) (project : Project) : Except ValidationError Db :=
  match db.projectCredit? project, db.customerCredit? project.customer with
  | some projectCredit, some customerCredit =>
    if projectCredit.value ≤ 0 then .ok db
    else
      let st := ({} : LedgerState).withType
        { transactionType := .adjustment, reference := some (.projectCredit projectCredit.project) }
      (spendUnusedCredit db st customerCredit projectCredit).bind (fun db =>
        if projectCredit.value = 0 then .ok db
        else db.saveProjectCredit st ⟨{ projectCredit with value := 0 }, projectCredit.value⟩ .value)
  | _, _ => .ok db

/-- What `accrue_affiliate_fee` reads of an affiliate link. -/
structure CustomerAffiliate where
  id : ℕ
  affiliate : ℕ
  feePercent : ℚ

def CustomerAffiliate.calculateFee (link : CustomerAffiliate) (amount : ℚ) : ℚ :=
  max 0 (quantizePrice (amount * link.feePercent / 100))

/-- `CustomerCredit.objects.get_or_create(customer=customer)`: a created credit has the default value 0. -/
def Db.getOrCreateCustomerCredit (db : Db) (customer : ℕ) : Except ValidationError (Db × CustomerCredit) :=
  match h : db.customerCredits.get? customer with
  | some credit => .ok (db, credit)
  | none => do
    let credit : CustomerCredit := { customer := customer }
    let db ← db.createCustomerCredit {} credit h
    return (db, credit)

def accrueAffiliateFee (db : Db) (link : CustomerAffiliate) (invoice : Invoice) : Except ValidationError Db :=
  let fee := link.calculateFee invoice.price
  if invoice.price ≤ 0 ∨ fee ≤ 0 then .ok db
  else if db.accruals.contains (link.id, invoice.id) then .ok db
  else do
    let (db, credit) ← db.getOrCreateCustomerCredit link.affiliate
    let db := { db with accruals := db.accruals ++ [(link.id, invoice.id)] }
    let st := ({} : LedgerState).withType
      { transactionType := .affiliateFee, reference := some (.accrual link.id invoice.id) }
    db.saveCustomerCredit st ⟨{ credit with value := credit.value + fee }, credit.value⟩ .value

end Waldur.Invoices
