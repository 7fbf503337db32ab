import Mathlib
import Waldur.Lib.RowLocks
import Waldur.Invoices.CompensationSave
import Waldur.Invoices.Expiry
import Waldur.Invoices.Handlers

/-!
# Invoices.Concurrency — the writers of credits as transactions

`process_invoice_credits`, `set_to_zero_overdue_credits`, `accrue_affiliate_fee` and
`refund_project_credit_on_project_removal` as scripts of locks, queries and writes of `value`.  A request
carries what it reads besides the values: which credits there are and their other columns (`db`), the
invoice, the dates.  The values are read by the script, one query at a time.
-/

namespace Waldur.Invoices.Concurrent

open Calendar Relational RowLocks

abbrev Script := RowLocks.Script CreditKey ℚ

def CustomerCredit.key (cc : CustomerCredit) : CreditKey := .customer cc.customer

def ProjectCredit.key (pc : ProjectCredit) : CreditKey := .project pc.project

/-- The credits with the values that a query returned. -/
def withValues (db : Db) (value : CreditKey → ℚ) : Db :=
  { db with
    customerCredits := db.customerCredits.mapRows (fun cc => { cc with value := value (CustomerCredit.key cc) })
      (fun _ => rfl)
    projectCredits := db.projectCredits.mapRows (fun pc => { pc with value := value (ProjectCredit.key pc) })
      (fun _ => rfl) }

/-! ## The saves -/

/-- The guard of `ProjectCredit.save`: it reads the organization credit, then the other project credits. -/
def guarded (db : Db) (pc : ProjectCredit) (ok fail : Script) : Script :=
  .select [.customer pc.project.customer] fun organization =>
    .select ((db.otherProjectCredits pc.project).map ProjectCredit.key) fun others =>
      match (withValues db fun key => match key with
          | .customer _ => organization key
          | .project _ => others key).checkAllocation pc with
      | .ok _ => ok
      | .error _ => fail

/-- Project credits saved one by one with `update_fields=["value"]`; an error ends the transaction, or only
the savepoint of its save. -/
def saveProjectCredits (db : Db) (savepoint : Bool) (next : Script) : List (Loaded ProjectCredit) → Script
  | [] => next
  | pc :: rest =>
    guarded db pc.obj
      (.write (ProjectCredit.key pc.obj) pc.saved pc.obj.value (saveProjectCredits db savepoint next rest))
      (if savepoint then saveProjectCredits db savepoint next rest else .raise)

/-! ## `set_to_zero_overdue_credits` -/

/-- The rows that `select_for_update` locks and returns, those that are zero by then left out. -/
def lockSelected {ρ : Type} (key : ρ → CreditKey) (next : List (ρ × ℚ) → Script) : List ρ → List (ρ × ℚ) → Script
  | [], selected => next selected
  | row :: rows, selected =>
    .lock (key row) (.select [key row] fun value =>
      lockSelected key next rows
        (if value (key row) = 0 then selected else selected ++ [(row, value (key row))]))

/-- `.select_for_update().filter(...).exclude(value=0)`. -/
def selectForUpdate {ρ : Type} (key : ρ → CreditKey) (rows : List ρ) (next : List (ρ × ℚ) → Script) : Script :=
  .select (rows.map key) fun value => lockSelected key next (rows.filter fun row => value (key row) ≠ 0) []

/-- The loop over the organization credits. -/
def zeroCustomerCredits (next : Script) : List (CustomerCredit × ℚ) → Script
  | [] => next
  | (cc, value) :: rest => .write (CustomerCredit.key cc) value 0 (zeroCustomerCredits next rest)

def setToZeroOverdueCredits (db : Db) (today effectiveDate : Date) : Script :=
  if today < effectiveDate then .raise
  else
    selectForUpdate CustomerCredit.key (db.customerCredits.rows.filter (·.isOverdue effectiveDate)) fun customerCredits =>
      zeroCustomerCredits
        (selectForUpdate ProjectCredit.key (db.projectCredits.rows.filter (·.isOverdue effectiveDate)) fun projectCredits =>
          saveProjectCredits db true .done
            (projectCredits.map fun (pc, value) => ⟨{ pc with value := 0 }, value⟩))
        customerCredits

/-! ## `accrue_affiliate_fee` -/

/-- `accrued`: the fee of the link for this invoice is accrued already. -/
def accrueAffiliateFee (link : CustomerAffiliate) (price : ℚ) (accrued : Bool) : Script :=
  let fee := link.calculateFee price
  if price ≤ 0 ∨ fee ≤ 0 then .done
  else if accrued then .done
  else
    .lock (.customer link.affiliate) (.select [.customer link.affiliate] fun value =>
      .write (.customer link.affiliate) (value (.customer link.affiliate))
        (value (.customer link.affiliate) + fee) .done)

/-! ## `refund_project_credit_on_project_removal` -/

def refundProjectCredit (db : Db) (project : Project) : Script :=
  match db.projectCredit? project, db.customerCredit? project.customer with
  | some projectCredit, some _ =>
    .select [.project project] fun p => .select [.customer project.customer] fun c =>
      let projectValue := p (.project project)
      let customerValue := c (.customer project.customer)
      if projectValue ≤ 0 then .done
      else
        let zero := saveProjectCredits db false .done [⟨{ projectCredit with value := 0 }, projectValue⟩]
        if projectCredit.markUnusedCreditAsSpentOnProjectTermination then
          .write (.customer project.customer) customerValue
            (if projectValue < customerValue then customerValue - projectValue else 0) zero
        else zero
  | _, _ => .done

/-! ## `process_invoice_credits` -/

/-- `clear_compensations` on a new object. -/
def clearCompensations (db : Db) (today : Date) (mc : MonthlyCompensation) (next : Db → MonthlyCompensation → Script) :
    Script :=
  match mc.credit, mc.getInvoice db with
  | some credit, some inv =>
    let compensationItems := inv.items.filter (fun it => it.credit == some credit.obj.customer)
    if compensationItems = [] then next db mc
    else
      let applied := (compensationItems.map (·.unitPrice)).sum * -1
      let value := credit.obj.value + max applied (credit.obj.minimalConsumption today)
      let credit' : Loaded CustomerCredit := ⟨{ credit.obj with value := value }, value⟩
      .write (.customer credit.obj.customer) credit.saved value
        (.select ((db.customerProjectCredits mc.customer).map ProjectCredit.key) fun values =>
          saveProjectCredits db false (next (mc.deleteItems db credit'.obj) { mc with credit := some credit' })
            (((withValues db values).customerProjectCredits mc.customer).filterMap
              (MonthlyCompensation.rolledBack compensationItems)))
  | _, _ => next db mc

/-- The credits of the projects on the invoice. -/
def invoiceProjectCredits (db : Db) (mc : MonthlyCompensation) : List ProjectCredit :=
  match mc.getInvoice db with
  | some inv => db.projectCredits.rows.filter fun pc => inv.itemsProjects.contains pc.project
  | none => []

/-- `save`: it calculates from the project credits it reads. -/
def save (db : Db) (today : Date) (mc : MonthlyCompensation) (next : MonthlyCompensation → Script) : Script :=
  match mc.credit with
  | none => next mc
  | some _ =>
    .select ((invoiceProjectCredits db mc).map ProjectCredit.key) fun values =>
      let mc := mc.calculateCurrentCompensations (withValues db values) today
      match mc.credit with
      | none => next mc
      | some credit =>
        saveProjectCredits db false
          (.write (.customer credit.obj.customer) credit.saved credit.obj.value (next mc)) mc.projectsCredits.rows

/-- A save with `update_fields=["expected_consumption"]` takes the lock of its row and leaves the value. -/
def touchProjectCredits (db : Db) : List ProjectCredit → Script
  | [] => .done
  | pc :: rest => guarded db pc (.lock (ProjectCredit.key pc) (touchProjectCredits db rest)) .raise

/-- `update_linear_expected_consumption`. -/
def updateLinearExpectedConsumption (db : Db) (today : Date) (mc : MonthlyCompensation) : Script :=
  let projects := .select ((mc.linearProjectCredits today db).map ProjectCredit.key) fun values =>
    touchProjectCredits db (mc.linearProjectCredits today (withValues db values))
  match mc.credit with
  | some credit =>
    if credit.obj.minimalConsumptionLogic = .linear ∧ credit.obj.endDate.isSome = true then
      .lock (.customer credit.obj.customer) projects
    else projects
  | none => projects

/-- `exists()` on a locking query: it fetches one row, and so locks one. -/
def lockFirst (first : Option CreditKey) (next : Script) : Script :=
  match first with
  | some key => .lock key next
  | none => next

/-- `locked` is the project credit of the customer that the second `exists()` fetches. -/
def processInvoiceCredits (db : Db) (today : Date) (inv : Invoice) (locked : Option Project) : Script :=
  lockFirst ((db.customerCredit? inv.customer).map CustomerCredit.key) <|
  lockFirst (locked.map .project) <|
  .select [.customer inv.customer] fun values =>
    clearCompensations db today (.init (withValues db values) inv.customer (some inv.id)) fun db mc =>
      save db today mc fun mc =>
        updateLinearExpectedConsumption db today mc

/-! ## The requests -/

inductive Request
  | processInvoiceCredits (db : Db) (today : Date) (inv : Invoice) (locked : Option Project)
  | setToZeroOverdueCredits (db : Db) (today effectiveDate : Date)
  | accrueAffiliateFee (link : CustomerAffiliate) (price : ℚ) (accrued : Bool)
  | refundProjectCredit (db : Db) (project : Project)

def Request.script : Request → Script
  | .processInvoiceCredits db today inv locked => Concurrent.processInvoiceCredits db today inv locked
  | .setToZeroOverdueCredits db today effectiveDate => Concurrent.setToZeroOverdueCredits db today effectiveDate
  | .accrueAffiliateFee link price accrued => Concurrent.accrueAffiliateFee link price accrued
  | .refundProjectCredit db project => Concurrent.refundProjectCredit db project

end Waldur.Invoices.Concurrent
