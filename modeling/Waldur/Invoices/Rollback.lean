import Mathlib
import Waldur.Invoices.Settlement

/-!
# Invoices.Rollback — what `clear_compensations` takes back

The roll-back adds to each project credit what its compensations on the invoice sum to, and to the
organization credit the larger of that sum and the minimal consumption.  It is not told what the run
drew: `clear_init_iff` and `clear_init_fields` say when it goes through and what it leaves, in the terms
of the invoice alone.
-/

namespace Waldur.Invoices

open Calendar Relational Waterfall Runs MonthlyCompensation

/-- `invoice.items.filter(credit=credit)`. -/
def Invoice.compensations (inv : Invoice) : List InvoiceItem :=
  inv.items.filter (fun it => it.credit == some inv.customer)

/-- The invoice once its compensations are deleted. -/
def Invoice.withoutCompensations (inv : Invoice) : Invoice :=
  inv.deleteItems (fun it => it.credit == some inv.customer)

section

variable (db : Db) (today : Date) (inv : Invoice) (cc : CustomerCredit)

/-- The organization credit as the roll-back saves it. -/
def refundedValue : ℚ :=
  cc.value + max ((inv.compensations.map (·.unitPrice)).sum * -1) (cc.minimalConsumption today)

/-- The project credits as the roll-back saves them. -/
def refundedCredits : List (Loaded ProjectCredit) :=
  (db.customerProjectCredits inv.customer).filterMap (rolledBack inv.compensations)

/-- The state that the roll-back of an invoice leaves. -/
def Db.rolledBack (db : Db) : Db :=
  db.settle inv (refundedValue today inv cc) (refundedCredits db inv) (·.withoutCompensations) (fun _ => rfl)

end

section

variable {db db' : Db} {today : Date} {inv : Invoice} {cc : CustomerCredit} {invoice : Option ℕ}
  {mc' : MonthlyCompensation}

theorem customer_of_mem_refundedCredits {pc : Loaded ProjectCredit} (h : pc ∈ refundedCredits db inv) :
    pc.obj.project.customer = inv.customer := by
  obtain ⟨stored, hst, hpc⟩ := List.mem_filterMap.mp h
  rw [rolledBack_project _ _ _ hpc]
  simpa using (List.mem_filter.mp hst).2

theorem nodup_refundedCredits : ((refundedCredits db inv).map (·.obj.project)).Nodup :=
  nodup_filterMap (rolledBack_project _) _ (nodup_customerProjectCredits db inv.customer)

theorem init_eq {customer id : ℕ} (h : db.customerCredit? customer = some cc) :
    init db customer (some id) = { customer := customer, invoice := some id, credit := some cc.load } := by
  unfold init
  rw [h]
  rfl

theorem deleteItems_invoices {mc : MonthlyCompensation} {id : ℕ} (h : mc.invoice = some id)
    (credit : CustomerCredit) : (mc.deleteItems db credit).invoices =
      db.invoices.update id (·.deleteItems (fun it => it.credit == some credit.customer)) (fun _ => rfl) := by
  unfold deleteItems
  rw [h]

variable (hinv : db.invoices.get? inv.id = some inv) (hsel : (init db inv.customer invoice).invoice = some inv.id)
  (hcc : db.customerCredit? inv.customer = some cc)

include hinv hsel hcc

/-- The roll-back of a fresh object, if there is something to roll back. -/
theorem clear_init : (init db inv.customer invoice).clearCompensations db today =
    if inv.compensations = [] then .ok (db, init db inv.customer invoice)
    else (init db inv.customer invoice).rollBack db today cc.load inv.compensations := by
  have hcust : cc.customer = inv.customer := (Table.get?_eq_some.mp hcc).2
  have hget : (init db inv.customer invoice).getInvoice db = some inv := by
    unfold getInvoice
    rw [hsel]
    exact hinv
  have hcalc : (init db inv.customer invoice).calculated = false := rfl
  unfold clearCompensations
  simp only [hcalc, Bool.false_eq_true, if_false, credit_init hcc, hget]
  unfold Invoice.compensations
  rw [← hcust]
  rfl

/-- **When a roll-back goes through**: every refunded project credit passes its check. -/
theorem clear_init_iff (hitems : inv.compensations ≠ []) :
    (∃ r, (init db inv.customer invoice).clearCompensations db today = .ok r) ↔
      db.SeriesFits (refundedValue today inv cc) (refundedCredits db inv) := by
  rw [clear_init hinv hsel hcc, if_neg hitems]
  have hcust : cc.customer = inv.customer := (Table.get?_eq_some.mp hcc).2
  have hstored := customerCredit_writeCustomerCredit_of_stored ((init db inv.customer invoice).rollBackState db)
    .value hcc (rolledBackCredit today cc.load inv.compensations) hcust
  have hseries : (∃ db₁, (db.writeCustomerCredit ((init db inv.customer invoice).rollBackState db)
      (rolledBackCredit today cc.load inv.compensations) .value).saveProjectCredits
        ((init db inv.customer invoice).rollBackState db) (refundedCredits db inv) .value = .ok db₁) ↔
      db.SeriesFits (refundedValue today inv cc) (refundedCredits db inv) :=
    (saveProjectCredits_iff_seriesFits nodup_refundedCredits (fun _ hpc => customer_of_mem_refundedCredits hpc)
      hstored).trans (Db.SeriesFits.congr rfl)
  rw [← hseries]
  constructor
  · rintro ⟨⟨db', mc'⟩, h⟩
    obtain ⟨db₁, h₁, -⟩ := rollBack_eq_ok.mp h
    exact ⟨db₁, h₁⟩
  · rintro ⟨db₁, h₁⟩
    exact ⟨(_, _), rollBack_eq_ok.mpr ⟨db₁, h₁, rfl, rfl⟩⟩

/-- **What a roll-back leaves**, and the object is as good as new. -/
theorem clear_init_fields (hitems : inv.compensations ≠ [])
    (h : (init db inv.customer invoice).clearCompensations db today = .ok (db', mc')) :
    (db.rolledBack today inv cc).SameTables db' ∧ mc' = init db' inv.customer (some inv.id) := by
  rw [clear_init hinv hsel hcc, if_neg hitems] at h
  have hcust : cc.customer = inv.customer := (Table.get?_eq_some.mp hcc).2
  obtain ⟨db₁, h₁, rfl, rfl⟩ := rollBack_eq_ok.mp h
  obtain ⟨-, rfl⟩ := (saveProjectCredits_eq_ok rfl _ _ _).mp h₁
  have htables : (db.rolledBack today inv cc).SameTables ((init db inv.customer invoice).deleteItems
      ((db.writeCustomerCredit ((init db inv.customer invoice).rollBackState db)
        (rolledBackCredit today cc.load inv.compensations) .value).writeProjectCredits
          ((init db inv.customer invoice).rollBackState db) (refundedCredits db inv) .value) cc) := by
    refine ⟨⟨?_, ?_⟩, ?_⟩
    · rw [deleteItems_customerCredits, writeProjectCredits_customerCredits]
      refine Table.ext (List.map_congr_left fun stored _ => ?_)
      show (if stored.customer = cc.customer then _ else _) = _
      rw [hcust]
      rfl
    · rw [deleteItems_projectCredits]
      exact Table.ext (writeProjectCredits_rows _ _ nodup_refundedCredits)
    · rw [deleteItems_invoices hsel, writeProjectCredits_invoices]
      refine Table.ext (List.map_congr_left fun stored hst => ?_)
      by_cases hid : stored.id = inv.id
      · obtain rfl : stored = inv := by
          have hget : db.invoices.get? inv.id = some stored := Table.get?_eq_some.mpr ⟨hst, hid⟩
          exact Option.some.inj (hget.symm.trans hinv)
        rw [hcust]
        rfl
      · rw [if_neg hid, if_neg hid]
  refine ⟨htables, ?_⟩
  have hcredit := (htables.customerCredit? inv.customer).trans (settle_customerCredit hcc)
  have hobj : ∀ credit, { init db inv.customer invoice with credit := some credit } =
      ({ customer := inv.customer, invoice := (init db inv.customer invoice).invoice, credit := some credit } :
        MonthlyCompensation) := fun _ => rfl
  rw [hobj, hsel]
  exact (init_eq hcredit).symm

end

end Waldur.Invoices
