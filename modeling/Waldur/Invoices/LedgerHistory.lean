import Mathlib
import Waldur.Invoices.CompensationSave
import Waldur.Invoices.Expiry
import Waldur.Invoices.Handlers

/-!
# Invoices.LedgerHistory — the ledger is the balance, over whole histories

The operations of the application that write credits, as one machine on the database: an operation
commits, or raises and leaves the database as it was.  Each of them saves instances it has read from the
stored rows, so each keeps `Balanced` (one lemma per operation), and with it every history does.
-/

namespace Waldur.Invoices

open Calendar Relational Runs

/-- The operations.  The saves of staff may run inside any ledger block; `billing` stands for whatever the
rest of the application does to the invoices. -/
inductive Operation
  | createCustomerCredit (ledger : LedgerState) (credit : CustomerCredit)
  | createProjectCredit (ledger : LedgerState) (credit : ProjectCredit)
  | saveCustomerCredit (ledger : LedgerState) (credit : CustomerCredit) (fields : UpdateFields)
  | saveProjectCredit (ledger : LedgerState) (credit : ProjectCredit) (fields : UpdateFields)
  | saveCompensations (customer : ℕ) (invoice : Option ℕ) (today : Date)
  | clearCompensations (customer : ℕ) (invoice : Option ℕ) (today : Date)
  | applyCompensations (customer : ℕ) (invoice : Option ℕ) (today : Date)
  | processInvoiceCredits (invoice : Invoice) (today : Date)
  | setToZeroOverdueCredits (today : Date) (effectiveDate : Option Date)
  | removeProject (project : Project)
  | accrueAffiliateFee (link : CustomerAffiliate) (invoice : Invoice)
  | billing (invoices : Table ℕ Invoice Invoice.id)

namespace Db

/-- Staff edit a stored credit: the instance is read, changed and saved. -/
def staffSaveCustomerCredit (db : Db) (st : LedgerState) (cc : CustomerCredit) (fields : UpdateFields) :
    Option Db :=
  (db.customerCredit? cc.customer).bind (fun stored => (db.saveCustomerCredit st ⟨cc, stored.value⟩ fields).toOption)

def staffSaveProjectCredit (db : Db) (st : LedgerState) (pc : ProjectCredit) (fields : UpdateFields) : Option Db :=
  (db.projectCredit? pc.project).bind (fun stored => (db.saveProjectCredit st ⟨pc, stored.value⟩ fields).toOption)

/-- A second credit of an organization or a project breaks a unique key. -/
def insertCustomerCredit (db : Db) (st : LedgerState) (cc : CustomerCredit) : Option Db :=
  if h : db.customerCredits.get? cc.customer = none then (db.createCustomerCredit st cc h).toOption else none

def insertProjectCredit (db : Db) (st : LedgerState) (pc : ProjectCredit) : Option Db :=
  if h : db.projectCredits.get? pc.project = none then (db.createProjectCredit st pc h).toOption else none

/-- What an operation commits, if it does. -/
def perform (db : Db) : Operation → Option Db
  | .createCustomerCredit st cc => db.insertCustomerCredit st cc
  | .createProjectCredit st pc => db.insertProjectCredit st pc
  | .saveCustomerCredit st cc fields => db.staffSaveCustomerCredit st cc fields
  | .saveProjectCredit st pc fields => db.staffSaveProjectCredit st pc fields
  | .saveCompensations customer invoice today =>
    (((MonthlyCompensation.init db customer invoice).save db today).map Prod.fst).toOption
  | .clearCompensations customer invoice today =>
    (((MonthlyCompensation.init db customer invoice).clearCompensations db today).map Prod.fst).toOption
  | .applyCompensations customer invoice today =>
    (((MonthlyCompensation.init db customer invoice).applyCompensations db today).map Prod.fst).toOption
  | .processInvoiceCredits inv today => (Invoices.processInvoiceCredits db today inv).toOption
  | .setToZeroOverdueCredits today effectiveDate =>
    (Invoices.setToZeroOverdueCredits db today effectiveDate).toOption
  | .removeProject project => (refundProjectCreditOnProjectRemoval db project).toOption
  | .accrueAffiliateFee link inv => (Invoices.accrueAffiliateFee db link inv).toOption
  | .billing invoices => some { db with invoices := invoices }

/-- An operation commits or rolls back as a whole. -/
def step (db : Db) (op : Operation) : Db := (db.perform op).getD db

end Db

/-! ## Each operation keeps the ledger balanced -/

section Operations

variable {db db' : Db}

theorem toOption_eq_some {ε α : Type} {x : Except ε α} {a : α} : x.toOption = some a ↔ x = .ok a := by
  cases x <;> simp [Except.toOption]

theorem toOption_map_fst_eq_some {ε α β : Type} {x : Except ε (α × β)} {a : α}
    (h : (x.map Prod.fst).toOption = some a) : ∃ b, x = .ok (a, b) := by
  cases x with
  | error e => cases h
  | ok p =>
    obtain rfl := Option.some.inj h
    exact ⟨p.2, rfl⟩

theorem saveCustomerCredit_eq_ok {st : LedgerState} {cc : Loaded CustomerCredit} {fields : UpdateFields}
    (h : db.saveCustomerCredit st cc fields = .ok db') : db' = db.writeCustomerCredit st cc fields := by
  obtain ⟨_, _, h⟩ := bind_eq_ok.mp h
  exact (Except.ok.inj h).symm

theorem balanced_staffSaveCustomerCredit {st : LedgerState} {cc : CustomerCredit} {fields : UpdateFields}
    (hb : db.Balanced) (h : db.staffSaveCustomerCredit st cc fields = some db') : db'.Balanced := by
  obtain ⟨stored, hst, h⟩ := Option.bind_eq_some_iff.mp h
  rw [saveCustomerCredit_eq_ok (toOption_eq_some.mp h)]
  exact hb.writeCustomerCredit st fields hst rfl

theorem balanced_staffSaveProjectCredit {st : LedgerState} {pc : ProjectCredit} {fields : UpdateFields}
    (hb : db.Balanced) (h : db.staffSaveProjectCredit st pc fields = some db') : db'.Balanced := by
  obtain ⟨stored, hst, h⟩ := Option.bind_eq_some_iff.mp h
  obtain ⟨-, -, rfl⟩ := saveProjectCredit_eq_ok.mp (toOption_eq_some.mp h)
  exact hb.writeProjectCredit st fields hst rfl

/-- A created credit opens with one movement from zero. -/
theorem balanced_createCustomerCredit {st : LedgerState} {cc : CustomerCredit}
    {hnone : db.customerCredits.get? cc.customer = none} (hb : db.Balanced)
    (h : db.createCustomerCredit st cc hnone = .ok db') : db'.Balanced := by
  obtain ⟨_, _, h⟩ := bind_eq_ok.mp h
  obtain rfl := Except.ok.inj h
  have hget : ∀ c, (db.customerCredits.insert cc hnone).get? c =
      if c = cc.customer then some cc else db.customerCredits.get? c := Table.get?_insert _ cc hnone
  refine Journal.Tracks.post hb (fun row hrow => credit_of_mem_record hrow) ?_ (fun key hkey => ?_)
  · have hzero : db.balance (.customer cc.customer) = 0 := by simp [Db.balance, Db.customerCredit?, hnone]
    rw [hzero, sum_record rfl]
    simp [Db.balance, Db.customerCredit?, hget]
  · cases key with
    | project p => rfl
    | customer c =>
      have hc : c ≠ cc.customer := fun hc => hkey (by rw [hc])
      simp [Db.balance, Db.customerCredit?, hget, hc]

theorem balanced_createProjectCredit {st : LedgerState} {pc : ProjectCredit}
    {hnone : db.projectCredits.get? pc.project = none} (hb : db.Balanced)
    (h : db.createProjectCredit st pc hnone = .ok db') : db'.Balanced := by
  obtain ⟨_, _, h⟩ := bind_eq_ok.mp h
  obtain ⟨_, _, h⟩ := bind_eq_ok.mp h
  obtain rfl := Except.ok.inj h
  have hget : ∀ p, (db.projectCredits.insert pc hnone).get? p =
      if p = pc.project then some pc else db.projectCredits.get? p := Table.get?_insert _ pc hnone
  refine Journal.Tracks.post hb (fun row hrow => credit_of_mem_record hrow) ?_ (fun key hkey => ?_)
  · have hzero : db.balance (.project pc.project) = 0 := by simp [Db.balance, Db.projectCredit?, hnone]
    rw [hzero, sum_record rfl]
    simp [Db.balance, Db.projectCredit?, hget]
  · cases key with
    | customer c => rfl
    | project p =>
      have hp : p ≠ pc.project := fun hp => hkey (by rw [hp])
      simp [Db.balance, Db.projectCredit?, hget, hp]

theorem balanced_spendUnusedCredit {st : LedgerState} {cc : CustomerCredit} {pc : ProjectCredit}
    (hb : db.Balanced) (hcc : db.customerCredit? cc.customer = some cc)
    (h : spendUnusedCredit db st cc pc = .ok db') :
    db'.Balanced ∧ db'.projectCredits = db.projectCredits := by
  unfold spendUnusedCredit at h
  by_cases hmark : pc.markUnusedCreditAsSpentOnProjectTermination = true
  · rw [if_pos hmark] at h
    rw [saveCustomerCredit_eq_ok h]
    exact ⟨hb.writeCustomerCredit _ _ hcc rfl, rfl⟩
  · rw [if_neg hmark] at h
    exact Except.ok.inj h ▸ ⟨hb, rfl⟩

theorem balanced_refund {project : Project} (hb : db.Balanced)
    (h : refundProjectCreditOnProjectRemoval db project = .ok db') : db'.Balanced := by
  unfold refundProjectCreditOnProjectRemoval at h
  split at h
  · next pc cc hpc hcc =>
    have hpc' : db.projectCredit? pc.project = some pc := by rw [(Table.get?_eq_some.mp hpc).2]; exact hpc
    have hcc' : db.customerCredit? cc.customer = some cc := by rw [(Table.get?_eq_some.mp hcc).2]; exact hcc
    by_cases hle : pc.value ≤ 0
    · rw [if_pos hle] at h
      exact Except.ok.inj h ▸ hb
    · rw [if_neg hle] at h
      obtain ⟨db₁, h₁, h₂⟩ := bind_eq_ok.mp h
      obtain ⟨hb₁, hsame⟩ := balanced_spendUnusedCredit hb hcc' h₁
      by_cases hzero : pc.value = 0
      · rw [if_pos hzero] at h₂
        exact Except.ok.inj h₂ ▸ hb₁
      · rw [if_neg hzero] at h₂
        obtain ⟨-, -, rfl⟩ := saveProjectCredit_eq_ok.mp h₂
        have hst : db₁.projectCredit? pc.project = some pc := by
          unfold Db.projectCredit? at hpc' ⊢
          rwa [hsame]
        exact hb₁.writeProjectCredit _ _ hst rfl
  · exact Except.ok.inj h ▸ hb

theorem balanced_getOrCreate {customer : ℕ} {cc : CustomerCredit} (hb : db.Balanced)
    (h : db.getOrCreateCustomerCredit customer = .ok (db', cc)) :
    db'.Balanced ∧ db'.customerCredit? cc.customer = some cc := by
  unfold Db.getOrCreateCustomerCredit at h
  split at h
  · next credit hcc =>
    obtain ⟨rfl, rfl⟩ := Prod.mk.inj (Except.ok.inj h)
    exact ⟨hb, by rw [(Table.get?_eq_some.mp hcc).2]; exact hcc⟩
  · next hnone =>
    obtain ⟨db₁, h₁, h⟩ := bind_eq_ok.mp h
    obtain ⟨rfl, rfl⟩ := Prod.mk.inj (Except.ok.inj h)
    refine ⟨balanced_createCustomerCredit hb h₁, ?_⟩
    obtain ⟨_, _, h₁⟩ := bind_eq_ok.mp h₁
    obtain rfl := Except.ok.inj h₁
    exact (Table.get?_insert db.customerCredits _ hnone customer).trans (if_pos rfl)

theorem balanced_accrue {link : CustomerAffiliate} {inv : Invoice} (hb : db.Balanced)
    (h : accrueAffiliateFee db link inv = .ok db') : db'.Balanced := by
  unfold accrueAffiliateFee at h
  dsimp only at h
  split_ifs at h
  · exact Except.ok.inj h ▸ hb
  · exact Except.ok.inj h ▸ hb
  · obtain ⟨⟨db₁, cc⟩, h₁, h₂⟩ := bind_eq_ok.mp h
    obtain ⟨hb₁, hcc⟩ := balanced_getOrCreate hb h₁
    rw [saveCustomerCredit_eq_ok h₂]
    exact (hb₁.congr rfl rfl).writeCustomerCredit _ _ hcc rfl

/-- An expiry row pays out the balance it forfeits. -/
theorem Forfeits.balanced {effectiveDate : Date} (hb : db.Balanced) (h : Forfeits effectiveDate db db') :
    db'.Balanced := by
  obtain ⟨new, ht, hkeys⟩ := h
  intro key
  rw [ht, Journal.posted_append, ← add_assoc]
  have hold := hb key
  rcases hkeys key with ⟨hbal, hnil⟩ | ⟨-, hz, hone⟩
  · rw [hbal, ← hold, Journal.posted, hnil]
    simp
  · rw [hz, ← hold, Journal.posted, hone]
    simp [expiryRow]

theorem balanced_expire {today : Date} {effectiveDate : Option Date} (hb : db.Balanced)
    (h : setToZeroOverdueCredits db today effectiveDate = .ok db') : db'.Balanced := by
  unfold setToZeroOverdueCredits at h
  dsimp only at h
  split_ifs at h
  obtain rfl := Except.ok.inj h
  exact Forfeits.balanced hb (forfeits_task db _)

/-- **One operation** keeps the ledger equal to the balances. -/
theorem balanced_step (op : Operation) (hb : db.Balanced) : (db.step op).Balanced := by
  unfold Db.step
  cases hp : db.perform op with
  | none => exact hb
  | some db' =>
    rw [Option.getD_some]
    cases op with
    | createCustomerCredit st cc =>
      simp only [Db.perform, Db.insertCustomerCredit] at hp
      split at hp
      · exact balanced_createCustomerCredit hb (toOption_eq_some.mp hp)
      · cases hp
    | createProjectCredit st pc =>
      simp only [Db.perform, Db.insertProjectCredit] at hp
      split at hp
      · exact balanced_createProjectCredit hb (toOption_eq_some.mp hp)
      · cases hp
    | saveCustomerCredit st cc fields => exact balanced_staffSaveCustomerCredit hb hp
    | saveProjectCredit st pc fields => exact balanced_staffSaveProjectCredit hb hp
    | saveCompensations customer invoice today =>
      obtain ⟨mc, h⟩ := toOption_map_fst_eq_some hp
      exact MonthlyCompensation.balanced_save hb (MonthlyCompensation.fresh_init db _ _) h
    | clearCompensations customer invoice today =>
      obtain ⟨mc, h⟩ := toOption_map_fst_eq_some hp
      exact (MonthlyCompensation.balanced_clear hb (MonthlyCompensation.fresh_init db _ _) h).1
    | applyCompensations customer invoice today =>
      obtain ⟨mc, h⟩ := toOption_map_fst_eq_some hp
      exact MonthlyCompensation.balanced_apply hb (MonthlyCompensation.fresh_init db _ _) h
    | processInvoiceCredits inv today => exact balanced_processInvoiceCredits hb (toOption_eq_some.mp hp)
    | setToZeroOverdueCredits today effectiveDate => exact balanced_expire hb (toOption_eq_some.mp hp)
    | removeProject project => exact balanced_refund hb (toOption_eq_some.mp hp)
    | accrueAffiliateFee link inv => exact balanced_accrue hb (toOption_eq_some.mp hp)
    | billing invoices =>
      obtain rfl := Option.some.inj hp
      exact hb.congr rfl rfl

end Operations

/-- The ledger rows of a credit add up to this. -/
def Db.ledgerSum (db : Db) (key : CreditKey) : ℚ :=
  ((db.transactions.filter (fun row => decide (row.credit = key))).map (·.amount)).sum

/-- A database before its first credit. -/
def Db.withoutCredits (invoices : Table ℕ Invoice Invoice.id) : Db := { Db.empty with invoices := invoices }

theorem Db.Balanced.eq_ledgerSum {db : Db} (hb : db.Balanced) :
    (∀ cc ∈ db.customerCredits.rows, db.ledgerSum (.customer cc.customer) = cc.value) ∧
      ∀ pc ∈ db.projectCredits.rows, db.ledgerSum (.project pc.project) = pc.value := by
  constructor
  · intro cc hcc
    have hst : db.customerCredit? cc.customer = some cc := Table.get?_eq_some.mpr ⟨hcc, rfl⟩
    have h := hb (.customer cc.customer)
    rw [zero_add] at h
    refine h.symm.trans ?_
    simp [Db.balance, hst]
  · intro pc hpc
    have hst : db.projectCredit? pc.project = some pc := Table.get?_eq_some.mpr ⟨hpc, rfl⟩
    have h := hb (.project pc.project)
    rw [zero_add] at h
    refine h.symm.trans ?_
    simp [Db.balance, hst]

/-- **The ledger is the balance**: after every history of operations, the rows of each credit add up to
its value. -/
theorem ledgerSum_eq_value_of_history (invoices : Table ℕ Invoice Invoice.id) (ops : List Operation) :
    (∀ cc ∈ (run Db.step (Db.withoutCredits invoices) ops).customerCredits.rows,
      (run Db.step (Db.withoutCredits invoices) ops).ledgerSum (.customer cc.customer) = cc.value) ∧
    ∀ pc ∈ (run Db.step (Db.withoutCredits invoices) ops).projectCredits.rows,
      (run Db.step (Db.withoutCredits invoices) ops).ledgerSum (.project pc.project) = pc.value := by
  have h₀ : (Db.withoutCredits invoices).Balanced := Db.balanced_empty.congr rfl rfl
  exact (run_invariant (fun _ op hb => balanced_step op hb) ops _ h₀).eq_ledgerSum

end Waldur.Invoices
