import Mathlib
import Waldur.Invoices.CreditSave

/-!
# Invoices.CreditLedger — what a save does to balances and to the ledger

One spec lemma for each write: which rows `recordCreditTransaction` adds (their credit, their sum), what
a write leaves of every stored credit, and that a write of an instance loaded from the stored row keeps
the ledger equal to the balances (`Balanced`).
-/

namespace Waldur.Invoices

open Calendar Relational

/-! ## The rows of one movement -/

theorem credit_of_mem_partRows {st : LedgerState} {key : CreditKey} {parts : List TransactionPart}
    {row : CreditTransaction} (h : row ∈ partRows st key parts) : row.credit = key := by
  obtain ⟨part, -, rfl⟩ := List.mem_map.mp h
  rfl

@[simp] theorem credit_typeRow (st : LedgerState) (key : CreditKey) (delta : ℚ) :
    (typeRow st key delta).credit = key := by
  unfold typeRow
  split <;> rfl

@[simp] theorem amount_typeRow (st : LedgerState) (key : CreditKey) (delta : ℚ) :
    (typeRow st key delta).amount = delta := by
  unfold typeRow
  split <;> rfl

theorem sum_partRows (st : LedgerState) (key : CreditKey) (parts : List TransactionPart) :
    ((partRows st key parts).map (·.amount)).sum = (parts.map (·.amount)).sum := by
  induction parts with
  | nil => rfl
  | cons part parts ih =>
    unfold partRows at ih ⊢
    by_cases h : part.amount = 0
    · rw [List.filter_cons_of_neg (by simpa using h), ih, List.map_cons, List.sum_cons, h, zero_add]
    · rw [List.filter_cons_of_pos (by simpa using h)]
      simp only [List.map_cons, List.sum_cons, ih]

/-- Every row moves the saved credit. -/
theorem credit_of_mem_record {st : LedgerState} {key : CreditKey} {fields : UpdateFields}
    {previous : Option ℚ} {value : ℚ} {row : CreditTransaction}
    (h : row ∈ recordCreditTransaction st key fields previous value) : row.credit = key := by
  unfold recordCreditTransaction at h
  by_cases hf : fields.writesValue
  · simp only [hf, Bool.not_true, Bool.false_eq_true, if_false] at h
    split_ifs at h with h0 hp
    · cases h
    · exact credit_of_mem_partRows h
    · rw [List.mem_singleton.mp h]
      exact credit_typeRow st key _
  · simp [hf] at h

theorem record_of_not_writesValue {st : LedgerState} {key : CreditKey} {fields : UpdateFields}
    {previous : Option ℚ} {value : ℚ} (h : fields.writesValue = false) :
    recordCreditTransaction st key fields previous value = [] := by
  simp [recordCreditTransaction, h]

/-- **The rows add up to the movement**, whether the breakdown is taken or refused. -/
theorem sum_record {st : LedgerState} {key : CreditKey} {fields : UpdateFields}
    {previous : Option ℚ} {value : ℚ} (h : fields.writesValue = true) :
    ((recordCreditTransaction st key fields previous value).map (·.amount)).sum =
      value - previous.getD 0 := by
  unfold recordCreditTransaction
  simp only [h, Bool.not_true, Bool.false_eq_true, if_false]
  split_ifs with h0 hp
  · rw [h0]; rfl
  · rw [sum_partRows, hp.2]
  · rw [List.map_singleton, List.sum_singleton, amount_typeRow]

/-! ## What a write leaves in the tables -/

@[simp] theorem merge_value (fields : UpdateFields) (stored new : BaseCredit) :
    (stored.merge fields new).value = if fields.writesValue then new.value else stored.value := by
  cases fields <;> rfl

section Write

variable (db : Db) (st : LedgerState) (fields : UpdateFields)

@[simp] theorem projectCredits_writeCustomerCredit (cc : Loaded CustomerCredit) :
    (db.writeCustomerCredit st cc fields).projectCredits = db.projectCredits := rfl

@[simp] theorem customerCredits_writeProjectCredit (pc : Loaded ProjectCredit) :
    (db.writeProjectCredit st pc fields).customerCredits = db.customerCredits := rfl

@[simp] theorem invoices_writeCustomerCredit (cc : Loaded CustomerCredit) :
    (db.writeCustomerCredit st cc fields).invoices = db.invoices := rfl

@[simp] theorem invoices_writeProjectCredit (pc : Loaded ProjectCredit) :
    (db.writeProjectCredit st pc fields).invoices = db.invoices := rfl

theorem customerCredit_writeCustomerCredit (cc : Loaded CustomerCredit) :
    (db.writeCustomerCredit st cc fields).customerCredit? cc.obj.customer =
      (db.customerCredit? cc.obj.customer).map (CustomerCredit.overwrite fields cc.obj) :=
  Table.get?_update_self db.customerCredits _ (CustomerCredit.overwrite fields cc.obj) (fun _ => rfl)

theorem projectCredit_writeProjectCredit (pc : Loaded ProjectCredit) :
    (db.writeProjectCredit st pc fields).projectCredit? pc.obj.project =
      (db.projectCredit? pc.obj.project).map (ProjectCredit.overwrite fields pc.obj) :=
  Table.get?_update_self db.projectCredits _ (ProjectCredit.overwrite fields pc.obj) (fun _ => rfl)

theorem customerCredit_writeCustomerCredit_ne (cc : Loaded CustomerCredit) {c : ℕ}
    (h : c ≠ cc.obj.customer) :
    (db.writeCustomerCredit st cc fields).customerCredit? c = db.customerCredit? c :=
  Table.get?_update_ne db.customerCredits (CustomerCredit.overwrite fields cc.obj) (fun _ => rfl) h

theorem projectCredit_writeProjectCredit_ne (pc : Loaded ProjectCredit) {p : Project}
    (h : p ≠ pc.obj.project) :
    (db.writeProjectCredit st pc fields).projectCredit? p = db.projectCredit? p :=
  Table.get?_update_ne db.projectCredits (ProjectCredit.overwrite fields pc.obj) (fun _ => rfl) h

variable {db}

theorem customerCredit_writeCustomerCredit_of_stored {c : ℕ} {stored : CustomerCredit}
    (h : db.customerCredit? c = some stored) (cc : Loaded CustomerCredit) (hc : cc.obj.customer = c) :
    (db.writeCustomerCredit st cc fields).customerCredit? c =
      some (CustomerCredit.overwrite fields cc.obj stored) := by
  subst hc
  rw [customerCredit_writeCustomerCredit, h]
  rfl

theorem balance_writeCustomerCredit (cc : Loaded CustomerCredit) {stored : CustomerCredit}
    (h : db.customerCredit? cc.obj.customer = some stored) :
    (db.writeCustomerCredit st cc fields).balance (.customer cc.obj.customer) =
      if fields.writesValue then cc.obj.value else stored.value := by
  simp only [Db.balance, customerCredit_writeCustomerCredit, h, Option.map_some, Option.getD_some]
  exact merge_value fields stored.toBaseCredit cc.obj.toBaseCredit

theorem balance_writeProjectCredit (pc : Loaded ProjectCredit) {stored : ProjectCredit}
    (h : db.projectCredit? pc.obj.project = some stored) :
    (db.writeProjectCredit st pc fields).balance (.project pc.obj.project) =
      if fields.writesValue then pc.obj.value else stored.value := by
  simp only [Db.balance, projectCredit_writeProjectCredit, h, Option.map_some, Option.getD_some]
  exact merge_value fields stored.toBaseCredit pc.obj.toBaseCredit

theorem balance_writeCustomerCredit_ne (cc : Loaded CustomerCredit) {key : CreditKey}
    (h : key ≠ .customer cc.obj.customer) :
    (db.writeCustomerCredit st cc fields).balance key = db.balance key := by
  cases key with
  | customer c =>
    have hc : c ≠ cc.obj.customer := fun hc => h (by rw [hc])
    simp only [Db.balance, customerCredit_writeCustomerCredit_ne db st fields cc hc]
  | project p => rfl

theorem balance_writeProjectCredit_ne (pc : Loaded ProjectCredit) {key : CreditKey}
    (h : key ≠ .project pc.obj.project) :
    (db.writeProjectCredit st pc fields).balance key = db.balance key := by
  cases key with
  | customer c => rfl
  | project p =>
    have hp : p ≠ pc.obj.project := fun hp => h (by rw [hp])
    simp only [Db.balance, projectCredit_writeProjectCredit_ne db st fields pc hp]

/-- A save without the value column moves no balance. -/
theorem balance_writeProjectCredit_of_not_writesValue (pc : Loaded ProjectCredit)
    (hf : fields.writesValue = false) (key : CreditKey) :
    (db.writeProjectCredit st pc fields).balance key = db.balance key := by
  by_cases hkey : key = .project pc.obj.project
  · subst hkey
    cases h : db.projectCredit? pc.obj.project with
    | none => simp only [Db.balance, projectCredit_writeProjectCredit, h, Option.map_none]
    | some stored =>
      rw [balance_writeProjectCredit st fields pc h, hf]
      simp [Db.balance, h]
  · exact balance_writeProjectCredit_ne st fields pc hkey

theorem balance_writeCustomerCredit_of_not_writesValue (cc : Loaded CustomerCredit)
    (hf : fields.writesValue = false) (key : CreditKey) :
    (db.writeCustomerCredit st cc fields).balance key = db.balance key := by
  by_cases hkey : key = .customer cc.obj.customer
  · subst hkey
    cases h : db.customerCredit? cc.obj.customer with
    | none => simp only [Db.balance, customerCredit_writeCustomerCredit, h, Option.map_none]
    | some stored =>
      rw [balance_writeCustomerCredit st fields cc h, hf]
      simp [Db.balance, h]
  · exact balance_writeCustomerCredit_ne st fields cc hkey

end Write

/-! ## The ledger is the balance -/

/-- Every balance is the sum of the ledger rows of its credit; a credit that does not exist has none. -/
def Db.Balanced (db : Db) : Prop :=
  Journal.Tracks (·.credit) (·.amount) (fun _ => (0 : ℚ)) db.balance db.transactions

theorem Db.balanced_empty : Db.empty.Balanced := by
  intro key
  cases key <;> simp [Db.balance, Db.customerCredit?, Db.projectCredit?, Db.empty, Table.get?, Table.empty]

/-- A save whose tracked value is the stored one keeps the ledger balanced. -/
theorem Db.Balanced.writeCustomerCredit {db : Db} (hb : db.Balanced) (st : LedgerState)
    (fields : UpdateFields) {cc : Loaded CustomerCredit} {stored : CustomerCredit}
    (h : db.customerCredit? cc.obj.customer = some stored) (hs : cc.saved = stored.value) :
    (db.writeCustomerCredit st cc fields).Balanced := by
  refine Journal.Tracks.post hb (k := .customer cc.obj.customer) (fun r hr => credit_of_mem_record hr) ?_
    (fun key hkey => balance_writeCustomerCredit_ne st fields cc hkey)
  rw [balance_writeCustomerCredit st fields cc h]
  have hbal : db.balance (.customer cc.obj.customer) = stored.value := by simp [Db.balance, h]
  cases hf : fields.writesValue with
  | true => rw [sum_record hf, hbal, Option.getD_some, hs, if_pos rfl]; ring
  | false => rw [record_of_not_writesValue hf, hbal]; simp

theorem Db.Balanced.writeProjectCredit {db : Db} (hb : db.Balanced) (st : LedgerState)
    (fields : UpdateFields) {pc : Loaded ProjectCredit} {stored : ProjectCredit}
    (h : db.projectCredit? pc.obj.project = some stored) (hs : pc.saved = stored.value) :
    (db.writeProjectCredit st pc fields).Balanced := by
  refine Journal.Tracks.post hb (k := .project pc.obj.project) (fun r hr => credit_of_mem_record hr) ?_
    (fun key hkey => balance_writeProjectCredit_ne st fields pc hkey)
  rw [balance_writeProjectCredit st fields pc h]
  have hbal : db.balance (.project pc.obj.project) = stored.value := by simp [Db.balance, h]
  cases hf : fields.writesValue with
  | true => rw [sum_record hf, hbal, Option.getD_some, hs, if_pos rfl]; ring
  | false => rw [record_of_not_writesValue hf, hbal]; simp

/-- Balances and rows decide whether the ledger is balanced. -/
theorem Db.Balanced.congr {db db' : Db} (hb : db.Balanced) (hbal : db'.balance = db.balance)
    (ht : db'.transactions = db.transactions) : db'.Balanced := by
  unfold Db.Balanced
  rw [hbal, ht]
  exact hb

theorem Db.Balanced.writeProjectCredit_of_not_writesValue {db : Db} (hb : db.Balanced) (st : LedgerState)
    {fields : UpdateFields} (hf : fields.writesValue = false) (pc : Loaded ProjectCredit) :
    (db.writeProjectCredit st pc fields).Balanced := by
  refine hb.congr (funext (balance_writeProjectCredit_of_not_writesValue st fields pc hf)) ?_
  show db.transactions ++ _ = _
  rw [record_of_not_writesValue hf, List.append_nil]

theorem Db.Balanced.writeCustomerCredit_of_not_writesValue {db : Db} (hb : db.Balanced) (st : LedgerState)
    {fields : UpdateFields} (hf : fields.writesValue = false) (cc : Loaded CustomerCredit) :
    (db.writeCustomerCredit st cc fields).Balanced := by
  refine hb.congr (funext (balance_writeCustomerCredit_of_not_writesValue st fields cc hf)) ?_
  show db.transactions ++ _ = _
  rw [record_of_not_writesValue hf, List.append_nil]

end Waldur.Invoices
