import Mathlib
import Waldur.Lib.Runs
import Waldur.Invoices.CreditLedger

/-!
# Invoices.Withdrawable — `withdrawable_balance` over a history

The withdrawable balance is the ledger sum of the withdrawable types, capped by the value.  Draws and
expiries lower the value without lowering that sum, so it can exceed the value, and then an inflow that
was never earned becomes withdrawable.  A history is a run of value changes of one organization credit;
the flag in its state says that the credit expired and earned nothing since.
-/

namespace Waldur.Invoices

open Runs

/-- The withdrawable part of some ledger rows. -/
def withdrawableSum (rows : List CreditTransaction) : ℚ :=
  ((rows.filter (fun row => row.transactionType.isWithdrawable)).map (·.amount)).sum

namespace Db

/-- `self.transactions`, the rows of an organization credit. -/
def creditTransactions (db : Db) (customer : ℕ) : List CreditTransaction :=
  db.transactions.filter (fun row => decide (row.credit = .customer customer))

/-- `earned` of `withdrawable_balance`. -/
def earned (db : Db) (customer : ℕ) : ℚ := withdrawableSum (db.creditTransactions customer)

/-- The value of an organization credit. -/
def creditValue (db : Db) (customer : ℕ) : ℚ := db.balance (.customer customer)

def withdrawableBalance (db : Db) (customer : ℕ) : ℚ :=
  max 0 (min (db.earned customer) (db.creditValue customer))

end Db

/-- A save of a new value, not negative, inside some ledger block. -/
structure ValueChange where
  ledger : LedgerState
  value : ℚ
  nonneg : 0 ≤ value

section History

variable (customer : ℕ)

/-- The rows that `record_credit_transaction` writes for the change. -/
def ValueChange.rows (db : Db) (change : ValueChange) : List CreditTransaction :=
  match db.customerCredit? customer with
  | none => []
  | some cc => recordCreditTransaction change.ledger (.customer customer) .value (some cc.value) change.value

def Db.changeValue (db : Db) (change : ValueChange) : Db :=
  match db.customerCredit? customer with
  | none => db
  | some cc => db.writeCustomerCredit change.ledger ⟨{ cc with value := change.value }, cc.value⟩ .value

/-- The change is a staff grant of a positive amount. -/
def ValueChange.isStaffGrant (db : Db) (change : ValueChange) : Bool :=
  match change.rows customer db with
  | [row] => row.transactionType == .staffGrant && decide (0 < row.amount)
  | _ => false

/-- The change is an expiry of the whole value. -/
def ValueChange.isExpiry (db : Db) (change : ValueChange) : Bool :=
  match change.rows customer db with
  | [row] => row.transactionType == .expiry && decide (change.value = 0)
  | _ => false

/-- The change records an inflow of a withdrawable type. -/
def ValueChange.isWithdrawableInflow (db : Db) (change : ValueChange) : Bool :=
  (change.rows customer db).any (fun row => row.transactionType.isWithdrawable && decide (0 < row.amount))

/-- The credit after a change, and whether it expired and got no withdrawable inflow since. -/
def historyStep (s : Db × Bool) (change : ValueChange) : Db × Bool :=
  (s.1.changeValue customer change,
    change.isExpiry customer s.1 || (s.2 && !change.isWithdrawableInflow customer s.1))

/-- What the withdrawable balance promises at a change: a staff grant leaves it alone, and after an expiry
it stays at zero until something withdrawable comes in. -/
def PromotionalStays (s : Db × Bool) (change : ValueChange) : Prop :=
  (change.isStaffGrant customer s.1 = true →
    (historyStep customer s change).1.withdrawableBalance customer = s.1.withdrawableBalance customer) ∧
  ((historyStep customer s change).2 = true →
    (historyStep customer s change).1.withdrawableBalance customer = 0)

/-- **Where it is kept**: a staff grant finds no more earned than the value, and between an expiry and the
next withdrawable inflow a change that raises the value finds nothing earned, what it pays out included. -/
def EarnedCovered (s : Db × Bool) (change : ValueChange) : Prop :=
  (change.isStaffGrant customer s.1 = true → s.1.earned customer ≤ s.1.creditValue customer) ∧
  (s.2 = true → change.isWithdrawableInflow customer s.1 = false → s.1.creditValue customer < change.value →
    s.1.earned customer + withdrawableSum (change.rows customer s.1) ≤ 0)

instance (s : Db × Bool) (change : ValueChange) : Decidable (PromotionalStays customer s change) :=
  inferInstanceAs (Decidable (_ ∧ _))

instance (s : Db × Bool) (change : ValueChange) : Decidable (EarnedCovered customer s change) :=
  inferInstanceAs (Decidable (_ ∧ _))

/-- The credit exists, and after an expiry it has nothing earned or nothing left. -/
structure HistoryInv (s : Db × Bool) : Prop where
  stored : s.1.customerCredit? customer ≠ none
  nonneg : 0 ≤ s.1.creditValue customer
  expired : s.2 = true → s.1.earned customer ≤ 0 ∨ s.1.creditValue customer = 0

end History

/-! ## One change -/

theorem withdrawableSum_append (rows new : List CreditTransaction) :
    withdrawableSum (rows ++ new) = withdrawableSum rows + withdrawableSum new := by
  simp [withdrawableSum]

section Change

variable {customer : ℕ} {db : Db} {change : ValueChange}

theorem earned_changeValue : (db.changeValue customer change).earned customer =
    db.earned customer + withdrawableSum (change.rows customer db) := by
  unfold Db.changeValue ValueChange.rows
  cases h : db.customerCredit? customer with
  | none =>
    show _ = _ + withdrawableSum []
    simp [withdrawableSum]
  | some cc =>
    have hcust : cc.customer = customer := (Relational.Table.get?_eq_some.mp h).2
    show withdrawableSum ((db.transactions ++ _).filter _) = _
    rw [List.filter_append, withdrawableSum_append]
    congr 1
    have hrows : ∀ row ∈ recordCreditTransaction change.ledger (.customer cc.customer) .value (some cc.value)
        change.value, row.credit = .customer customer := by
      intro row hrow
      rw [credit_of_mem_record hrow, hcust]
    rw [List.filter_eq_self.mpr (fun row hrow => by simpa using hrows row hrow), hcust]

theorem creditValue_changeValue (h : db.customerCredit? customer ≠ none) :
    (db.changeValue customer change).creditValue customer = change.value := by
  obtain ⟨cc, hcc⟩ := Option.ne_none_iff_exists'.mp h
  have hcust : cc.customer = customer := (Relational.Table.get?_eq_some.mp hcc).2
  unfold Db.changeValue
  rw [hcc]
  subst hcust
  exact balance_writeCustomerCredit change.ledger .value ⟨{ cc with value := change.value }, cc.value⟩ hcc

theorem stored_changeValue (h : db.customerCredit? customer ≠ none) :
    (db.changeValue customer change).customerCredit? customer ≠ none := by
  obtain ⟨cc, hcc⟩ := Option.ne_none_iff_exists'.mp h
  have hcust : cc.customer = customer := (Relational.Table.get?_eq_some.mp hcc).2
  unfold Db.changeValue
  rw [hcc]
  subst hcust
  have hw : (db.writeCustomerCredit change.ledger ⟨{ cc with value := change.value }, cc.value⟩
      .value).customerCredit? cc.customer = (db.customerCredit? cc.customer).map _ :=
    customerCredit_writeCustomerCredit db change.ledger .value _
  rw [hcc] at hw
  show (db.writeCustomerCredit _ _ _).customerCredit? cc.customer ≠ none
  rw [hw]
  exact Option.some_ne_none _

theorem isStaffGrant_iff : change.isStaffGrant customer db = true ↔
    ∃ row, change.rows customer db = [row] ∧ row.transactionType = .staffGrant ∧ 0 < row.amount := by
  unfold ValueChange.isStaffGrant
  split
  · next row h => simp [h]
  · next h =>
    refine ⟨nofun, ?_⟩
    rintro ⟨row, hrow, -⟩
    exact absurd hrow (h row)

theorem isExpiry_iff : change.isExpiry customer db = true ↔
    ∃ row, change.rows customer db = [row] ∧ row.transactionType = .expiry ∧ change.value = 0 := by
  unfold ValueChange.isExpiry
  split
  · next row h => simp [h]
  · next h =>
    refine ⟨nofun, ?_⟩
    rintro ⟨row, hrow, -⟩
    exact absurd hrow (h row)

/-- A grant raises the value by its amount and earns nothing. -/
theorem staffGrant_effect (hst : db.customerCredit? customer ≠ none)
    (h : change.isStaffGrant customer db = true) :
    db.creditValue customer < change.value ∧ withdrawableSum (change.rows customer db) = 0 := by
  obtain ⟨row, hrows, htype, hpos⟩ := isStaffGrant_iff.mp h
  obtain ⟨cc, hcc⟩ := Option.ne_none_iff_exists'.mp hst
  constructor
  · have hrec : recordCreditTransaction change.ledger (.customer customer) .value (some cc.value)
        change.value = [row] := by
      unfold ValueChange.rows at hrows
      rwa [hcc] at hrows
    have hsum := @sum_record change.ledger (.customer customer) .value (some cc.value) change.value rfl
    rw [hrec] at hsum
    have hamount : row.amount = change.value - cc.value := by simpa using hsum
    have hvalue : db.creditValue customer = cc.value := by simp [Db.creditValue, Db.balance, hcc]
    rw [hvalue]
    linarith
  · rw [hrows]
    simp [withdrawableSum, htype, TransactionType.isWithdrawable]

/-- Without a withdrawable inflow nothing is earned. -/
theorem withdrawableSum_nonpos (h : change.isWithdrawableInflow customer db = false) :
    withdrawableSum (change.rows customer db) ≤ 0 := by
  unfold ValueChange.isWithdrawableInflow at h
  rw [List.any_eq_false] at h
  unfold withdrawableSum
  revert h
  induction change.rows customer db with
  | nil => exact fun _ => le_refl 0
  | cons row rows ih =>
    intro h
    have hrow := h row List.mem_cons_self
    have hrest := ih (fun row' hrow' => h row' (List.mem_cons_of_mem _ hrow'))
    by_cases hw : row.transactionType.isWithdrawable = true
    · have hle : row.amount ≤ 0 := by simpa [hw] using hrow
      simp only [List.filter_cons, hw, if_true, List.map_cons, List.sum_cons]
      exact add_nonpos hle hrest
    · simp only [List.filter_cons, hw]
      exact hrest

/-- An expiry records nothing withdrawable. -/
theorem expiry_not_inflow (h : change.isExpiry customer db = true) :
    change.isWithdrawableInflow customer db = false := by
  obtain ⟨row, hrows, htype, -⟩ := isExpiry_iff.mp h
  unfold ValueChange.isWithdrawableInflow
  rw [hrows]
  simp [htype, TransactionType.isWithdrawable]

/-- Capped by a value that is not negative, the earned sum follows a rise of the value only above it. -/
theorem capped_eq_iff {e v w : ℚ} (hv : 0 ≤ v) (hvw : v < w) :
    max 0 (min e w) = max 0 (min e v) ↔ e ≤ v := by
  constructor
  · intro h
    by_contra hlt
    rw [not_le] at hlt
    rw [min_eq_right hlt.le, max_eq_right hv] at h
    have hmin : v < min e w := lt_min hlt hvw
    exact absurd h (ne_of_gt (hmin.trans_le (le_max_right 0 _)))
  · intro h
    rw [min_eq_left h, min_eq_left (h.trans hvw.le)]

theorem capped_eq_zero_iff {e v : ℚ} (hv : 0 ≤ v) : max 0 (min e v) = 0 ↔ e ≤ 0 ∨ v = 0 := by
  rw [max_eq_left_iff, min_le_iff]
  exact or_congr_right ⟨fun h => le_antisymm h hv, fun h => h.le⟩

end Change

/-! ## One step of a history -/

section Step

variable {customer : ℕ} {s : Db × Bool} {change : ValueChange}

/-- A grant leaves the withdrawable balance alone exactly if no more is earned than the value. -/
theorem withdrawable_staffGrant_iff (hinv : HistoryInv customer s)
    (h : change.isStaffGrant customer s.1 = true) :
    (historyStep customer s change).1.withdrawableBalance customer = s.1.withdrawableBalance customer ↔
      s.1.earned customer ≤ s.1.creditValue customer := by
  obtain ⟨hlt, hzero⟩ := staffGrant_effect hinv.stored h
  unfold historyStep Db.withdrawableBalance
  rw [earned_changeValue, hzero, add_zero, creditValue_changeValue hinv.stored]
  exact capped_eq_iff hinv.nonneg hlt

theorem withdrawable_step_eq_zero_iff (hinv : HistoryInv customer s) :
    (historyStep customer s change).1.withdrawableBalance customer = 0 ↔
      s.1.earned customer + withdrawableSum (change.rows customer s.1) ≤ 0 ∨ change.value = 0 := by
  unfold historyStep Db.withdrawableBalance
  rw [earned_changeValue, creditValue_changeValue hinv.stored]
  exact capped_eq_zero_iff change.nonneg

/-- After an expiry the balance is zero exactly if the value did not rise or nothing is earned. -/
theorem withdrawable_expired_iff (hinv : HistoryInv customer s) :
    ((historyStep customer s change).2 = true →
        (historyStep customer s change).1.withdrawableBalance customer = 0) ↔
      (s.2 = true → change.isWithdrawableInflow customer s.1 = false →
        s.1.creditValue customer < change.value →
        s.1.earned customer + withdrawableSum (change.rows customer s.1) ≤ 0) := by
  rw [withdrawable_step_eq_zero_iff hinv]
  unfold historyStep
  simp only [Bool.or_eq_true, Bool.and_eq_true, Bool.not_eq_true']
  constructor
  · intro h hs hno hlt
    rcases h (Or.inr ⟨hs, hno⟩) with he | hv
    · exact he
    · rw [hv] at hlt
      exact absurd (hinv.nonneg.trans_lt hlt) (lt_irrefl 0)
  · rintro h (hexp | ⟨hs, hno⟩)
    · obtain ⟨-, -, -, hv⟩ := isExpiry_iff.mp hexp
      exact Or.inr hv
    · by_cases hlt : s.1.creditValue customer < change.value
      · exact Or.inl (h hs hno hlt)
      · rcases hinv.expired hs with he | hv
        · exact Or.inl (add_nonpos he (withdrawableSum_nonpos hno))
        · rw [hv, not_lt] at hlt
          exact Or.inr (le_antisymm hlt change.nonneg)

theorem promotionalStays_iff (hinv : HistoryInv customer s) :
    PromotionalStays customer s change ↔ EarnedCovered customer s change :=
  and_congr (forall_congr' fun h => withdrawable_staffGrant_iff hinv h) (withdrawable_expired_iff hinv)

theorem historyInv_step (hinv : HistoryInv customer s) (h : PromotionalStays customer s change) :
    HistoryInv customer (historyStep customer s change) where
  stored := stored_changeValue hinv.stored
  nonneg := by
    show 0 ≤ (s.1.changeValue customer change).creditValue customer
    rw [creditValue_changeValue hinv.stored]
    exact change.nonneg
  expired := fun hs => by
    have hz := (withdrawable_step_eq_zero_iff hinv).mp (h.2 hs)
    unfold historyStep
    rw [earned_changeValue, creditValue_changeValue hinv.stored]
    exact hz

end Step

/-- **Staff-granted credit stays unwithdrawable** along a history exactly if every change of it finds the
earned sum covered. -/
theorem promotionalStays_along_iff (customer : ℕ) (db : Db) (cc : CustomerCredit)
    (hcc : db.customerCredit? customer = some cc) (hv : 0 ≤ cc.value) (changes : List ValueChange) :
    Along (historyStep customer) (PromotionalStays customer) (db, false) changes ↔
      Along (historyStep customer) (EarnedCovered customer) (db, false) changes := by
  refine along_congr (fun _ _ => promotionalStays_iff) (fun _ _ => historyInv_step) changes (db, false) ?_
  refine ⟨by rw [hcc]; exact Option.some_ne_none _, ?_, nofun⟩
  simpa [Db.creditValue, Db.balance, hcc] using hv

/-- A change of the value inside a block of one type. -/
def ofType (transactionType : TransactionType) (value : ℚ) (h : 0 ≤ value) : ValueChange :=
  ⟨LedgerState.withType {} { transactionType := transactionType }, value, h⟩

/-- A grant by staff, outside every block. -/
def grant (value : ℚ) (h : 0 ≤ value) : ValueChange := ⟨{}, value, h⟩

/-- Organization 1 with an empty credit. -/
def emptyCredit : Db := { Db.empty with customerCredits := ⟨[{ customer := 1 }], by simp⟩ }

/-- A fee of 100 is earned, 80 are consumed, and then staff grant 50: the withdrawable balance rises from
20 to 70. -/
theorem grant_becomes_withdrawable :
    ¬ Along (historyStep 1) (PromotionalStays 1) (emptyCredit, false)
      [ofType .affiliateFee 100 (by norm_num), ofType .compensation 20 (by norm_num),
        grant 70 (by norm_num)] := by
  decide +kernel

/-- A grant of 50 next to an earned fee of 100, and an expiry after the fee was paid out. -/
theorem grant_stays_promotional :
    Along (historyStep 1) (PromotionalStays 1) (emptyCredit, false)
      [ofType .affiliateFee 100 (by norm_num), grant 150 (by norm_num), ofType .payout 50 (by norm_num),
        ofType .expiry 0 (by norm_num), grant 30 (by norm_num)] :=
  (promotionalStays_along_iff 1 emptyCredit { customer := 1 } (by decide) (by decide) _).mpr (by decide +kernel)

end Waldur.Invoices
