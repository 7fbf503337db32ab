import Mathlib
import Waldur.Invoices.Allocation

/-!
# Invoices.Expiry — `set_to_zero_overdue_credits`

The task zeroes the overdue organization credits first and then the overdue project credits one by one,
each in a savepoint: a save that raises leaves its credit as it was and the loop goes on.  The project
saves run into the guard of `ProjectCredit.save`, which compares the *other* allocations of the
organization with its credit (already 0 where that is overdue).

* `Forfeits`: what any part of the task does to balances and ledger, reflexive and transitive.
* `expireProjectCredits_iff`: the project loop zeroes everything exactly if no save of it is blocked.
* `ExpiryUnblocked`: the same as a condition on the stored credits.
-/

namespace Waldur.Invoices

open Calendar Relational

/-- `filter(end_date__lt=effective_date)`. -/
def BaseCredit.isOverdue (effectiveDate : Date) (c : BaseCredit) : Bool :=
  c.endDate.any (fun d => decide (d < effectiveDate))

/-- `.filter(end_date__lt=effective_date).exclude(value=0)`. -/
def BaseCredit.isForfeited (effectiveDate : Date) (c : BaseCredit) : Bool :=
  c.isOverdue effectiveDate && c.value != 0

def expiryState (effectiveDate : Date) : LedgerState :=
  LedgerState.withType {} { transactionType := .expiry, billingPeriod := some effectiveDate.replaceDayOne }

/-- One turn of the customer loop; the savepoint is rolled back where the save raises. -/
def expireCustomerCredit (st : LedgerState) (db : Db) (cc : CustomerCredit) : Db :=
  match db.saveCustomerCredit st ⟨{ cc with value := 0 }, cc.value⟩ .value with
  | .ok db' => db'
  | .error _ => db

/-- One turn of the project loop. -/
def expireProjectCredit (st : LedgerState) (db : Db) (pc : ProjectCredit) : Db :=
  match db.saveProjectCredit st ⟨{ pc with value := 0 }, pc.value⟩ .value with
  | .ok db' => db'
  | .error _ => db

def Db.forfeitedCustomerCredits (db : Db) (effectiveDate : Date) : List CustomerCredit :=
  db.customerCredits.rows.filter (fun cc => cc.isForfeited effectiveDate)

def Db.forfeitedProjectCredits (db : Db) (effectiveDate : Date) : List ProjectCredit :=
  db.projectCredits.rows.filter (fun pc => pc.isForfeited effectiveDate)

/-- `ValueError`: the refusal of a future effective date. -/
inductive ExpiryError
  | futureEffectiveDate (effectiveDate today : Date)

/-- The loop over the overdue organization credits. -/
def Db.expireCustomerCredits (db : Db) (effectiveDate : Date) : Db :=
  (db.forfeitedCustomerCredits effectiveDate).foldl (expireCustomerCredit (expiryState effectiveDate)) db

/-- The loop over the overdue project credits. -/
def Db.expireProjectCredits (db : Db) (effectiveDate : Date) : Db :=
  (db.forfeitedProjectCredits effectiveDate).foldl (expireProjectCredit (expiryState effectiveDate)) db

def setToZeroOverdueCredits (db : Db) (today : Date) (effectiveDate : Option Date) : Except ExpiryError Db :=
  let effectiveDate := effectiveDate.getD today
  if today < effectiveDate then .error (.futureEffectiveDate effectiveDate today)
  else .ok ((db.expireCustomerCredits effectiveDate).expireProjectCredits effectiveDate)

/-! ## Balances and ledger -/

/-- The ledger row of a forfeited balance. -/
def expiryRow (effectiveDate : Date) (key : CreditKey) (amount : ℚ) : CreditTransaction :=
  { credit := key
    amount := amount
    transactionType := .expiry
    billingPeriod := some effectiveDate.replaceDayOne }

/-- From `db` to `db'` some balances went to zero, each with one expiry row of minus its old value; the
others have no new row. -/
def Forfeits (effectiveDate : Date) (db db' : Db) : Prop :=
  ∃ new, db'.transactions = db.transactions ++ new ∧ ∀ key,
    (db'.balance key = db.balance key ∧ new.filter (fun row => decide (row.credit = key)) = []) ∨
    (db.balance key ≠ 0 ∧ db'.balance key = 0 ∧
      new.filter (fun row => decide (row.credit = key)) = [expiryRow effectiveDate key (-db.balance key)])

theorem Forfeits.refl (effectiveDate : Date) (db : Db) : Forfeits effectiveDate db db :=
  ⟨[], (List.append_nil _).symm, fun _ => Or.inl ⟨rfl, rfl⟩⟩

theorem Forfeits.trans {effectiveDate : Date} {db₁ db₂ db₃ : Db} (h₁ : Forfeits effectiveDate db₁ db₂)
    (h₂ : Forfeits effectiveDate db₂ db₃) : Forfeits effectiveDate db₁ db₃ := by
  obtain ⟨new₁, ht₁, hk₁⟩ := h₁
  obtain ⟨new₂, ht₂, hk₂⟩ := h₂
  refine ⟨new₁ ++ new₂, by rw [ht₂, ht₁, List.append_assoc], fun key => ?_⟩
  rw [List.filter_append]
  rcases hk₁ key with ⟨hb₁, hr₁⟩ | ⟨hne₁, hz₁, hr₁⟩ <;> rcases hk₂ key with ⟨hb₂, hr₂⟩ | ⟨hne₂, hz₂, hr₂⟩
  · exact Or.inl ⟨hb₂.trans hb₁, by rw [hr₁, hr₂]; rfl⟩
  · exact Or.inr ⟨by rwa [← hb₁], hz₂, by rw [hr₁, hr₂, hb₁]; rfl⟩
  · exact Or.inr ⟨hne₁, by rw [hb₂, hz₁], by rw [hr₁, hr₂]; rfl⟩
  · exact absurd hz₁ hne₂

theorem record_expiry (effectiveDate : Date) (key : CreditKey) {v : ℚ} (hv : v ≠ 0) :
    recordCreditTransaction (expiryState effectiveDate) key .value (some v) 0 =
      [expiryRow effectiveDate key (-v)] := by
  simp [recordCreditTransaction, UpdateFields.writesValue, expiryState, LedgerState.withType,
    LedgerState.currentParts, typeRow, expiryRow, hv]

theorem expireCustomerCredit_eq (st : LedgerState) (db : Db) (cc : CustomerCredit) :
    expireCustomerCredit st db cc = db.writeCustomerCredit st ⟨{ cc with value := 0 }, cc.value⟩ .value :=
  rfl

theorem forfeits_expireCustomerCredit {effectiveDate : Date} {db : Db} {cc : CustomerCredit}
    (h : db.customerCredit? cc.customer = some cc) (hv : cc.value ≠ 0) :
    Forfeits effectiveDate db (expireCustomerCredit (expiryState effectiveDate) db cc) := by
  rw [expireCustomerCredit_eq]
  refine ⟨_, rfl, fun key => ?_⟩
  rw [record_expiry effectiveDate _ hv]
  by_cases hkey : key = .customer cc.customer
  · subst hkey
    have hb : db.balance (.customer cc.customer) = cc.value := by simp [Db.balance, h]
    refine Or.inr ⟨by rwa [hb], balance_writeCustomerCredit _ .value ⟨{ cc with value := 0 }, cc.value⟩ h, ?_⟩
    simp [expiryRow, hb]
  · refine Or.inl ⟨balance_writeCustomerCredit_ne _ _ _ hkey, ?_⟩
    simp [expiryRow, Ne.symm hkey]

theorem expireProjectCredit_of_ok {st : LedgerState} {db : Db} {pc : ProjectCredit}
    (h : db.checkAllocation { pc with value := 0 } = .ok ()) :
    expireProjectCredit st db pc = db.writeProjectCredit st ⟨{ pc with value := 0 }, pc.value⟩ .value := by
  have hok : db.saveProjectCredit st ⟨{ pc with value := 0 }, pc.value⟩ .value =
      .ok (db.writeProjectCredit st ⟨{ pc with value := 0 }, pc.value⟩ .value) :=
    saveProjectCredit_eq_ok.mpr ⟨h, rfl, rfl⟩
  unfold expireProjectCredit
  rw [hok]

theorem expireProjectCredit_of_blocked {st : LedgerState} {db : Db} {pc : ProjectCredit}
    (h : db.checkAllocation { pc with value := 0 } ≠ .ok ()) : expireProjectCredit st db pc = db := by
  unfold expireProjectCredit
  split
  · next db' hok => exact absurd (saveProjectCredit_eq_ok.mp hok).1 h
  · rfl

theorem forfeits_expireProjectCredit {effectiveDate : Date} {db : Db} {pc : ProjectCredit}
    (h : db.projectCredit? pc.project = some pc) (hv : pc.value ≠ 0) :
    Forfeits effectiveDate db (expireProjectCredit (expiryState effectiveDate) db pc) := by
  by_cases hc : db.checkAllocation { pc with value := 0 } = .ok ()
  · rw [expireProjectCredit_of_ok hc]
    refine ⟨_, rfl, fun key => ?_⟩
    rw [record_expiry effectiveDate _ hv]
    by_cases hkey : key = .project pc.project
    · subst hkey
      have hb : db.balance (.project pc.project) = pc.value := by simp [Db.balance, h]
      refine Or.inr ⟨by rwa [hb], balance_writeProjectCredit _ .value ⟨{ pc with value := 0 }, pc.value⟩ h, ?_⟩
      simp [expiryRow, hb]
    · refine Or.inl ⟨balance_writeProjectCredit_ne _ _ _ hkey, ?_⟩
      simp [expiryRow, Ne.symm hkey]
  · rw [expireProjectCredit_of_blocked hc]
    exact Forfeits.refl _ _

/-! ## The customer loop -/

section CustomerLoop

variable {st : LedgerState}

theorem foldl_expireCustomerCredit_projectCredits (L : List CustomerCredit) :
    ∀ db : Db, (L.foldl (expireCustomerCredit st) db).projectCredits = db.projectCredits := by
  induction L with
  | nil => exact fun _ => rfl
  | cons cc L ih => exact fun db => ih (expireCustomerCredit st db cc)

theorem expireCustomerCredits_other (L : List CustomerCredit) {c : ℕ} :
    ∀ db : Db, c ∉ L.map (·.customer) →
      (L.foldl (expireCustomerCredit st) db).customerCredit? c = db.customerCredit? c := by
  induction L with
  | nil => exact fun _ _ => rfl
  | cons cc L ih =>
    intro db hc
    rw [List.map_cons, List.mem_cons, not_or] at hc
    rw [List.foldl_cons, ih _ hc.2]
    exact customerCredit_writeCustomerCredit_ne db st .value ⟨{ cc with value := 0 }, cc.value⟩ hc.1

/-- The customer loop zeroes every credit of its list. -/
theorem expireCustomerCredits_self (L : List CustomerCredit) :
    ∀ db : Db, (∀ cc ∈ L, db.customerCredit? cc.customer = some cc) → (L.map (·.customer)).Nodup →
      ∀ cc ∈ L, (L.foldl (expireCustomerCredit st) db).customerCredit? cc.customer =
        some { cc with value := 0 } := by
  induction L with
  | nil => intro _ _ _ cc hcc; cases hcc
  | cons cc₀ L ih =>
    intro db hst hnd cc hcc
    rw [List.map_cons, List.nodup_cons] at hnd
    rw [List.foldl_cons]
    have hstep : ∀ cc ∈ L, (expireCustomerCredit st db cc₀).customerCredit? cc.customer = some cc := by
      intro cc hcc
      have hne : cc.customer ≠ cc₀.customer := fun h => hnd.1 (h ▸ List.mem_map_of_mem hcc)
      rw [expireCustomerCredit_eq, customerCredit_writeCustomerCredit_ne _ _ _ _ hne]
      exact hst cc (List.mem_cons_of_mem _ hcc)
    rcases List.mem_cons.mp hcc with rfl | hcc
    · rw [expireCustomerCredits_other L _ hnd.1, expireCustomerCredit_eq]
      refine (customerCredit_writeCustomerCredit db st .value ⟨{ cc with value := 0 }, cc.value⟩).trans ?_
      rw [hst cc List.mem_cons_self]
      rfl
    · exact ih _ hstep hnd.2 cc hcc

theorem forfeits_expireCustomerCredits {effectiveDate : Date} (L : List CustomerCredit) :
    ∀ db : Db, (∀ cc ∈ L, db.customerCredit? cc.customer = some cc ∧ cc.value ≠ 0) →
      (L.map (·.customer)).Nodup →
      Forfeits effectiveDate db (L.foldl (expireCustomerCredit (expiryState effectiveDate)) db) := by
  induction L with
  | nil => exact fun db _ _ => Forfeits.refl _ db
  | cons cc₀ L ih =>
    intro db hst hnd
    rw [List.map_cons, List.nodup_cons] at hnd
    obtain ⟨h₀, hv₀⟩ := hst cc₀ List.mem_cons_self
    refine (forfeits_expireCustomerCredit h₀ hv₀).trans (ih _ (fun cc hcc => ?_) hnd.2)
    obtain ⟨h, hv⟩ := hst cc (List.mem_cons_of_mem _ hcc)
    have hne : cc.customer ≠ cc₀.customer := fun h => hnd.1 (h ▸ List.mem_map_of_mem hcc)
    rw [expireCustomerCredit_eq, customerCredit_writeCustomerCredit_ne _ _ _ _ hne]
    exact ⟨h, hv⟩

end CustomerLoop

/-! ## The project loop -/

section ProjectLoop

variable {st : LedgerState}

theorem expireProjectCredit_ne (db : Db) (pc : ProjectCredit) {p : Project} (h : p ≠ pc.project) :
    (expireProjectCredit st db pc).projectCredit? p = db.projectCredit? p := by
  by_cases hc : db.checkAllocation { pc with value := 0 } = .ok ()
  · rw [expireProjectCredit_of_ok hc]
    exact projectCredit_writeProjectCredit_ne db st .value ⟨{ pc with value := 0 }, pc.value⟩ h
  · rw [expireProjectCredit_of_blocked hc]

theorem expireProjectCredit_customerCredits (db : Db) (pc : ProjectCredit) :
    (expireProjectCredit st db pc).customerCredits = db.customerCredits := by
  by_cases hc : db.checkAllocation { pc with value := 0 } = .ok ()
  · rw [expireProjectCredit_of_ok hc]; rfl
  · rw [expireProjectCredit_of_blocked hc]

theorem expireProjectCredits_customerCredits (L : List ProjectCredit) :
    ∀ db : Db, (L.foldl (expireProjectCredit st) db).customerCredits = db.customerCredits := by
  induction L with
  | nil => exact fun _ => rfl
  | cons pc L ih =>
    exact fun db => (ih (expireProjectCredit st db pc)).trans (expireProjectCredit_customerCredits db pc)

theorem expireProjectCredits_other (L : List ProjectCredit) {p : Project} :
    ∀ db : Db, p ∉ L.map (·.project) →
      (L.foldl (expireProjectCredit st) db).projectCredit? p = db.projectCredit? p := by
  induction L with
  | nil => exact fun _ _ => rfl
  | cons pc L ih =>
    intro db hp
    rw [List.map_cons, List.mem_cons, not_or] at hp
    rw [List.foldl_cons, ih _ hp.2, expireProjectCredit_ne db pc hp.1]

theorem forfeits_expireProjectCredits {effectiveDate : Date} (L : List ProjectCredit) :
    ∀ db : Db, (∀ pc ∈ L, db.projectCredit? pc.project = some pc ∧ pc.value ≠ 0) →
      (L.map (·.project)).Nodup →
      Forfeits effectiveDate db (L.foldl (expireProjectCredit (expiryState effectiveDate)) db) := by
  induction L with
  | nil => exact fun db _ _ => Forfeits.refl _ db
  | cons pc₀ L ih =>
    intro db hst hnd
    rw [List.map_cons, List.nodup_cons] at hnd
    obtain ⟨h₀, hv₀⟩ := hst pc₀ List.mem_cons_self
    refine (forfeits_expireProjectCredit h₀ hv₀).trans (ih _ (fun pc hpc => ?_) hnd.2)
    obtain ⟨h, hv⟩ := hst pc (List.mem_cons_of_mem _ hpc)
    have hne : pc.project ≠ pc₀.project := fun h => hnd.1 (h ▸ List.mem_map_of_mem hpc)
    rw [expireProjectCredit_ne db pc₀ hne]
    exact ⟨h, hv⟩

/-- What the organization still has allocated once the listed projects are expired. -/
def Db.remaining (db : Db) (expired : List Project) (customer : ℕ) : ℚ :=
  ((db.customerProjectCredits customer).map (fun pc => if pc.project ∈ expired then 0 else pc.value)).sum

/-- The guard lets `pc` go to zero, the projects `expired` being at zero already. -/
def Db.ExpiryFits (db : Db) (expired : List Project) (pc : ProjectCredit) : Prop :=
  ∃ cc, db.customerCredit? pc.project.customer = some cc ∧
    db.remaining (expired ++ [pc.project]) pc.project.customer ≤ cc.value

/-- No save of the loop over `L` is blocked, the projects `expired` being at zero already. -/
def Db.LoopUnblocked (db : Db) (expired : List Project) (L : List ProjectCredit) : Prop :=
  ∀ l₁ pc l₂, L = l₁ ++ pc :: l₂ → db.ExpiryFits (expired ++ l₁.map (·.project)) pc

theorem remaining_singleton (db : Db) (p : Project) : db.remaining [p] p.customer = db.othersSum p := by
  have hoth : db.otherProjectCredits p =
      (db.customerProjectCredits p.customer).filter (fun pc => pc.project != p) := by
    unfold Db.otherProjectCredits Db.customerProjectCredits
    rw [List.filter_filter]
    exact List.filter_congr fun pc _ => Bool.and_comm _ _
  unfold Db.remaining Db.othersSum
  rw [hoth, Table.sum_filter_eq]
  congr 1
  refine List.map_congr_left fun pc _ => ?_
  by_cases h : pc.project = p <;> simp [h]

/-- The guard on a zero value compares the other allocations with the organization credit. -/
theorem checkAllocation_zero_iff (db : Db) (pc : ProjectCredit) :
    db.checkAllocation { pc with value := 0 } = .ok () ↔ db.ExpiryFits [] pc := by
  rw [checkAllocation_eq_ok, Db.totalValue_eq]
  unfold Db.ExpiryFits
  rw [List.nil_append, remaining_singleton]
  by_cases h : db.othersSum pc.project = 0 <;> simp [h]

theorem remaining_writeZero (db : Db) (pc : ProjectCredit) (expired : List Project) (c : ℕ) :
    (db.writeProjectCredit st ⟨{ pc with value := 0 }, pc.value⟩ .value).remaining expired c =
      db.remaining (pc.project :: expired) c := by
  have hf : ((fun r : ProjectCredit => r.project.customer == c) ∘ fun r => if r.project = pc.project then
      ProjectCredit.overwrite .value { pc with value := 0 } r else r) =
      fun r => r.project.customer == c := by
    funext r
    simp only [Function.comp_apply]
    split <;> rfl
  unfold Db.remaining Db.customerProjectCredits
  show (((List.map _ db.projectCredits.rows).filter _).map _).sum = _
  rw [List.filter_map, List.map_map, hf]
  congr 1
  refine List.map_congr_left fun r _ => ?_
  simp only [Function.comp_apply]
  by_cases h : r.project = pc.project
  · have hmem : r.project ∈ pc.project :: expired := by
      rw [h]
      exact List.mem_cons_self
    rw [if_pos h, if_pos hmem]
    exact ite_self _
  · rw [if_neg h]
    simp [h]

theorem expiryFits_writeZero (db : Db) (pc₀ pc : ProjectCredit) (expired : List Project) :
    (db.writeProjectCredit st ⟨{ pc₀ with value := 0 }, pc₀.value⟩ .value).ExpiryFits expired pc ↔
      db.ExpiryFits (pc₀.project :: expired) pc := by
  unfold Db.ExpiryFits
  rw [remaining_writeZero]
  rfl

theorem loopUnblocked_cons {db : Db} {expired : List Project} {pc : ProjectCredit} {L : List ProjectCredit} :
    db.LoopUnblocked expired (pc :: L) ↔
      db.ExpiryFits expired pc ∧ db.LoopUnblocked (expired ++ [pc.project]) L := by
  unfold Db.LoopUnblocked
  rw [Runs.forall_split_cons]
  simp only [List.map_nil, List.append_nil, List.map_cons, List.append_assoc, List.singleton_append]

/-- **The project loop** zeroes every credit of its list exactly if no save of it is blocked. -/
theorem expireProjectCredits_iff : ∀ (L : List ProjectCredit) (db : Db),
    (∀ pc ∈ L, db.projectCredit? pc.project = some pc ∧ pc.value ≠ 0) → (L.map (·.project)).Nodup →
    ((∀ pc ∈ L, (L.foldl (expireProjectCredit st) db).balance (.project pc.project) = 0) ↔
      db.LoopUnblocked [] L) := by
  intro L
  induction L with
  | nil => exact fun db _ _ => ⟨fun _ l₁ _ _ h => by simp at h, fun _ _ h => by cases h⟩
  | cons pc L ih =>
    intro db hst hnd
    rw [List.map_cons, List.nodup_cons] at hnd
    obtain ⟨hpc, hv⟩ := hst pc List.mem_cons_self
    have hst' : ∀ pc' ∈ L, (expireProjectCredit st db pc).projectCredit? pc'.project = some pc' ∧
        pc'.value ≠ 0 := by
      intro pc' hpc'
      obtain ⟨h, hv'⟩ := hst pc' (List.mem_cons_of_mem _ hpc')
      have hne : pc'.project ≠ pc.project := fun h => hnd.1 (h ▸ List.mem_map_of_mem hpc')
      exact ⟨(expireProjectCredit_ne db pc hne).trans h, hv'⟩
    -- the head's row is not touched again by the rest of the loop
    have hhead : ((pc :: L).foldl (expireProjectCredit st) db).balance (.project pc.project) =
        (expireProjectCredit st db pc).balance (.project pc.project) := by
      rw [List.foldl_cons]
      simp only [Db.balance, expireProjectCredits_other L _ hnd.1]
    have hrest := ih (expireProjectCredit st db pc) hst' hnd.2
    rw [List.forall_mem_cons, hhead, List.foldl_cons, hrest, loopUnblocked_cons, List.nil_append]
    by_cases hc : db.checkAllocation { pc with value := 0 } = .ok ()
    · have hw : (expireProjectCredit st db pc).LoopUnblocked [] L ↔ db.LoopUnblocked [pc.project] L := by
        unfold Db.LoopUnblocked
        rw [expireProjectCredit_of_ok hc]
        simp only [expiryFits_writeZero, List.nil_append, List.singleton_append]
      have hz : (expireProjectCredit st db pc).balance (.project pc.project) = 0 := by
        rw [expireProjectCredit_of_ok hc]
        exact balance_writeProjectCredit _ .value ⟨{ pc with value := 0 }, pc.value⟩ hpc
      simp only [hz, hw, (checkAllocation_zero_iff db pc).mp hc, true_and]
    · have hz : (expireProjectCredit st db pc).balance (.project pc.project) ≠ 0 := by
        rw [expireProjectCredit_of_blocked hc]
        simpa [Db.balance, hpc] using hv
      have hfit : ¬ db.ExpiryFits [] pc := fun h => hc ((checkAllocation_zero_iff db pc).mpr h)
      simp only [hz, hfit, false_and]

end ProjectLoop

/-! ## The whole task -/

section Task

variable (db : Db) (effectiveDate : Date)

theorem mem_forfeitedCustomerCredits {cc : CustomerCredit} :
    cc ∈ db.forfeitedCustomerCredits effectiveDate ↔
      db.customerCredit? cc.customer = some cc ∧ cc.isOverdue effectiveDate ∧ cc.value ≠ 0 := by
  unfold Db.forfeitedCustomerCredits BaseCredit.isForfeited Db.customerCredit?
  rw [List.mem_filter, Table.get?_eq_some]
  simp

theorem mem_forfeitedProjectCredits {pc : ProjectCredit} :
    pc ∈ db.forfeitedProjectCredits effectiveDate ↔
      db.projectCredit? pc.project = some pc ∧ pc.isOverdue effectiveDate ∧ pc.value ≠ 0 := by
  unfold Db.forfeitedProjectCredits BaseCredit.isForfeited Db.projectCredit?
  rw [List.mem_filter, Table.get?_eq_some]
  simp

theorem nodup_forfeitedCustomerCredits :
    ((db.forfeitedCustomerCredits effectiveDate).map (·.customer)).Nodup :=
  db.customerCredits.nodup.sublist (List.filter_sublist.map _)

theorem nodup_forfeitedProjectCredits :
    ((db.forfeitedProjectCredits effectiveDate).map (·.project)).Nodup :=
  db.projectCredits.nodup.sublist (List.filter_sublist.map _)

theorem expireCustomerCredits_projectCredits :
    (db.expireCustomerCredits effectiveDate).projectCredits = db.projectCredits :=
  foldl_expireCustomerCredit_projectCredits _ db

theorem forfeitedProjectCredits_expireCustomerCredits :
    (db.expireCustomerCredits effectiveDate).forfeitedProjectCredits effectiveDate =
      db.forfeitedProjectCredits effectiveDate := by
  unfold Db.forfeitedProjectCredits
  rw [expireCustomerCredits_projectCredits]

/-- The organization credits once the first loop is through: the overdue ones hold nothing. -/
def CustomerCredit.expired (effectiveDate : Date) (cc : CustomerCredit) : CustomerCredit :=
  { cc with value := if cc.isOverdue effectiveDate then 0 else cc.value }

theorem CustomerCredit.expired_of_not_forfeited {cc : CustomerCredit}
    (h : ¬ (cc.isOverdue effectiveDate ∧ cc.value ≠ 0)) : cc.expired effectiveDate = cc := by
  unfold CustomerCredit.expired
  split
  · next ho =>
    have hv : cc.value = 0 := not_not.mp fun hv => h ⟨ho, hv⟩
    rw [← hv]
  · rfl

theorem customerCredit_expireCustomerCredits (c : ℕ) :
    (db.expireCustomerCredits effectiveDate).customerCredit? c =
      (db.customerCredit? c).map (CustomerCredit.expired effectiveDate) := by
  unfold Db.expireCustomerCredits
  by_cases hc : c ∈ (db.forfeitedCustomerCredits effectiveDate).map (·.customer)
  · obtain ⟨cc, hcc, rfl⟩ := List.mem_map.mp hc
    obtain ⟨hst, ho, -⟩ := (mem_forfeitedCustomerCredits db effectiveDate).mp hcc
    rw [expireCustomerCredits_self _ db
      (fun cc hcc => ((mem_forfeitedCustomerCredits db effectiveDate).mp hcc).1)
      (nodup_forfeitedCustomerCredits db effectiveDate) cc hcc, hst]
    simp [CustomerCredit.expired, ho]
  · rw [expireCustomerCredits_other _ db hc]
    cases h : db.customerCredit? c with
    | none => rfl
    | some cc =>
      obtain ⟨-, rfl⟩ := Table.get?_eq_some.mp h
      rw [Option.map_some, CustomerCredit.expired_of_not_forfeited]
      rintro hf
      exact hc (List.mem_map_of_mem ((mem_forfeitedCustomerCredits db effectiveDate).mpr ⟨h, hf⟩))

/-- **Where no project save is blocked**: for each overdue project credit in turn, what its organization
still has allocated after it does not exceed the organization credit, which is 0 where it is overdue. -/
def Db.ExpiryUnblocked : Prop :=
  ∀ l₁ pc l₂, db.forfeitedProjectCredits effectiveDate = l₁ ++ pc :: l₂ →
    ∃ cc, db.customerCredit? pc.project.customer = some cc ∧
      db.remaining (l₁.map (·.project) ++ [pc.project]) pc.project.customer ≤
        if cc.isOverdue effectiveDate then 0 else cc.value

theorem loopUnblocked_expireCustomerCredits :
    (db.expireCustomerCredits effectiveDate).LoopUnblocked [] (db.forfeitedProjectCredits effectiveDate) ↔
      db.ExpiryUnblocked effectiveDate := by
  have hrem : ∀ expired c, (db.expireCustomerCredits effectiveDate).remaining expired c =
      db.remaining expired c := by
    intro expired c
    unfold Db.remaining Db.customerProjectCredits
    rw [expireCustomerCredits_projectCredits]
  unfold Db.LoopUnblocked Db.ExpiryUnblocked Db.ExpiryFits
  simp only [hrem, customerCredit_expireCustomerCredits, List.nil_append, Option.map_eq_some_iff,
    exists_exists_and_eq_and, CustomerCredit.expired]

theorem forfeits_task : Forfeits effectiveDate db
    ((db.expireCustomerCredits effectiveDate).expireProjectCredits effectiveDate) := by
  have h₁ : Forfeits effectiveDate db (db.expireCustomerCredits effectiveDate) := by
    refine forfeits_expireCustomerCredits _ db (fun cc hcc => ?_) (nodup_forfeitedCustomerCredits _ _)
    obtain ⟨hst, -, hv⟩ := (mem_forfeitedCustomerCredits db effectiveDate).mp hcc
    exact ⟨hst, hv⟩
  refine h₁.trans (forfeits_expireProjectCredits _ _ (fun pc hpc => ?_) (nodup_forfeitedProjectCredits _ _))
  obtain ⟨hst, -, hv⟩ := (mem_forfeitedProjectCredits _ effectiveDate).mp hpc
  exact ⟨hst, hv⟩

/-- What the task promises: the overdue credits are at zero, the others keep their value, and each credit
that moved has exactly one new row, an expiry of minus its old value. -/
structure ExpiresOverdue (db' : Db) : Prop where
  customer_overdue : ∀ cc ∈ db.customerCredits.rows, cc.isOverdue effectiveDate →
    db'.balance (.customer cc.customer) = 0
  project_overdue : ∀ pc ∈ db.projectCredits.rows, pc.isOverdue effectiveDate →
    db'.balance (.project pc.project) = 0
  customer_kept : ∀ cc ∈ db.customerCredits.rows, ¬ cc.isOverdue effectiveDate →
    db'.balance (.customer cc.customer) = cc.value
  project_kept : ∀ pc ∈ db.projectCredits.rows, ¬ pc.isOverdue effectiveDate →
    db'.balance (.project pc.project) = pc.value
  ledger : Forfeits effectiveDate db db'

variable {db effectiveDate}

theorem balance_customer_task {cc : CustomerCredit} (h : cc ∈ db.customerCredits.rows) :
    ((db.expireCustomerCredits effectiveDate).expireProjectCredits effectiveDate).balance
      (.customer cc.customer) = if cc.isOverdue effectiveDate then 0 else cc.value := by
  have hcc : ((db.expireCustomerCredits effectiveDate).expireProjectCredits effectiveDate).customerCredits =
      (db.expireCustomerCredits effectiveDate).customerCredits := expireProjectCredits_customerCredits _ _
  have hst : db.customerCredit? cc.customer = some cc := Table.get?_eq_some.mpr ⟨h, rfl⟩
  have hexp := customerCredit_expireCustomerCredits db effectiveDate cc.customer
  simp only [Db.balance, Db.customerCredit?] at hexp hst ⊢
  rw [hcc, hexp, hst]
  rfl

theorem balance_project_task {pc : ProjectCredit} (h : pc ∈ db.projectCredits.rows)
    (hf : ¬ (pc.isOverdue effectiveDate ∧ pc.value ≠ 0)) :
    ((db.expireCustomerCredits effectiveDate).expireProjectCredits effectiveDate).balance
      (.project pc.project) = pc.value := by
  have hst : (db.expireCustomerCredits effectiveDate).projectCredit? pc.project = some pc := by
    unfold Db.projectCredit?
    rw [expireCustomerCredits_projectCredits]
    exact Table.get?_eq_some.mpr ⟨h, rfl⟩
  have hnot : pc.project ∉
      ((db.expireCustomerCredits effectiveDate).forfeitedProjectCredits effectiveDate).map (·.project) := by
    intro hmem
    obtain ⟨pc', hpc', hp⟩ := List.mem_map.mp hmem
    obtain ⟨hst', hf'⟩ := (mem_forfeitedProjectCredits _ effectiveDate).mp hpc'
    rw [hp, hst, Option.some.injEq] at hst'
    subst hst'
    exact hf hf'
  unfold Db.expireProjectCredits Db.balance
  simp only [expireProjectCredits_other _ _ hnot, hst, Option.map_some, Option.getD_some]

theorem expiresOverdue_iff : ExpiresOverdue db effectiveDate
    ((db.expireCustomerCredits effectiveDate).expireProjectCredits effectiveDate) ↔
      db.ExpiryUnblocked effectiveDate := by
  rw [← loopUnblocked_expireCustomerCredits]
  have hloop := @expireProjectCredits_iff (expiryState effectiveDate)
    (db.forfeitedProjectCredits effectiveDate) (db.expireCustomerCredits effectiveDate)
    (fun pc hpc => by
      rw [← forfeitedProjectCredits_expireCustomerCredits] at hpc
      obtain ⟨hst, -, hv⟩ := (mem_forfeitedProjectCredits _ effectiveDate).mp hpc
      exact ⟨hst, hv⟩)
    (nodup_forfeitedProjectCredits db effectiveDate)
  rw [← hloop]
  have htask : ((db.expireCustomerCredits effectiveDate).expireProjectCredits effectiveDate) =
      (db.forfeitedProjectCredits effectiveDate).foldl (expireProjectCredit (expiryState effectiveDate))
        (db.expireCustomerCredits effectiveDate) := by
    unfold Db.expireProjectCredits
    rw [forfeitedProjectCredits_expireCustomerCredits]
  rw [← htask]
  constructor
  · intro h pc hpc
    obtain ⟨hst, ho, -⟩ := (mem_forfeitedProjectCredits db effectiveDate).mp hpc
    exact h.project_overdue pc (Table.get?_eq_some.mp hst).1 ho
  · intro h
    refine ⟨fun cc hcc ho => ?_, fun pc hpc ho => ?_, fun cc hcc ho => ?_, fun pc hpc ho => ?_,
      forfeits_task db effectiveDate⟩
    · rw [balance_customer_task hcc, if_pos ho]
    · by_cases hv : pc.value = 0
      · rw [balance_project_task hpc (fun hf => hf.2 hv), hv]
      · exact h pc ((mem_forfeitedProjectCredits db effectiveDate).mpr
          ⟨Table.get?_eq_some.mpr ⟨hpc, rfl⟩, ho, hv⟩)
    · rw [balance_customer_task hcc, if_neg ho]
    · exact balance_project_task hpc (fun hf => ho hf.1)

end Task

/-- **Expiry zeroes every overdue credit** exactly where no project save is blocked. -/
theorem setToZeroOverdueCredits_expires_iff (db : Db) (today : Date) (effectiveDate : Option Date)
    (h : ¬ today < effectiveDate.getD today) :
    ∃ db', setToZeroOverdueCredits db today effectiveDate = .ok db' ∧
      (ExpiresOverdue db (effectiveDate.getD today) db' ↔ db.ExpiryUnblocked (effectiveDate.getD today)) :=
  ⟨_, by rw [setToZeroOverdueCredits, if_neg h], expiresOverdue_iff⟩

/-- 1 June 2024. -/
def june : Date := ⟨2024, 6, 1, june_valid, by decide⟩

/-- 1 May 2024. -/
def may : Date := ⟨2024, 5, 1, may_valid, by decide⟩

/-- An organization whose credit of 100 and project credits ended on 1 May. -/
def overdueOrganization (allocations : List ProjectCredit)
    (h : (allocations.map (·.project)).Nodup) : Db :=
  { Db.empty with
    customerCredits := ⟨[{ customer := 1, value := 100, endDate := some may }], by simp⟩
    projectCredits := ⟨allocations, h⟩ }

/-- Two allocations of 30 and 40. -/
def twoOverdue : Db :=
  overdueOrganization [{ project := ⟨10, 1⟩, value := 30, endDate := some may },
    { project := ⟨11, 1⟩, value := 40, endDate := some may }] (by simp)

/-- One allocation of 30. -/
def oneOverdue : Db :=
  overdueOrganization [{ project := ⟨10, 1⟩, value := 30, endDate := some may }] (by simp)

/-- Neither of two overdue allocations can be zeroed: each save still sees the other one. -/
theorem two_overdue_allocations_stay :
    ∃ db', setToZeroOverdueCredits twoOverdue june none = .ok db' ∧
      ¬ ExpiresOverdue twoOverdue june db' := by
  refine ⟨_, rfl, fun h => ?_⟩
  have hblocked := expiresOverdue_iff.mp h [] { project := ⟨10, 1⟩, value := 30, endDate := some may }
    [{ project := ⟨11, 1⟩, value := 40, endDate := some may }] (by decide)
  obtain ⟨cc, hcc, hle⟩ := hblocked
  have hmem := (Table.get?_eq_some.mp hcc).1
  simp only [twoOverdue, overdueOrganization, List.mem_singleton] at hmem
  subst hmem
  revert hle
  decide +kernel

/-- A single overdue allocation is zeroed with the organization credit. -/
theorem single_overdue_allocation_expires :
    ∃ db', setToZeroOverdueCredits oneOverdue june none = .ok db' ∧ ExpiresOverdue oneOverdue june db' := by
  obtain ⟨db', hok, hiff⟩ := setToZeroOverdueCredits_expires_iff oneOverdue june none (by decide)
  refine ⟨db', hok, hiff.mpr fun l₁ pc l₂ hL => ?_⟩
  have hone : oneOverdue.forfeitedProjectCredits june =
      [{ project := ⟨10, 1⟩, value := 30, endDate := some may }] := by decide
  have hL' := hone.symm.trans hL
  cases l₁ with
  | nil =>
    obtain ⟨rfl, -⟩ := List.cons_eq_cons.mp hL'
    exact ⟨{ customer := 1, value := 100, endDate := some may }, by decide, by decide +kernel⟩
  | cons pc' l₁ =>
    have hlen := congrArg List.length hL'
    simp at hlen

end Waldur.Invoices
