import Mathlib
import Waldur.Invoices.CompensationRun
import Waldur.Invoices.SaveSeries

/-!
# Invoices.CompensationSave — what `save`, `clear_compensations` and the linear update write

Each method of `MonthlyCompensation` that writes is put into one form: a series of project saves
(`SaveSeries`) and a save of the organization credit, from instances read from the stored rows.
-/

namespace Waldur.Invoices

open Calendar Relational Runs

namespace MonthlyCompensation

variable {db db' : Db} {today : Date} {mc mc' : MonthlyCompensation}

/-! ## The loaded instances -/

/-- An object that has not calculated yet, its credit as stored. -/
structure Fresh (mc : MonthlyCompensation) (db : Db) : Prop where
  not_calculated : mc.calculated = false
  projectsCredits : mc.projectsCredits.rows = []
  credit : ∀ credit, mc.credit = some credit →
    ∃ stored, db.customerCredit? credit.obj.customer = some stored ∧ credit.saved = stored.value

theorem fresh_init (db : Db) (customer : ℕ) (invoice : Option ℕ) : (init db customer invoice).Fresh db where
  not_calculated := rfl
  projectsCredits := rfl
  credit := fun credit hc => by
    obtain ⟨cc, hcc, rfl⟩ := Option.map_eq_some_iff.mp hc
    have hcust : cc.customer = customer := (Table.get?_eq_some.mp hcc).2
    refine ⟨cc, ?_, rfl⟩
    show db.customerCredit? cc.customer = some cc
    rw [hcust]
    exact hcc

/-- A row of the run is a stored credit of a project on the invoice with another value. -/
theorem mem_projectsCredits_calculateOn {credit : Loaded CustomerCredit} {inv : Invoice}
    {pc : Loaded ProjectCredit} (h : pc ∈ (mc.calculateOn db today credit inv).projectsCredits.rows) :
    ∃ stored ∈ db.projectCredits.rows.filter (fun pc => inv.itemsProjects.contains pc.project),
      ∃ v, pc = stored.load.setValue v := by
  obtain ⟨pc₁, hpc₁, rfl⟩ := List.mem_map.mp h
  have hrows := runAfter_compensate.projects ▸ hpc₁
  obtain ⟨pc₂, hpc₂, rfl⟩ := List.mem_map.mp hrows
  obtain ⟨stored, hst, rfl⟩ := List.mem_map.mp hpc₂
  exact ⟨stored, hst, _, rfl⟩

theorem loadedFrom_calculateOn (credit : Loaded CustomerCredit) (inv : Invoice) :
    db.LoadedFrom (mc.calculateOn db today credit inv).projectsCredits.rows := by
  intro pc hpc
  obtain ⟨stored, hst, v, rfl⟩ := mem_projectsCredits_calculateOn hpc
  exact ⟨stored, Table.get?_eq_some.mpr ⟨List.mem_of_mem_filter hst, rfl⟩, rfl⟩

/-- The calculation changes the values in memory only. -/
theorem Fresh.calculate (h : mc.Fresh db) :
    db.LoadedFrom (mc.calculateCurrentCompensations db today).projectsCredits.rows ∧
      ∀ credit, (mc.calculateCurrentCompensations db today).credit = some credit →
        ∃ stored, db.customerCredit? credit.obj.customer = some stored ∧ credit.saved = stored.value := by
  have hself : db.LoadedFrom mc.projectsCredits.rows ∧ ∀ credit, mc.credit = some credit →
      ∃ stored, db.customerCredit? credit.obj.customer = some stored ∧ credit.saved = stored.value := by
    refine ⟨fun pc hpc => ?_, h.credit⟩
    rw [h.projectsCredits] at hpc
    cases hpc
  unfold calculateCurrentCompensations
  rw [if_neg (by rw [h.not_calculated]; exact Bool.false_ne_true)]
  split
  · next credit inv hcredit _ =>
    split
    · exact hself
    · refine ⟨loadedFrom_calculateOn credit inv, fun credit' hc => ?_⟩
      obtain rfl := Option.some.inj hc
      exact h.credit credit hcredit
  · exact hself

/-! ## `save` -/

/-- The ledger blocks of `save`. -/
def saveState (mc : MonthlyCompensation) (db : Db) (credit : CustomerCredit) : LedgerState :=
  (({} : LedgerState).withType (mc.typeBlock db .compensation)).withParts
    (mc.ledgerParts db credit) (mc.invoice.map Reference.invoice)

/-- `save` writes the compensations, the project credits of the run and the organization credit. -/
theorem save_eq_ok (hsome : mc.credit ≠ none) {credit : Loaded CustomerCredit}
    (hc : (mc.calculateCurrentCompensations db today).credit = some credit) :
    mc.save db today = .ok (db', mc') ↔
      ∃ db₁, ((mc.calculateCurrentCompensations db today).createItems db).saveProjectCredits
          ((mc.calculateCurrentCompensations db today).saveState db credit.obj)
          (mc.calculateCurrentCompensations db today).projectsCredits.rows .value = .ok db₁ ∧
        db' = db₁.writeCustomerCredit ((mc.calculateCurrentCompensations db today).saveState db credit.obj)
          credit .value ∧
        mc' = { mc.calculateCurrentCompensations db today with credit := some ⟨credit.obj, credit.obj.value⟩ } := by
  unfold save
  cases hmc : mc.credit with
  | none => exact absurd hmc hsome
  | some credit₀ =>
    simp only [hc]
    rw [bind_eq_ok]
    refine exists_congr fun db₁ => and_congr_right fun _ => ?_
    constructor
    · intro h
      obtain ⟨db₂, h₂, hret⟩ := bind_eq_ok.mp h
      have hdb₂ : db₂ = _ := (Except.ok.inj h₂).symm
      have hpair := Prod.mk.inj (Except.ok.inj hret)
      exact ⟨hpair.1.symm.trans hdb₂, hpair.2.symm⟩
    · rintro ⟨rfl, rfl⟩
      rfl

theorem save_of_no_credit (h : mc.credit = none) : mc.save db today = .ok (db, mc) := by
  unfold save
  rw [h]

/-- An object without a credit stays without one. -/
theorem credit_calculate_ne_none (h : mc.credit ≠ none) :
    (mc.calculateCurrentCompensations db today).credit ≠ none := by
  unfold calculateCurrentCompensations
  split
  · exact h
  · split
    · split
      · exact h
      · exact Option.some_ne_none _
    · exact h

theorem createItems_balance (key : CreditKey) : (mc.createItems db).balance key = db.balance key := by
  unfold createItems
  cases mc.invoice <;> rfl

theorem createItems_projectCredits : (mc.createItems db).projectCredits = db.projectCredits := by
  unfold createItems
  cases mc.invoice <;> rfl

theorem createItems_customerCredits : (mc.createItems db).customerCredits = db.customerCredits := by
  unfold createItems
  cases mc.invoice <;> rfl

theorem createItems_transactions : (mc.createItems db).transactions = db.transactions := by
  unfold createItems
  cases mc.invoice <;> rfl

/-- A run that is saved keeps the ledger equal to the balances. -/
theorem balanced_save (hb : db.Balanced) (hf : mc.Fresh db) (h : mc.save db today = .ok (db', mc')) :
    db'.Balanced := by
  cases hmc : mc.credit with
  | none =>
    rw [save_of_no_credit hmc] at h
    obtain ⟨rfl, -⟩ := Prod.mk.inj (Except.ok.inj h)
    exact hb
  | some credit₀ =>
    have hsome : mc.credit ≠ none := by rw [hmc]; exact Option.some_ne_none _
    obtain ⟨credit, hc⟩ := Option.ne_none_iff_exists'.mp (@credit_calculate_ne_none db today mc hsome)
    obtain ⟨hrows, hcredit⟩ := @Fresh.calculate db today mc hf
    obtain ⟨db₁, h₁, rfl, -⟩ := (save_eq_ok hsome hc).mp h
    obtain ⟨-, rfl⟩ := (saveProjectCredits_eq_ok rfl _ _ _).mp h₁
    have hb₀ : ((mc.calculateCurrentCompensations db today).createItems db).Balanced :=
      hb.congr (funext createItems_balance) createItems_transactions
    have hrows₀ : ((mc.calculateCurrentCompensations db today).createItems db).LoadedFrom
        (mc.calculateCurrentCompensations db today).projectsCredits.rows := by
      intro pc hpc
      obtain ⟨stored, hst, hs⟩ := hrows pc hpc
      refine ⟨stored, ?_, hs⟩
      unfold Db.projectCredit? at hst ⊢
      rwa [createItems_projectCredits]
    obtain ⟨stored, hst, hs⟩ := hcredit credit hc
    refine (hb₀.writeProjectCredits _ hrows₀ (Table.nodup _)).writeCustomerCredit _ _ ?_ hs
    unfold Db.customerCredit? at hst ⊢
    rwa [writeProjectCredits_customerCredits, createItems_customerCredits]

/-! ## `clear_compensations` -/

/-- The instance that the roll-back saves for a project credit, if its project has compensations. -/
def rolledBack (compensationItems : List InvoiceItem) (pc : ProjectCredit) : Option (Loaded ProjectCredit) :=
  match compensationItems.filter (fun it => it.project == some pc.project) with
  | [] => none
  | items => some (pc.load.setValue (pc.value + (items.map (·.unitPrice)).sum * -1))

theorem rolledBack_eq_some {items : List InvoiceItem} {pc : ProjectCredit} {l : Loaded ProjectCredit}
    (h : rolledBack items pc = some l) : ∃ v, l = pc.load.setValue v := by
  unfold rolledBack at h
  split at h
  · cases h
  · exact ⟨_, (Option.some.inj h).symm⟩

/-- The roll-back loop is a series of saves. -/
theorem foldlM_rollBack (st : LedgerState) (items : List InvoiceItem) : ∀ (L : List ProjectCredit) (db : Db),
    L.foldlM (rollBackProjectCredit st items) db = db.saveProjectCredits st (L.filterMap (rolledBack items)) .value
  | [], _ => rfl
  | pc :: L, db => by
    have ih := foldlM_rollBack st items L
    rw [List.foldlM_cons]
    cases hf : items.filter (fun it => it.project == some pc.project) with
    | nil =>
      have hnone : rolledBack items pc = none := by
        unfold rolledBack
        rw [hf]
      have hstep : rollBackProjectCredit st items db pc = .ok db := by
        unfold rollBackProjectCredit
        rw [hf]
      rw [hstep, List.filterMap_cons_none hnone]
      exact ih db
    | cons it its =>
      have hsome : rolledBack items pc =
          some (pc.load.setValue (pc.value + ((it :: its).map (·.unitPrice)).sum * -1)) := by
        unfold rolledBack
        rw [hf]
      have hstep : rollBackProjectCredit st items db pc = db.saveProjectCredit st
          (pc.load.setValue (pc.value + ((it :: its).map (·.unitPrice)).sum * -1)) .value := by
        unfold rollBackProjectCredit
        rw [hf]
        rfl
      rw [hstep, List.filterMap_cons_some hsome]
      unfold Db.saveProjectCredits
      rw [List.foldlM_cons]
      exact congrArg _ (funext fun db => ih db)

/-- The ledger block of `clear_compensations`. -/
def rollBackState (mc : MonthlyCompensation) (db : Db) : LedgerState :=
  ({} : LedgerState).withType (mc.typeBlock db .rollback)

/-- The organization credit with what the roll-back returns to it. -/
def rolledBackCredit (today : Date) (credit : Loaded CustomerCredit) (compensationItems : List InvoiceItem) :
    Loaded CustomerCredit :=
  let applied := (compensationItems.map (·.unitPrice)).sum * -1
  let value := credit.obj.value + max applied (credit.obj.minimalConsumption today)
  { credit with obj := { credit.obj with value := value } }

/-- `clear_compensations` writes the organization credit and the project credits that were drawn on, and
deletes the compensations. -/
theorem rollBack_eq_ok {credit : Loaded CustomerCredit} {items : List InvoiceItem} :
    mc.rollBack db today credit items = .ok (db', mc') ↔
      ∃ db₁, (db.writeCustomerCredit (mc.rollBackState db) (rolledBackCredit today credit items)
          .value).saveProjectCredits (mc.rollBackState db)
          ((db.customerProjectCredits mc.customer).filterMap (rolledBack items)) .value = .ok db₁ ∧
        db' = mc.deleteItems db₁ credit.obj ∧
        mc' = { mc with credit := some ⟨(rolledBackCredit today credit items).obj,
          (rolledBackCredit today credit items).obj.value⟩ } := by
  -- the save of the organization credit with only `value` cannot fail
  have heq : mc.rollBack db today credit items =
      ((db.customerProjectCredits mc.customer).foldlM (rollBackProjectCredit (mc.rollBackState db) items)
        (db.writeCustomerCredit (mc.rollBackState db) (rolledBackCredit today credit items) .value) >>= fun db₁ =>
          .ok (mc.deleteItems db₁ credit.obj, { mc with credit := some ⟨(rolledBackCredit today credit items).obj,
            (rolledBackCredit today credit items).obj.value⟩ })) := rfl
  rw [heq]
  rw [foldlM_rollBack, bind_eq_ok]
  refine exists_congr fun db₁ => and_congr_right fun _ => ?_
  rw [Except.ok.injEq, Prod.mk.injEq]
  exact and_congr eq_comm eq_comm

/-- A cleared object is left alone, or rolled back. -/
theorem clear_cases (hn : mc.calculated = false) (h : mc.clearCompensations db today = .ok (db', mc')) :
    (db' = db ∧ mc' = mc) ∨ ∃ credit inv, mc.credit = some credit ∧ mc.getInvoice db = some inv ∧
      mc.rollBack db today credit (inv.items.filter (fun it => it.credit == some credit.obj.customer)) =
        .ok (db', mc') := by
  unfold clearCompensations at h
  simp only [hn, Bool.false_eq_true, if_false] at h
  split at h
  · next credit inv hc hi =>
    split at h
    · obtain ⟨rfl, rfl⟩ := Prod.mk.inj (Except.ok.inj h)
      exact Or.inl ⟨rfl, rfl⟩
    · exact Or.inr ⟨credit, inv, hc, hi, h⟩
  · obtain ⟨rfl, rfl⟩ := Prod.mk.inj (Except.ok.inj h)
    exact Or.inl ⟨rfl, rfl⟩

theorem loadedFrom_rolledBack (items : List InvoiceItem) (customer : ℕ) :
    db.LoadedFrom ((db.customerProjectCredits customer).filterMap (rolledBack items)) := by
  intro l hl
  obtain ⟨pc, hpc, hl⟩ := List.mem_filterMap.mp hl
  obtain ⟨v, rfl⟩ := rolledBack_eq_some hl
  exact ⟨pc, Table.get?_eq_some.mpr ⟨List.mem_of_mem_filter hpc, rfl⟩, rfl⟩

theorem nodup_filterMap {f : ProjectCredit → Option (Loaded ProjectCredit)}
    (hf : ∀ pc l, f pc = some l → l.obj.project = pc.project) (L : List ProjectCredit)
    (hnd : (L.map (·.project)).Nodup) : ((L.filterMap f).map (·.obj.project)).Nodup := by
  induction L with
  | nil => exact List.nodup_nil
  | cons pc L ih =>
    rw [List.map_cons, List.nodup_cons] at hnd
    cases h : f pc with
    | none =>
      rw [List.filterMap_cons_none h]
      exact ih hnd.2
    | some l =>
      rw [List.filterMap_cons_some h, List.map_cons, List.nodup_cons]
      refine ⟨fun hmem => hnd.1 ?_, ih hnd.2⟩
      obtain ⟨l', hl', hp⟩ := List.mem_map.mp hmem
      obtain ⟨pc', hpc', hf'⟩ := List.mem_filterMap.mp hl'
      rw [← hf pc l h, ← hp, hf pc' l' hf']
      exact List.mem_map_of_mem hpc'

theorem nodup_customerProjectCredits (db : Db) (customer : ℕ) :
    ((db.customerProjectCredits customer).map (·.project)).Nodup :=
  db.projectCredits.nodup.sublist (List.filter_sublist.map _)

theorem rolledBack_project (items : List InvoiceItem) (pc : ProjectCredit) (l : Loaded ProjectCredit)
    (h : rolledBack items pc = some l) : l.obj.project = pc.project := by
  obtain ⟨v, rfl⟩ := rolledBack_eq_some h
  rfl

theorem deleteItems_balance (credit : CustomerCredit) (key : CreditKey) :
    (mc.deleteItems db credit).balance key = db.balance key := by
  unfold deleteItems
  cases mc.invoice <;> rfl

theorem deleteItems_transactions (credit : CustomerCredit) :
    (mc.deleteItems db credit).transactions = db.transactions := by
  unfold deleteItems
  cases mc.invoice <;> rfl

theorem deleteItems_customerCredits (credit : CustomerCredit) :
    (mc.deleteItems db credit).customerCredits = db.customerCredits := by
  unfold deleteItems
  cases mc.invoice <;> rfl

theorem deleteItems_projectCredits (credit : CustomerCredit) :
    (mc.deleteItems db credit).projectCredits = db.projectCredits := by
  unfold deleteItems
  cases mc.invoice <;> rfl

/-- A roll-back keeps the ledger equal to the balances, and leaves the object fresh. -/
theorem balanced_clear (hb : db.Balanced) (hf : mc.Fresh db) (h : mc.clearCompensations db today = .ok (db', mc')) :
    db'.Balanced ∧ mc'.Fresh db' := by
  rcases clear_cases hf.not_calculated h with ⟨rfl, rfl⟩ | ⟨credit, inv, hc, -, h⟩
  · exact ⟨hb, hf⟩
  · obtain ⟨db₁, h₁, rfl, rfl⟩ := rollBack_eq_ok.mp h
    obtain ⟨-, rfl⟩ := (saveProjectCredits_eq_ok rfl _ _ _).mp h₁
    obtain ⟨stored, hst, hs⟩ := hf.credit credit hc
    have hst' : db.customerCredit? (rolledBackCredit today credit
      (inv.items.filter (fun it => it.credit == some credit.obj.customer))).obj.customer = some stored := hst
    have hb₁ := hb.writeCustomerCredit (mc.rollBackState db) .value hst' hs
    refine ⟨?_, hf.not_calculated, hf.projectsCredits, fun credit' hc' => ?_⟩
    · exact ((hb₁.writeProjectCredits _ (loadedFrom_rolledBack _ _) (nodup_filterMap (rolledBack_project _) _
        (nodup_customerProjectCredits db mc.customer))).congr (funext (deleteItems_balance _))
        (deleteItems_transactions _))
    · obtain rfl := Option.some.inj hc'
      refine ⟨CustomerCredit.overwrite .value (rolledBackCredit today credit _).obj stored, ?_, rfl⟩
      unfold Db.customerCredit?
      rw [deleteItems_customerCredits, writeProjectCredits_customerCredits]
      have hw := customerCredit_writeCustomerCredit db (mc.rollBackState db) .value
        (rolledBackCredit today credit (inv.items.filter (fun it => it.credit == some credit.obj.customer)))
      rw [hst'] at hw
      exact hw

theorem balanced_apply (hb : db.Balanced) (hf : mc.Fresh db) (h : mc.applyCompensations db today = .ok (db', mc')) :
    db'.Balanced := by
  obtain ⟨⟨db₁, mc₁⟩, h₁, h₂⟩ := bind_eq_ok.mp h
  obtain ⟨hb₁, hf₁⟩ := balanced_clear hb hf h₁
  exact balanced_save hb₁ hf₁ h₂

/-! ## The linear update -/

/-- The instance that the linear update saves for a project credit. -/
def linearUpdate (mc : MonthlyCompensation) (today : Date) (pc : ProjectCredit) : Option (Loaded ProjectCredit) :=
  pc.endDate.map (fun endDate =>
    let total := mc.projectTails pc.project + totalProjectCompensation mc.compensations pc.project
    let expected := pc.calculateLinearExpectedConsumption today endDate total
    ⟨{ pc with expectedConsumption := expected }, pc.value⟩)

theorem foldlM_linearUpdate (today : Date) (mc : MonthlyCompensation) : ∀ (L : List ProjectCredit) (db : Db),
    L.foldlM (mc.updateLinearProject today) db =
      db.saveProjectCredits {} (L.filterMap (mc.linearUpdate today)) .expectedConsumption
  | [], _ => rfl
  | pc :: L, db => by
    have ih := foldlM_linearUpdate today mc L
    rw [List.foldlM_cons]
    cases hd : pc.endDate with
    | none =>
      have hnone : mc.linearUpdate today pc = none := by
        unfold linearUpdate
        rw [hd]
        rfl
      have hstep : mc.updateLinearProject today db pc = .ok db := by
        unfold updateLinearProject
        rw [hd]
      rw [hstep, List.filterMap_cons_none hnone]
      exact ih db
    | some endDate =>
      obtain ⟨l, hl⟩ : ∃ l, mc.linearUpdate today pc = some l := by
        unfold linearUpdate
        rw [hd]
        exact ⟨_, rfl⟩
      have hstep : mc.updateLinearProject today db pc = db.saveProjectCredit {} l .expectedConsumption := by
        unfold linearUpdate at hl
        unfold updateLinearProject
        rw [hd] at hl ⊢
        obtain rfl := Option.some.inj hl
        rfl
      rw [hstep, List.filterMap_cons_some hl]
      unfold Db.saveProjectCredits
      rw [List.foldlM_cons]
      exact congrArg _ (funext fun db => ih db)

theorem balanced_writeProjectCredits_of_not_writesValue {st : LedgerState} {fields : UpdateFields}
    (hf : fields.writesValue = false) : ∀ (L : List (Loaded ProjectCredit)) {db : Db}, db.Balanced →
      (db.writeProjectCredits st L fields).Balanced
  | [], _, hb => hb
  | pc :: L, _, hb =>
    balanced_writeProjectCredits_of_not_writesValue hf L (hb.writeProjectCredit_of_not_writesValue st hf pc)

/-- The update of the organization credit writes its expected consumption, or nothing. -/
theorem updateLinearCustomer_eq (mc : MonthlyCompensation) (today : Date) (db : Db) :
    mc.updateLinearCustomer today db = .ok db ∨ ∃ credit : Loaded CustomerCredit,
      mc.updateLinearCustomer today db = .ok (db.writeCustomerCredit {} credit .expectedConsumption) := by
  unfold updateLinearCustomer
  split
  · exact Or.inl rfl
  · split
    · exact Or.inr ⟨_, rfl⟩
    · exact Or.inl rfl

theorem balanced_updateLinear (hb : db.Balanced) (h : mc.updateLinearExpectedConsumption db today = .ok db') :
    db'.Balanced := by
  obtain ⟨db₁, h₁, h₂⟩ := bind_eq_ok.mp h
  have hb₁ : db₁.Balanced := by
    rcases updateLinearCustomer_eq (mc.calculateCurrentCompensations db today) today db with hu | ⟨credit, hu⟩
    · rw [hu] at h₁
      exact Except.ok.inj h₁ ▸ hb
    · rw [hu] at h₁
      exact Except.ok.inj h₁ ▸ hb.writeCustomerCredit_of_not_writesValue {} rfl credit
  rw [foldlM_linearUpdate] at h₂
  obtain ⟨-, rfl⟩ := (saveProjectCredits_eq_ok rfl _ _ _).mp h₂
  exact balanced_writeProjectCredits_of_not_writesValue rfl _ hb₁

end MonthlyCompensation

theorem balanced_processInvoiceCredits {db db' : Db} {today : Date} {inv : Invoice} (hb : db.Balanced)
    (h : processInvoiceCredits db today inv = .ok db') : db'.Balanced := by
  obtain ⟨⟨db₁, mc⟩, h₁, h₂⟩ := bind_eq_ok.mp h
  exact MonthlyCompensation.balanced_updateLinear
    (MonthlyCompensation.balanced_apply hb (MonthlyCompensation.fresh_init db _ _) h₁) h₂

end Waldur.Invoices
