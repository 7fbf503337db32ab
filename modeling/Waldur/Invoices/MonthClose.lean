import Mathlib
import Waldur.Invoices.Restore
import Waldur.Invoices.LedgerHistory

/-!
# Invoices.MonthClose — invoices closed one after another

Closing a month rolls back what the invoice already holds of compensations, saves the project credits of
the run and then the linear ones, each save checked against the organization credit and the other
allocations.  Draws of projects without an allocation lower the organization credit alone, so the check
can fail months after the allocations were accepted.  `MonthFits` is the exact condition, on the state
before the month, under which the month is committed.
-/

namespace Waldur.Invoices

open Calendar Relational Runs MonthlyCompensation

/-- The close of a month: whatever the invoices are by then, one of them is processed. -/
structure MonthClose where
  today : Date
  invoices : Table ℕ Invoice Invoice.id
  invoice : Invoice
  stored : invoices.get? invoice.id = some invoice

/-- The database when the month is closed. -/
def Db.atClose (db : Db) (month : MonthClose) : Db := { db with invoices := month.invoices }

def Db.closeMonth (db : Db) (month : MonthClose) : Except ValidationError Db :=
  processInvoiceCredits (db.atClose month) month.today month.invoice

/-- The compensations of the month are committed. -/
def MonthClose.Commits (db : Db) (month : MonthClose) : Prop := (db.closeMonth month).isOk = true

instance (db : Db) (month : MonthClose) : Decidable (month.Commits db) := inferInstanceAs (Decidable (_ = _))

/-- A month that raises leaves the credits as they were. -/
def Db.afterMonth (db : Db) (month : MonthClose) : Db :=
  match db.closeMonth month with
  | .ok db' => db'
  | .error _ => db.atClose month

/-- Selected by `all_linear_project_credits`. -/
def ProjectCredit.isLinear (today : Date) (pc : ProjectCredit) : Bool :=
  pc.minimalConsumptionLogic == .linear && pc.endDate.any (fun d => decide (today < d))

/-- What the allocation check compares with the organization credit. -/
def Db.checked (db : Db) (p : Project) (value : ℚ) : ℚ := if db.othersSum p = 0 then value else db.othersSum p

/-- Every linear project credit passes its check at an organization credit. -/
def Db.LinearFits (db : Db) (today : Date) (customer : ℕ) (credit : Option ℚ) : Prop :=
  ∀ pc ∈ db.customerProjectCredits customer, pc.isLinear today = true →
    ∃ V, credit = some V ∧ db.checked pc.project pc.value ≤ V

/-- The saves of a run pass: each project credit of the invoice at the stored organization credit, the
ones before it being settled, and each linear project credit at the settled one. -/
def RunFits (db : Db) (today : Date) (inv : Invoice) (cc : CustomerCredit) : Prop :=
  db.SeriesFits cc.value (savedCredits db today inv cc) ∧
    (db.settled today inv cc).LinearFits today inv.customer (some (savedValue db today inv cc))

/-- **Where a month is committed**: the refunds pass, if the invoice holds compensations, and the run. -/
def MonthFits (db : Db) (today : Date) (inv : Invoice) : Prop :=
  match db.customerCredit? inv.customer with
  | none => db.LinearFits today inv.customer none
  | some cc =>
    if inv.compensations = [] then RunFits db today inv cc
    else
      db.SeriesFits (refundedValue today inv cc) (refundedCredits db inv) ∧
        RunFits (db.rolledBack today inv cc) today inv.withoutCompensations
          { cc with value := refundedValue today inv cc }

/-! ## The linear update -/

section Linear

variable {db : Db} {today : Date}

theorem calculate_customer (mc : MonthlyCompensation) :
    (mc.calculateCurrentCompensations db today).customer = mc.customer := by
  unfold calculateCurrentCompensations
  split
  · rfl
  · split
    · split <;> rfl
    · rfl

theorem checkAllocation_iff {pc : ProjectCredit} :
    db.checkAllocation pc = .ok () ↔
      ∃ V, (db.customerCredit? pc.project.customer).map (·.value) = some V ∧ db.checked pc.project pc.value ≤ V := by
  rw [checkAllocation_eq_ok, Db.totalValue_eq]
  unfold Db.checked
  constructor
  · rintro ⟨cc, hcc, hle⟩
    exact ⟨cc.value, by rw [hcc]; rfl, hle⟩
  · rintro ⟨V, hV, hle⟩
    obtain ⟨cc, hcc, rfl⟩ := Option.map_eq_some_iff.mp hV
    exact ⟨cc, hcc, hle⟩

/-- Writing the expected consumption of the organization credit leaves its value. -/
theorem value_writeExpected (credit : Loaded CustomerCredit) (customer : ℕ) :
    ((db.writeCustomerCredit {} credit .expectedConsumption).customerCredit? customer).map (·.value) =
      (db.customerCredit? customer).map (·.value) := by
  by_cases hc : customer = credit.obj.customer
  · subst hc
    rw [customerCredit_writeCustomerCredit, Option.map_map]
    rfl
  · rw [customerCredit_writeCustomerCredit_ne db {} .expectedConsumption credit hc]

theorem mem_linearUpdate {mc : MonthlyCompensation} {L : List ProjectCredit} {P : Project → ℚ → Prop}
    (hend : ∀ pc ∈ L, pc.endDate ≠ none) :
    (∀ l ∈ L.filterMap (mc.linearUpdate today), P l.obj.project l.obj.value) ↔ ∀ pc ∈ L, P pc.project pc.value := by
  constructor
  · intro h pc hpc
    obtain ⟨endDate, hd⟩ := Option.ne_none_iff_exists'.mp (hend pc hpc)
    have hsome : ∃ l, mc.linearUpdate today pc = some l ∧ l.obj.project = pc.project ∧ l.obj.value = pc.value := by
      unfold linearUpdate
      rw [hd]
      exact ⟨_, rfl, rfl, rfl⟩
    obtain ⟨l, hl, hp, hv⟩ := hsome
    rw [← hp, ← hv]
    exact h l (List.mem_filterMap.mpr ⟨pc, hpc, hl⟩)
  · intro h l hl
    obtain ⟨pc, hpc, hl⟩ := List.mem_filterMap.mp hl
    obtain ⟨endDate, -, rfl⟩ := Option.map_eq_some_iff.mp hl
    exact h pc hpc

theorem mem_linearProjectCredits {mc : MonthlyCompensation} {pc : ProjectCredit} :
    pc ∈ mc.linearProjectCredits today db ↔
      pc ∈ db.customerProjectCredits mc.customer ∧ pc.isLinear today = true :=
  List.mem_filter

/-- The series of the linear update. -/
theorem foldlM_linear_iff (mc : MonthlyCompensation) :
    (∃ db', (mc.linearProjectCredits today db).foldlM (mc.updateLinearProject today) db = .ok db') ↔
      db.LinearFits today mc.customer ((db.customerCredit? mc.customer).map (·.value)) := by
  have hnd : ((mc.linearProjectCredits today db).map (·.project)).Nodup :=
    (nodup_customerProjectCredits db mc.customer).sublist (List.filter_sublist.map _)
  have hproj : ∀ pc l, mc.linearUpdate today pc = some l → l.obj.project = pc.project := by
    intro pc l hl
    obtain ⟨endDate, -, rfl⟩ := Option.map_eq_some_iff.mp hl
    rfl
  have hend : ∀ pc ∈ mc.linearProjectCredits today db, pc.endDate ≠ none := by
    intro pc hpc hnone
    have hlin := (mem_linearProjectCredits.mp hpc).2
    simp [ProjectCredit.isLinear, hnone] at hlin
  rw [foldlM_linearUpdate, saveProjectCredits_expected_iff (nodup_filterMap hproj _ hnd)]
  simp only [checkAllocation_iff]
  rw [@mem_linearUpdate today mc _ (fun p v => ∃ V, (db.customerCredit? p.customer).map (·.value) = some V ∧
    db.checked p v ≤ V) hend]
  unfold Db.LinearFits
  refine forall_congr' fun pc => ?_
  rw [mem_linearProjectCredits, and_imp]
  refine forall_congr' fun hpc => ?_
  have hc : pc.project.customer = mc.customer := by simpa using (List.mem_filter.mp hpc).2
  rw [hc]

/-- **When the linear update goes through.** -/
theorem updateLinear_iff (mc : MonthlyCompensation) :
    (∃ db', mc.updateLinearExpectedConsumption db today = .ok db') ↔
      db.LinearFits today mc.customer ((db.customerCredit? mc.customer).map (·.value)) := by
  have hcust : (mc.calculateCurrentCompensations db today).customer = mc.customer := calculate_customer mc
  have hbind : (∃ db', mc.updateLinearExpectedConsumption db today = .ok db') ↔
      ∃ db₁, (mc.calculateCurrentCompensations db today).updateLinearCustomer today db = .ok db₁ ∧
        ∃ db', ((mc.calculateCurrentCompensations db today).linearProjectCredits today db₁).foldlM
          ((mc.calculateCurrentCompensations db today).updateLinearProject today) db₁ = .ok db' := by
    constructor
    · rintro ⟨db', h⟩
      obtain ⟨db₁, h₁, h₂⟩ := bind_eq_ok.mp h
      exact ⟨db₁, h₁, db', h₂⟩
    · rintro ⟨db₁, h₁, db', h₂⟩
      exact ⟨db', bind_eq_ok.mpr ⟨db₁, h₁, h₂⟩⟩
  rw [hbind]
  have hfits : ∃ db₁, (mc.calculateCurrentCompensations db today).updateLinearCustomer today db = .ok db₁ ∧
      (db₁.LinearFits today mc.customer ((db₁.customerCredit? mc.customer).map (·.value)) ↔
        db.LinearFits today mc.customer ((db.customerCredit? mc.customer).map (·.value))) := by
    rcases updateLinearCustomer_eq (mc.calculateCurrentCompensations db today) today db with hu | ⟨credit, hu⟩
    · exact ⟨db, hu, Iff.rfl⟩
    · refine ⟨_, hu, ?_⟩
      rw [value_writeExpected]
      rfl
  obtain ⟨db₁, hu, hfits⟩ := hfits
  rw [hu, ← hfits]
  constructor
  · rintro ⟨db₂, h₂, h⟩
    obtain rfl := Except.ok.inj h₂
    rw [foldlM_linear_iff, hcust] at h
    exact h
  · intro h
    refine ⟨db₁, rfl, ?_⟩
    rw [foldlM_linear_iff, hcust]
    exact h

end Linear

/-! ## One month -/

section Month

variable {db db' : Db} {today : Date} {inv : Invoice} {cc : CustomerCredit}

theorem Db.SameCredits.linearFits_iff (h : db.SameCredits db') {customer : ℕ} {credit : Option ℚ} :
    db'.LinearFits today customer credit ↔ db.LinearFits today customer credit := by
  unfold Db.LinearFits Db.checked Db.othersSum Db.otherProjectCredits Db.customerProjectCredits
  rw [h.projectCredits]

theorem Db.SameCredits.runFits_iff (h : db.SameCredits db') : RunFits db' today inv cc ↔ RunFits db today inv cc := by
  unfold RunFits
  rw [savedCredits_congr h fun _ _ => rfl, savedValue_congr h rfl, Db.SeriesFits.congr h.projectCredits]
  exact and_congr_right fun _ => (settled_congr h rfl fun _ _ => rfl).linearFits_iff

/-- **When a run and its linear update go through.** -/
theorem run_iff (hinv : db.invoices.get? inv.id = some inv) (hcc : db.customerCredit? inv.customer = some cc) :
    (∃ r, (init db inv.customer (some inv.id)).save db today = .ok r ∧
      ∃ db', r.2.updateLinearExpectedConsumption r.1 today = .ok db') ↔ RunFits db today inv cc := by
  have hlinear : ∀ r, (init db inv.customer (some inv.id)).save db today = .ok r →
      ((∃ db', r.2.updateLinearExpectedConsumption r.1 today = .ok db') ↔
        (db.settled today inv cc).LinearFits today inv.customer (some (savedValue db today inv cc))) := by
    rintro ⟨db₁, mc₁⟩ h
    obtain ⟨hdb₁, rfl⟩ := save_init_fields hinv rfl hcc h
    have hcustomer := @calculate_customer db today (init db inv.customer (some inv.id))
    have hcredit := (hdb₁.customerCredit? inv.customer).trans (settle_customerCredit hcc)
    rw [updateLinear_iff]
    show db₁.LinearFits today (calculateCurrentCompensations _ db today).customer _ ↔ _
    rw [hcustomer]
    show db₁.LinearFits today inv.customer ((db₁.customerCredit? inv.customer).map _) ↔ _
    rw [hcredit]
    exact hdb₁.linearFits_iff
  constructor
  · rintro ⟨r, h, hl⟩
    exact ⟨(@save_init_iff db today inv cc (some inv.id) hinv rfl hcc).mp ⟨r, h⟩, (hlinear r h).mp hl⟩
  · rintro ⟨hseries, hl⟩
    obtain ⟨r, h⟩ := (@save_init_iff db today inv cc (some inv.id) hinv rfl hcc).mpr hseries
    exact ⟨r, h, (hlinear r h).mpr hl⟩

/-- The steps of `process_invoice_credits`. -/
theorem processInvoiceCredits_iff_steps :
    (∃ db', processInvoiceCredits db today inv = .ok db') ↔
      ∃ r₁, (init db inv.customer (some inv.id)).clearCompensations db today = .ok r₁ ∧
        ∃ r₂, r₁.2.save r₁.1 today = .ok r₂ ∧ ∃ db', r₂.2.updateLinearExpectedConsumption r₂.1 today = .ok db' := by
  constructor
  · rintro ⟨db', h⟩
    obtain ⟨r₂, happly, hl⟩ := bind_eq_ok.mp h
    obtain ⟨r₁, hclear, hsave⟩ := bind_eq_ok.mp happly
    exact ⟨r₁, hclear, r₂, hsave, db', hl⟩
  · rintro ⟨r₁, hclear, r₂, hsave, db', hl⟩
    exact ⟨db', bind_eq_ok.mpr ⟨r₂, bind_eq_ok.mpr ⟨r₁, hclear, hsave⟩, hl⟩⟩

/-- **When a month is committed.** -/
theorem processInvoiceCredits_iff (hinv : db.invoices.get? inv.id = some inv) :
    (∃ db', processInvoiceCredits db today inv = .ok db') ↔ MonthFits db today inv := by
  rw [processInvoiceCredits_iff_steps]
  unfold MonthFits
  cases hcc : db.customerCredit? inv.customer with
  | none =>
    have hcredit : (init db inv.customer (some inv.id)).credit = none := by
      unfold init
      rw [hcc]
      rfl
    have hlinear := @updateLinear_iff db today (init db inv.customer (some inv.id))
    rw [show (init db inv.customer (some inv.id)).customer = inv.customer from rfl, hcc] at hlinear
    rw [clear_of_no_credit hcc]
    refine Iff.trans ?_ hlinear
    constructor
    · rintro ⟨r₁, h₁, r₂, h₂, h⟩
      obtain rfl := Except.ok.inj h₁
      rw [save_of_no_credit hcredit] at h₂
      obtain rfl := Except.ok.inj h₂
      exact h
    · intro h
      exact ⟨_, rfl, _, save_of_no_credit hcredit, h⟩
  | some cc =>
    by_cases hnone : inv.compensations = []
    · simp only [if_pos hnone]
      rw [clear_init hinv rfl hcc, if_pos hnone, ← run_iff hinv hcc]
      constructor
      · rintro ⟨r₁, h₁, h⟩
        obtain rfl := Except.ok.inj h₁
        exact h
      · intro h
        exact ⟨_, rfl, h⟩
    · simp only [if_neg hnone]
      have hrun : ∀ {db₁}, (db.rolledBack today inv cc).SameTables db₁ →
          ((∃ r, (init db₁ inv.customer (some inv.id)).save db₁ today = .ok r ∧
            ∃ db', r.2.updateLinearExpectedConsumption r.1 today = .ok db') ↔
            RunFits (db.rolledBack today inv cc) today inv.withoutCompensations
              { cc with value := refundedValue today inv cc }) := by
        intro db₁ h₁
        have hinv₁ : db₁.invoices.get? inv.withoutCompensations.id = some inv.withoutCompensations := by
          rw [h₁.invoices]
          exact settle_invoice hinv
        have hcc₁ := (h₁.customerCredit? inv.customer).trans (settle_customerCredit hcc)
        exact (run_iff hinv₁ hcc₁).trans h₁.runFits_iff
      constructor
      · rintro ⟨⟨db₁, mc₁⟩, h₁, h⟩
        obtain ⟨htables, rfl⟩ := clear_init_fields hinv rfl hcc hnone h₁
        exact ⟨(@clear_init_iff db today inv cc (some inv.id) hinv rfl hcc hnone).mp ⟨_, h₁⟩, (hrun htables).mp h⟩
      · rintro ⟨hseries, h⟩
        obtain ⟨⟨db₁, mc₁⟩, h₁⟩ := (@clear_init_iff db today inv cc (some inv.id) hinv rfl hcc hnone).mpr hseries
        obtain ⟨htables, rfl⟩ := clear_init_fields hinv rfl hcc hnone h₁
        exact ⟨_, h₁, (hrun htables).mpr h⟩

end Month

theorem MonthClose.commits_iff (db : Db) (month : MonthClose) :
    month.Commits db ↔ MonthFits (db.atClose month) month.today month.invoice := by
  have hinv : (db.atClose month).invoices.get? month.invoice.id = some month.invoice := month.stored
  rw [← processInvoiceCredits_iff hinv]
  unfold MonthClose.Commits Db.closeMonth
  cases processInvoiceCredits (db.atClose month) month.today month.invoice with
  | error e => exact ⟨nofun, fun ⟨_, h⟩ => nomatch h⟩
  | ok db' => exact ⟨fun _ => ⟨db', rfl⟩, fun _ => rfl⟩

/-- A credit of 100, allocated to two projects in halves. -/
def halvedDb : Db :=
  sampleDb { customer := 1, value := 100 }
    [{ project := ⟨10, 1⟩, value := 50 }, { project := ⟨11, 1⟩, value := 50 }] (by simp)
    (sampleInvoice 1 0 Invoice.untaxed [])

/-- The close of a month with one invoice. -/
def MonthClose.ofItems (items : List (ℕ × ℚ)) : MonthClose where
  today := midJune
  invoices := ⟨[sampleInvoice 1 0 Invoice.untaxed items], by simp⟩
  invoice := sampleInvoice 1 0 Invoice.untaxed items
  stored := Table.get?_eq_some.mpr ⟨List.mem_cons_self, rfl⟩

end Waldur.Invoices
