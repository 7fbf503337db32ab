import Mathlib
import Waldur.Invoices.CompensationSave
import Waldur.Invoices.Overdraft

/-!
# Invoices.Settlement — the closed form of a saved run

What `MonthlyCompensation.save` leaves of the credits, as a function of the stored credits and the
invoice: usage by the waterfall of the item loop, then the tails of the minimal consumption.
`save_init_iff` says when the save goes through, `save_init_fields` what it leaves.
-/

namespace Waldur.Invoices

open Calendar Relational Waterfall Runs MonthlyCompensation

section

variable (db : Db) (today : Date) (inv : Invoice) (cc : CustomerCredit)

/-- What usage draws from the credit of a project. -/
def usage (p : Project) : ℚ := drawnOn db inv cc (servedItems db inv cc) p

/-- What the compensations of the run sum to. -/
def paidOn : ℚ := (runContext db inv cc).paid (loadProjectsCredits db inv) cc.value (servedItems db inv cc)

/-- What usage leaves of the organization credit. -/
def balanceOn : ℚ :=
  balance (pocket (loadProjectsCredits db inv)) (runContext db inv cc).cost
    (allocation (loadProjectsCredits db inv)) cc.value (servedItems db inv cc)

/-- What the run leaves of a project credit on the invoice. -/
def settledValue (pc : ProjectCredit) : ℚ :=
  (drawTail (pc.value - usage db inv cc pc.project) (pc.minimalConsumption today)
    (usage db inv cc pc.project)).2

/-- The project credits as the run saves them; an organization credit of zero draws nothing. -/
def savedCredits : List (Loaded ProjectCredit) :=
  if cc.value = 0 then []
  else (loadProjectsCredits db inv).rows.map (fun pc => pc.setValue (settledValue db today inv cc pc.obj))

/-- The organization credit as the run saves it. -/
def savedValue : ℚ :=
  if cc.value = 0 then 0
  else (drawTail (balanceOn db inv cc) (cc.minimalConsumption today) (paidOn db inv cc)).2

/-- The compensations as the run saves them. -/
def savedCompensations : List InvoiceItem := if cc.value = 0 then [] else (compensate db inv cc).compensations

/-- Every check of a series of saves passes at an organization credit of `V`. -/
def Db.SeriesFits (V : ℚ) (L : List (Loaded ProjectCredit)) : Prop :=
  ∀ l₁ pc l₂, L = l₁ ++ pc :: l₂ →
    (if db.othersAfter l₁ pc.obj.project = 0 then pc.obj.value else db.othersAfter l₁ pc.obj.project) ≤ V

/-- The organization credit, project credits and the invoice rewritten; ledger rows aside, a save and a
roll-back leave a state of this form. -/
def Db.settle (value : ℚ) (L : List (Loaded ProjectCredit)) (f : Invoice → Invoice) (hf : ∀ i, (f i).id = i.id) :
    Db :=
  { db with
    customerCredits :=
      db.customerCredits.update inv.customer (fun stored => { stored with value := value }) (fun _ => rfl)
    projectCredits :=
      db.projectCredits.mapRows (ProjectCredit.overwrittenBy .value L) (fun _ => overwrittenBy_project _ _)
    invoices := db.invoices.update inv.id f hf }

/-- The state that the save of a run leaves. -/
def Db.settled : Db :=
  db.settle inv (savedValue db today inv cc) (savedCredits db today inv cc)
    (·.bulkCreate (savedCompensations db inv cc)) (fun i => i.bulkCreate_id _)

end

/-- Two databases with the same credits. -/
structure Db.SameCredits (db db' : Db) : Prop where
  customerCredits : db'.customerCredits = db.customerCredits
  projectCredits : db'.projectCredits = db.projectCredits

/-- Two databases with the same credits and invoices. -/
structure Db.SameTables (db db' : Db) : Prop extends db.SameCredits db' where
  invoices : db'.invoices = db.invoices

section

variable {db : Db} {today : Date} {inv : Invoice} {cc : CustomerCredit}

theorem Db.SameCredits.customerCredit? {db' : Db} (h : db.SameCredits db') (customer : ℕ) :
    db'.customerCredit? customer = db.customerCredit? customer := by
  unfold Db.customerCredit?
  rw [h.customerCredits]

theorem Db.SameCredits.balance {db' : Db} (h : db.SameCredits db') : db'.balance = db.balance := by
  funext key
  cases key with
  | customer c => simp only [Db.balance, h.customerCredit?]
  | project p =>
    unfold Db.balance Db.projectCredit?
    rw [h.projectCredits]

theorem settle_customerCredit {value : ℚ} {L : List (Loaded ProjectCredit)} {f : Invoice → Invoice}
    {hf : ∀ i, (f i).id = i.id} (hcc : db.customerCredit? inv.customer = some cc) :
    (db.settle inv value L f hf).customerCredit? inv.customer = some { cc with value := value } := by
  refine (Table.get?_update_self db.customerCredits inv.customer (fun stored => { stored with value := value })
    (fun _ => rfl)).trans ?_
  unfold Db.customerCredit? at hcc
  rw [hcc]
  rfl

theorem settle_invoice {value : ℚ} {L : List (Loaded ProjectCredit)} {f : Invoice → Invoice}
    {hf : ∀ i, (f i).id = i.id} (hinv : db.invoices.get? inv.id = some inv) :
    (db.settle inv value L f hf).invoices.get? inv.id = some (f inv) := by
  refine (Table.get?_update_self db.invoices inv.id f hf).trans ?_
  rw [hinv]
  rfl

theorem rows_calculateOn (mc : MonthlyCompensation) :
    (mc.calculateOn db today cc.load inv).projectsCredits.rows =
      (loadProjectsCredits db inv).rows.map (fun pc => pc.setValue (settledValue db today inv cc pc.obj)) := by
  have hrun := @runAfter_compensate db inv cc
  show (compensate db inv cc).projectsCredits.rows.map _ = _
  rw [hrun.projects]
  show ((loadProjectsCredits db inv).rows.map _).map _ = _
  rw [List.map_map]
  refine List.map_congr_left fun pc hpc => ?_
  have hsome : ((loadProjectsCredits db inv).get? pc.obj.project).isSome := by
    rw [Table.get?_eq_some.mpr ⟨hpc, rfl⟩]
    rfl
  have htotal : totalProjectCompensation (compensate db inv cc).compensations pc.obj.project =
      usage db inv cc pc.obj.project := hrun.project_total _ hsome
  show pc.setValue (drawTail _ _ (totalProjectCompensation (compensate db inv cc).compensations
    pc.obj.project)).2 = _
  rw [htotal]
  rfl

theorem credit_calculateOn (mc : MonthlyCompensation) (h0 : cc.value ≠ 0) :
    (mc.calculateOn db today cc.load inv).credit =
      some ⟨{ cc with value := savedValue db today inv cc }, cc.value⟩ := by
  have hrun := @runAfter_compensate db inv cc
  unfold savedValue balanceOn paidOn
  rw [if_neg h0, ← hrun.credit, ← hrun.total]
  rfl

/-- A project on the invoice belongs to the organization. -/
theorem customer_of_mem_savedCredits {pc : Loaded ProjectCredit} (h : pc ∈ savedCredits db today inv cc) :
    pc.obj.project.customer = inv.customer := by
  unfold savedCredits at h
  split at h
  · cases h
  · obtain ⟨l, hl, rfl⟩ := List.mem_map.mp h
    obtain ⟨pc, hpc, rfl⟩ := List.mem_map.mp hl
    have hmem := (List.mem_filter.mp hpc).2
    exact customer_of_mem_itemsProjects (List.contains_iff_mem.mp hmem)

theorem nodup_savedCredits : ((savedCredits db today inv cc).map (·.obj.project)).Nodup := by
  unfold savedCredits
  split
  · exact List.nodup_nil
  · rw [List.map_map]
    exact (loadProjectsCredits db inv).nodup

theorem Db.SeriesFits.congr {db' : Db} (hp : db'.projectCredits = db.projectCredits) {V : ℚ}
    {L : List (Loaded ProjectCredit)} : db'.SeriesFits V L ↔ db.SeriesFits V L := by
  unfold Db.SeriesFits Db.othersAfter Db.otherProjectCredits
  rw [hp]

/-- A series of value saves of one organization goes through if its checks pass at its credit. -/
theorem saveProjectCredits_iff_seriesFits {st : LedgerState} {L : List (Loaded ProjectCredit)} {customer : ℕ}
    (hnd : (L.map (·.obj.project)).Nodup) (hL : ∀ pc ∈ L, pc.obj.project.customer = customer)
    (hcc : db.customerCredit? customer = some cc) :
    (∃ db', db.saveProjectCredits st L .value = .ok db') ↔ db.SeriesFits cc.value L := by
  rw [saveProjectCredits_value_iff hnd]
  refine forall_congr' fun l₁ => forall_congr' fun pc => forall_congr' fun l₂ => forall_congr' fun hsplit => ?_
  rw [hL pc (by rw [hsplit]; simp), hcc]
  simp

theorem createItems_invoices {mc : MonthlyCompensation} {id : ℕ} (h : mc.invoice = some id) :
    (mc.createItems db).invoices = db.invoices.update id (·.bulkCreate mc.compensations)
      (fun inv => inv.bulkCreate_id _) := by
  unfold createItems
  rw [h]

section Save

variable {invoice : Option ℕ} {db' : Db} {mc' : MonthlyCompensation}
  (hinv : db.invoices.get? inv.id = some inv) (hsel : (init db inv.customer invoice).invoice = some inv.id)
  (hcc : db.customerCredit? inv.customer = some cc)

include hcc in
theorem credit_init : (init db inv.customer invoice).credit = some cc.load := by
  unfold init
  rw [hcc]
  rfl

include hinv hsel hcc

/-- The object that a fresh run saves. -/
theorem calculate_init_fields :
    ((init db inv.customer invoice).calculateCurrentCompensations db today).credit =
        some ⟨{ cc with value := savedValue db today inv cc }, cc.value⟩ ∧
      ((init db inv.customer invoice).calculateCurrentCompensations db today).projectsCredits.rows =
        savedCredits db today inv cc ∧
      ((init db inv.customer invoice).calculateCurrentCompensations db today).compensations =
        savedCompensations db inv cc ∧
      ((init db inv.customer invoice).calculateCurrentCompensations db today).invoice = some inv.id := by
  rw [calculate_init today hinv hsel hcc]
  unfold savedCompensations
  by_cases h0 : cc.value = 0
  · rw [if_pos h0, if_pos h0, credit_init hcc]
    unfold savedCredits savedValue
    rw [if_pos h0, if_pos h0, ← h0]
    exact ⟨rfl, rfl, rfl, hsel⟩
  · rw [if_neg h0, if_neg h0]
    refine ⟨credit_calculateOn _ h0, ?_, rfl, hsel⟩
    unfold savedCredits
    rw [if_neg h0]
    exact rows_calculateOn _

/-- **When the save of a run goes through**: every project credit of the invoice passes its check. -/
theorem save_init_iff : (∃ r, (init db inv.customer invoice).save db today = .ok r) ↔
    db.SeriesFits cc.value (savedCredits db today inv cc) := by
  obtain ⟨hcredit, hrows, -⟩ := @calculate_init_fields db today inv cc invoice hinv hsel hcc
  have hsome : (init db inv.customer invoice).credit ≠ none := by
    rw [credit_init hcc]
    exact Option.some_ne_none _
  have hcust : (((init db inv.customer invoice).calculateCurrentCompensations db today).createItems
      db).customerCredit? inv.customer = some cc := by
    unfold Db.customerCredit? at hcc ⊢
    rwa [createItems_customerCredits]
  have hseries : (∃ db₁, (((init db inv.customer invoice).calculateCurrentCompensations db today).createItems
      db).saveProjectCredits (((init db inv.customer invoice).calculateCurrentCompensations db today).saveState db
        { cc with value := savedValue db today inv cc }) (savedCredits db today inv cc) .value = .ok db₁) ↔
      db.SeriesFits cc.value (savedCredits db today inv cc) :=
    (saveProjectCredits_iff_seriesFits nodup_savedCredits (fun _ hpc => customer_of_mem_savedCredits hpc) hcust).trans
      (Db.SeriesFits.congr createItems_projectCredits)
  rw [← hseries, ← hrows]
  constructor
  · rintro ⟨⟨db', mc'⟩, h⟩
    obtain ⟨db₁, h₁, -⟩ := (save_eq_ok hsome hcredit).mp h
    exact ⟨db₁, h₁⟩
  · rintro ⟨db₁, h₁⟩
    exact ⟨(_, _), (save_eq_ok hsome hcredit).mpr ⟨db₁, h₁, rfl, rfl⟩⟩

/-- **What a saved run leaves.** -/
theorem save_init_fields (h : (init db inv.customer invoice).save db today = .ok (db', mc')) :
    (db.settled today inv cc).SameTables db' ∧
      mc' = { (init db inv.customer invoice).calculateCurrentCompensations db today with
        credit := some (CustomerCredit.load { cc with value := savedValue db today inv cc }) } := by
  obtain ⟨hcredit, hrows, hcomp, hid⟩ := @calculate_init_fields db today inv cc invoice hinv hsel hcc
  have hsome : (init db inv.customer invoice).credit ≠ none := by
    rw [credit_init hcc]
    exact Option.some_ne_none _
  obtain ⟨db₁, h₁, rfl, rfl⟩ := (save_eq_ok hsome hcredit).mp h
  obtain ⟨-, rfl⟩ := (saveProjectCredits_eq_ok rfl _ _ _).mp h₁
  have hcust : cc.customer = inv.customer := (Table.get?_eq_some.mp hcc).2
  refine ⟨⟨⟨?_, ?_⟩, ?_⟩, rfl⟩
  · refine Table.ext ?_
    show (Db.writeProjectCredits _ _ _ _).customerCredits.rows.map _ = db.customerCredits.rows.map _
    rw [writeProjectCredits_customerCredits, createItems_customerCredits]
    refine List.map_congr_left fun stored _ => ?_
    show (if stored.customer = cc.customer then _ else _) = _
    rw [hcust]
    rfl
  · refine Table.ext ?_
    rw [projectCredits_writeCustomerCredit, hrows, writeProjectCredits_rows _ _ nodup_savedCredits,
      createItems_projectCredits]
    rfl
  · show (Db.writeProjectCredits _ _ _ _).invoices = _
    rw [writeProjectCredits_invoices, createItems_invoices hid]
    refine Table.ext ?_
    rw [hcomp]
    rfl

end Save

end

end Waldur.Invoices
