import Mathlib
import Waldur.Invoices.Rollback

/-!
# Invoices.Restore — whether a roll-back restores what a run drew

A run is saved and rolled back.  The roll-back recomputes the draw from the compensations and the
minimal consumption: it misses what tax kept from the last compensation of an exhausted pool and what
a tail could not take from a credit that was too low, and it is checked against allocations that are not
restored yet.  `RollbackExact` is the exact condition, on the state before the save.
-/

namespace Waldur.Invoices

open Calendar Relational Waterfall Runs MonthlyCompensation

section

variable (db : Db) (today : Date) (inv : Invoice) (cc : CustomerCredit)

/-- The pool is restored: it was exhausted and nothing was kept back, or the tail was within the credit. -/
def PoolRestored : Prop :=
  let minimal := cc.minimalConsumption today
  let served := servedItems db inv cc
  if Exhausted (pocket (loadProjectsCredits db inv)) (runContext db inv cc).cost
      (allocation (loadProjectsCredits db inv)) cc.value served then
    if inv.taxPercent = 0 then minimal ≤ cc.value
    else demandOn db inv cc served.dropLast < cc.value ∧ minimal = cc.value
  else minimal ≤ demandOn db inv cc served ∨ (minimal ≠ 0 ∧ minimal ≤ cc.value)

instance : Decidable (PoolRestored db today inv cc) := inferInstanceAs (Decidable (ite _ _ _))

/-- A project credit is restored: no tail was drawn from it, or none was left to draw. -/
def ProjectRestored (pc : ProjectCredit) : Prop :=
  pc.minimalConsumption today = 0 ∨ pc.minimalConsumption today ≤ usage db inv cc pc.project ∨
    pc.value = usage db inv cc pc.project

instance (pc : ProjectCredit) : Decidable (ProjectRestored db today inv cc pc) :=
  inferInstanceAs (Decidable (_ ∨ _ ∨ _))

/-- The allocations that a refund is checked against, restored before it and drawn on after it. -/
def RefundsFit : Prop :=
  ∀ l₁ pc l₂, db.customerProjectCredits inv.customer = l₁ ++ pc :: l₂ → usage db inv cc pc.project ≠ 0 →
    let others := (l₁.map (·.value)).sum + (l₂.map (fun pc => pc.value - usage db inv cc pc.project)).sum
    (if others = 0 then pc.value else others) ≤ cc.value

/-- **Where a roll-back is exact.** -/
structure RollbackExact : Prop where
  pool : PoolRestored db today inv cc
  projects : ∀ pc ∈ db.projectCredits.rows, pc.project ∈ inv.itemsProjects → ProjectRestored db today inv cc pc
  refunds : RefundsFit db inv cc

end

/-- The compensations of a run as its item and amount. -/
def MonthlyCompensation.amounts (mc : MonthlyCompensation) : List (Option ℕ × ℚ) :=
  mc.compensations.map (fun c => (c.details.compensationOfItem, c.unitPrice))

/-- A saved run that is undone by a roll-back, and repeated by another run. -/
def Restores (db db₁ : Db) (mc₁ : MonthlyCompensation) (today : Date) : Prop :=
  ∃ db₂ mc₂, mc₁.clearCompensations db₁ today = .ok (db₂, mc₂) ∧ db₂.balance = db.balance ∧
    (∃ inv₂, mc₂.getInvoice db₂ = some inv₂ ∧ inv₂.compensations = []) ∧
    ∃ db₃ mc₃, mc₁.applyCompensations db₁ today = .ok (db₃, mc₃) ∧ db₃.balance = db₁.balance ∧
      mc₃.amounts = mc₁.amounts

/-! ## The invoice of a saved run -/

section

variable {db : Db} {inv : Invoice} {cc : CustomerCredit}

theorem wellAttributed_compensations :
    ∀ c ∈ (compensate db inv cc).compensations, c.WellAttributed inv.customer := by
  intro c hc r hr
  obtain ⟨it, hit, amount, -, hcomp⟩ := runAfter_compensate.item c hc
  rw [hcomp] at hr ⊢
  have hres : it.resource = some r := hr
  refine ⟨by rw [show (compensationItem c.uuid (runContext db inv cc).customer it amount).project =
    it.resource.map (·.project) from rfl, hres]; rfl, ?_⟩
  exact (inv.attributed it (mem_chargeableItems (mem_servedItems hit)).1 r hres).2

/-- The invoice with the compensations of its run. -/
def compensatedInvoice (db : Db) (inv : Invoice) (cc : CustomerCredit) : Invoice :=
  inv.addItems (compensate db inv cc).compensations wellAttributed_compensations

theorem compensatedInvoice_id : (compensatedInvoice db inv cc).id = inv.id := rfl

theorem compensatedInvoice_customer : (compensatedInvoice db inv cc).customer = inv.customer := rfl

/-- The test of `bulkCreate` passes. -/
theorem bulkCreate_compensations :
    inv.bulkCreate (compensate db inv cc).compensations = compensatedInvoice db inv cc :=
  dif_pos wellAttributed_compensations

theorem credit_of_mem_compensations (hcust : cc.customer = inv.customer) {c : InvoiceItem}
    (hc : c ∈ (compensate db inv cc).compensations) : (c.credit == some inv.customer) = true := by
  obtain ⟨it, -, amount, -, hcomp⟩ := runAfter_compensate.item c hc
  rw [hcomp, ← hcust]
  exact beq_self_eq_true _

theorem compensations_compensatedInvoice (hcust : cc.customer = inv.customer) (hnone : inv.compensations = []) :
    (compensatedInvoice db inv cc).compensations = (compensate db inv cc).compensations := by
  show (inv.items ++ _).filter (fun it => it.credit == some inv.customer) = _
  rw [List.filter_append]
  have hold : inv.items.filter (fun it => it.credit == some inv.customer) = [] := hnone
  rw [hold, List.nil_append]
  exact List.filter_eq_self.mpr fun c hc => credit_of_mem_compensations hcust hc

theorem withoutCompensations_of_none (hnone : inv.compensations = []) : inv.withoutCompensations = inv := by
  have hitems : inv.items.filter (fun it => !(it.credit == some inv.customer)) = inv.items := by
    refine List.filter_eq_self.mpr fun it hit => ?_
    have h := List.filter_eq_nil_iff.mp hnone it hit
    simpa using h
  unfold Invoice.withoutCompensations Invoice.deleteItems
  simp only [hitems]

theorem withoutCompensations_compensatedInvoice (hcust : cc.customer = inv.customer)
    (hnone : inv.compensations = []) : (compensatedInvoice db inv cc).withoutCompensations = inv := by
  have hnew : (compensate db inv cc).compensations.filter (fun it => !(it.credit == some inv.customer)) = [] := by
    refine List.filter_eq_nil_iff.mpr fun c hc => ?_
    simpa using credit_of_mem_compensations hcust hc
  refine Eq.trans ?_ (withoutCompensations_of_none hnone)
  unfold Invoice.withoutCompensations Invoice.deleteItems compensatedInvoice Invoice.addItems
  simp only [List.filter_append, hnew, List.append_nil]

theorem compensations_withoutCompensations : inv.withoutCompensations.compensations = [] := by
  refine List.filter_eq_nil_iff.mpr fun it hit h => ?_
  have hcredit : (it.credit == some inv.customer) = true := h
  have hkept := (List.mem_filter.mp hit).2
  simp [hcredit] at hkept

end

/-! ## What is refunded -/

/-- What the roll-back adds to the credit of a project. -/
def refund (items : List InvoiceItem) (p : Project) : ℚ :=
  ((items.filter (fun it => it.project == some p)).map (·.unitPrice)).sum * -1

theorem rolledBack_cases (items : List InvoiceItem) (pc : ProjectCredit) :
    (rolledBack items pc = none ∧ refund items pc.project = 0) ∨
      rolledBack items pc = some (pc.load.setValue (pc.value + refund items pc.project)) := by
  unfold rolledBack refund
  cases h : items.filter (fun it => it.project == some pc.project) with
  | nil => exact Or.inl ⟨rfl, by simp⟩
  | cons it its => exact Or.inr rfl

theorem mem_projects_of_rolledBack {items : List InvoiceItem} {L : List ProjectCredit} {p : Project}
    (h : p ∈ (L.filterMap (rolledBack items)).map (·.obj.project)) : p ∈ L.map (·.project) := by
  obtain ⟨l, hl, rfl⟩ := List.mem_map.mp h
  obtain ⟨pc, hpc, hroll⟩ := List.mem_filterMap.mp hl
  rw [rolledBack_project items pc l hroll]
  exact List.mem_map_of_mem hpc

theorem value_overwrittenBy_of_not_mem {items : List InvoiceItem} {L : List ProjectCredit} {pc : ProjectCredit}
    (h : pc.project ∉ L.map (·.project)) :
    (pc.overwrittenBy .value (L.filterMap (rolledBack items))).value = pc.value := by
  rw [overwrittenBy_of_not_mem fun hmem => h (mem_projects_of_rolledBack hmem)]

/-- A row that the refunds of a series reach. -/
theorem value_overwrittenBy_of_mem {items : List InvoiceItem} {pc : ProjectCredit} : ∀ (L : List ProjectCredit),
    (L.map (·.project)).Nodup → pc ∈ L →
    (pc.overwrittenBy .value (L.filterMap (rolledBack items))).value = pc.value + refund items pc.project
  | pc' :: L, hnd, hpc => by
    rw [List.map_cons, List.nodup_cons] at hnd
    rcases List.mem_cons.mp hpc with rfl | hpc
    · rcases rolledBack_cases items pc with ⟨hnone, hzero⟩ | hsome
      · rw [List.filterMap_cons_none hnone, value_overwrittenBy_of_not_mem hnd.1, hzero, add_zero]
      · rw [List.filterMap_cons_some hsome, overwrittenBy_cons]
        exact congrArg (fun pc : ProjectCredit => pc.value) (if_pos rfl)
    · have hne : pc.project ≠ pc'.project := fun h => hnd.1 (h ▸ List.mem_map_of_mem hpc)
      have ih := @value_overwrittenBy_of_mem items pc L hnd.2 hpc
      rcases rolledBack_cases items pc' with ⟨hnone, -⟩ | hsome
      · rw [List.filterMap_cons_none hnone, ih]
      · rw [List.filterMap_cons_some hsome, overwrittenBy_cons]
        exact (congrArg (fun pc : ProjectCredit => pc.value) (if_neg hne)).trans ih

section

variable {db : Db} {inv : Invoice} {cc : CustomerCredit}

/-- A project without a resource on the invoice draws nothing. -/
theorem usage_of_not_mem {p : Project} (hp : p ∉ inv.itemsProjects) : usage db inv cc p = 0 := by
  refine if_neg fun hmem => ?_
  obtain ⟨it, -, hpock⟩ := List.mem_filterMap.mp hmem
  have hsome := (pocket_eq_some.mp hpock).2
  rw [get?_loadProjectsCredits, if_neg hp] at hsome
  cases hsome

theorem isSome_loadProjectsCredits {pc : ProjectCredit} (hpc : db.projectCredit? pc.project = some pc)
    (hmem : pc.project ∈ inv.itemsProjects) : ((loadProjectsCredits db inv).get? pc.project).isSome := by
  rw [get?_loadProjectsCredits, if_pos hmem, hpc]
  rfl

/-- The refund of a project is what usage drew from its credit. -/
theorem refund_eq_usage {pc : ProjectCredit} (hpc : db.projectCredit? pc.project = some pc) :
    refund (compensate db inv cc).compensations pc.project = usage db inv cc pc.project := by
  have htotal : refund (compensate db inv cc).compensations pc.project =
      totalProjectCompensation (compensate db inv cc).compensations pc.project := by
    unfold refund totalProjectCompensation
    rw [List.sum_map_mul_right]
    congr 3
    refine List.filter_congr fun c hc => ?_
    obtain ⟨it, -, amount, -, hcomp⟩ := runAfter_compensate.item c hc
    rw [hcomp]
    show (it.resource.map (·.project) == some pc.project) = it.resource.any (fun r => r.project == pc.project)
    cases it.resource <;> rfl
  rw [htotal]
  by_cases hmem : pc.project ∈ inv.itemsProjects
  · exact runAfter_compensate.project_total _ (isSome_loadProjectsCredits hpc hmem)
  · rw [totalProjectCompensation_of_not_mem hmem, usage_of_not_mem hmem]

theorem mem_itemsProjects_of_compensation {c : InvoiceItem} {p : Project}
    (hc : c ∈ (compensate db inv cc).compensations) (hp : c.project = some p) : p ∈ inv.itemsProjects := by
  obtain ⟨it, hit, amount, -, hcomp⟩ := runAfter_compensate.item c hc
  rw [hcomp] at hp
  exact List.mem_filterMap.mpr ⟨it, (mem_chargeableItems (mem_servedItems hit)).1, hp⟩

/-- A project without a draw has no compensation. -/
theorem rolledBack_eq_none_of_usage {pc row : ProjectCredit} (hpc : db.projectCredit? pc.project = some pc)
    (hrow : row.project = pc.project) (h0 : usage db inv cc pc.project = 0) :
    rolledBack (compensate db inv cc).compensations row = none := by
  have hnil : (compensate db inv cc).compensations.filter (fun it => it.project == some row.project) = [] := by
    refine List.filter_eq_nil_iff.mpr fun c hc hcp => ?_
    have hproj : c.project = some pc.project := by
      rw [← hrow]
      simpa using hcp
    have hmem := mem_itemsProjects_of_compensation hc hproj
    exact runAfter_compensate.project_none _ (isSome_loadProjectsCredits hpc hmem) h0 c hc hproj
  unfold rolledBack
  simp only [hnil]

end

/-! ## What is restored -/

theorem drawTail_snd (value m total : ℚ) :
    (drawTail value m total).2 = if m ≠ 0 ∧ total < m then max 0 (value - (m - total)) else value := by
  unfold drawTail
  by_cases hm : m ≠ 0 ∧ total < m
  · rw [if_pos hm, if_pos hm]
    by_cases hlt : value - (m - total) < 0
    · simp only [if_pos hlt]
      exact (max_eq_left hlt.le).symm
    · simp only [if_neg hlt]
      exact (max_eq_right (not_lt.mp hlt)).symm
  · rw [if_neg hm, if_neg hm]

/-- A pool with something left. -/
theorem restored_iff_of_left {V D m : ℚ} :
    (drawTail (V - D) m D).2 + max D m = V ↔ m ≤ D ∨ (m ≠ 0 ∧ m ≤ V) := by
  rw [drawTail_snd]
  by_cases hm : m ≠ 0 ∧ D < m
  · rw [if_pos hm, max_eq_right hm.2.le]
    have hV : V - D - (m - D) = V - m := by ring
    rw [hV]
    constructor
    · intro h
      have hle := le_max_left 0 (V - m)
      exact Or.inr ⟨hm.1, by linarith⟩
    · rintro (h | ⟨-, h⟩)
      · exact absurd hm.2 (not_lt.mpr h)
      · rw [max_eq_right (sub_nonneg.mpr h)]
        ring
  · rw [if_neg hm]
    have hle : m ≤ D ↔ max D m = D := max_eq_left_iff.symm
    constructor
    · intro h
      exact Or.inl (hle.mpr (by linarith))
    · intro h
      have hmD : m ≤ D := h.elim id fun h' => not_lt.mp fun hlt => hm ⟨h'.1, hlt⟩
      rw [hle.mp hmD]
      ring

/-- An exhausted pool, its last compensation net of tax. -/
theorem restored_iff_of_exhausted {V D m t : ℚ} (ht : 0 ≤ t) (hD : D ≠ V) :
    (drawTail 0 m (D + (V - D) / (1 + t / 100))).2 + max (D + (V - D) / (1 + t / 100)) m = V ↔
      if t = 0 then m ≤ V else D < V ∧ m = V := by
  have hzero : ∀ P : ℚ, (drawTail 0 m P).2 = 0 := by
    intro P
    rw [drawTail_snd]
    split
    · next hm => exact max_eq_left (by linarith [hm.2])
    · rfl
  rw [hzero, zero_add]
  by_cases h0 : t = 0
  · have hP : D + (V - D) / (1 + t / 100) = V := by
      rw [h0]
      norm_num
    rw [if_pos h0, hP]
    exact max_eq_left_iff
  · rw [if_neg h0]
    have hpos : 0 < t / 100 := div_pos (lt_of_le_of_ne ht (Ne.symm h0)) (by norm_num)
    -- tax keeps a share of what was left
    have hP : D + (V - D) / (1 + t / 100) = V - (V - D) * (t / 100 / (1 + t / 100)) := by
      field_simp
      ring
    have hshare : 0 < t / 100 / (1 + t / 100) := div_pos hpos (by linarith)
    rw [hP]
    rcases lt_or_gt_of_ne hD with hlt | hgt
    · have hkept : 0 < (V - D) * (t / 100 / (1 + t / 100)) := mul_pos (sub_pos.mpr hlt) hshare
      constructor
      · intro h
        refine ⟨hlt, ?_⟩
        rcases max_choice (V - (V - D) * (t / 100 / (1 + t / 100))) m with h' | h' <;> linarith
      · rintro ⟨-, rfl⟩
        exact max_eq_right (by linarith)
    · have hkept : (V - D) * (t / 100 / (1 + t / 100)) < 0 := mul_neg_of_neg_of_pos (sub_neg.mpr hgt) hshare
      constructor
      · intro h
        have hle := le_max_left (V - (V - D) * (t / 100 / (1 + t / 100))) m
        linarith
      · rintro ⟨h, -⟩
        exact absurd h hgt.not_gt

/-- The balance of a project credit, drawn on and refunded. -/
theorem restored_iff_of_project {v u m : ℚ} :
    (drawTail (v - u) m u).2 + u = v ↔ m = 0 ∨ m ≤ u ∨ v = u := by
  rw [drawTail_snd]
  by_cases hm : m ≠ 0 ∧ u < m
  · rw [if_pos hm]
    have hv : v - u - (m - u) = v - m := by ring
    rw [hv]
    constructor
    · intro h
      rcases max_choice 0 (v - m) with h' | h'
      · exact Or.inr (Or.inr (by linarith))
      · exact absurd hm.2 (by linarith)
    · rintro (h | h | rfl)
      · exact absurd h hm.1
      · exact absurd hm.2 (not_lt.mpr h)
      · rw [max_eq_left (by linarith [hm.2])]
        ring
  · rw [if_neg hm]
    refine ⟨fun _ => ?_, fun _ => by ring⟩
    by_cases h0 : m = 0
    · exact Or.inl h0
    · exact Or.inr (Or.inl (not_lt.mp fun hlt => hm ⟨h0, hlt⟩))

/-! ## A saved run, rolled back -/

section

variable {db db₁ : Db} {today today' : Date} {inv : Invoice} {cc : CustomerCredit}

/-- The stored value of a project credit once the run is saved. -/
theorem value_overwrittenBy_saved (hV : cc.value ≠ 0) {pc : ProjectCredit}
    (hpc : db.projectCredit? pc.project = some pc) :
    (pc.overwrittenBy .value (savedCredits db today inv cc)).value =
      if pc.project ∈ inv.itemsProjects then settledValue db today inv cc pc else pc.value := by
  have hfind : (savedCredits db today inv cc).find? (fun l => decide (l.obj.project = pc.project)) =
      ((loadProjectsCredits db inv).get? pc.project).map
        (fun l => l.setValue (settledValue db today inv cc l.obj)) := by
    unfold savedCredits Table.get?
    rw [if_neg hV, List.find?_map]
    rfl
  unfold ProjectCredit.overwrittenBy
  rw [hfind, get?_loadProjectsCredits, hpc]
  split_ifs <;> rfl

/-- What the roll-back of the run makes of the organization credit. -/
theorem refundedValue_compensated (hcust : cc.customer = inv.customer) (hnone : inv.compensations = [])
    (hV : cc.value ≠ 0) (hmin : cc.minimalConsumption today' = cc.minimalConsumption today) :
    refundedValue today' (compensatedInvoice db inv cc) { cc with value := savedValue db today inv cc } =
      (drawTail (balanceOn db inv cc) (cc.minimalConsumption today) (paidOn db inv cc)).2 +
        max (paidOn db inv cc) (cc.minimalConsumption today) := by
  have htotal : ((compensate db inv cc).compensations.map (·.unitPrice)).sum * -1 = paidOn db inv cc := by
    rw [← List.sum_map_mul_right]
    exact runAfter_compensate.total
  have hmin' : ({ cc with value := savedValue db today inv cc } : CustomerCredit).minimalConsumption today' =
      cc.minimalConsumption today := hmin
  unfold refundedValue
  rw [compensations_compensatedInvoice hcust hnone, htotal, hmin']
  unfold savedValue
  rw [if_neg hV]

theorem refundedValue_eq_iff (hcust : cc.customer = inv.customer) (hnone : inv.compensations = [])
    (hV : cc.value ≠ 0) (hmin : cc.minimalConsumption today' = cc.minimalConsumption today) :
    refundedValue today' (compensatedInvoice db inv cc) { cc with value := savedValue db today inv cc } =
      cc.value ↔ PoolRestored db today inv cc := by
  rw [refundedValue_compensated hcust hnone hV hmin]
  unfold PoolRestored balanceOn paidOn balance RunContext.paid
  by_cases hx : Exhausted (pocket (loadProjectsCredits db inv)) (runContext db inv cc).cost
      (allocation (loadProjectsCredits db inv)) cc.value (servedItems db inv cc)
  · simp only [if_pos hx]
    exact restored_iff_of_exhausted inv.tax_nonneg (demand_dropLast_ne hV hx)
  · simp only [if_neg hx]
    exact restored_iff_of_left

/-- A project credit as the save of the run leaves it. -/
def savedRow (db : Db) (today : Date) (inv : Invoice) (cc : CustomerCredit) (pc : ProjectCredit) : ProjectCredit :=
  pc.overwrittenBy .value (savedCredits db today inv cc)

theorem savedRow_project (pc : ProjectCredit) : (savedRow db today inv cc pc).project = pc.project :=
  overwrittenBy_project _ _

theorem projectCredit_of_mem {pc : ProjectCredit} (h : pc ∈ db.customerProjectCredits inv.customer) :
    db.projectCredit? pc.project = some pc :=
  Table.get?_eq_some.mpr ⟨List.mem_of_mem_filter h, rfl⟩

theorem customerProjectCredits_settled (hdb₁ : (db.settled today inv cc).SameTables db₁) (customer : ℕ) :
    db₁.customerProjectCredits customer =
      (db.customerProjectCredits customer).map (savedRow db today inv cc) := by
  unfold Db.customerProjectCredits
  rw [hdb₁.projectCredits]
  show ((db.projectCredits.rows.map _).filter _) = _
  rw [List.filter_map]
  congr 1
  refine List.filter_congr fun pc _ => ?_
  rw [Function.comp_apply, overwrittenBy_project]

theorem refundedCredits_compensated (hdb₁ : (db.settled today inv cc).SameTables db₁)
    (hcust : cc.customer = inv.customer) (hnone : inv.compensations = []) :
    refundedCredits db₁ (compensatedInvoice db inv cc) =
      ((db.customerProjectCredits inv.customer).map (savedRow db today inv cc)).filterMap
        (rolledBack (compensate db inv cc).compensations) := by
  unfold refundedCredits
  rw [compensations_compensatedInvoice hcust hnone]
  exact congrArg _ (customerProjectCredits_settled hdb₁ _)

/-- The refund of a saved row. -/
theorem refund_savedRow {pc : ProjectCredit} (hpc : db.projectCredit? pc.project = some pc) :
    refund (compensate db inv cc).compensations (savedRow db today inv cc pc).project =
      usage db inv cc pc.project := by
  rw [savedRow_project]
  exact refund_eq_usage hpc

theorem savedRow_restored_iff (hV : cc.value ≠ 0) {pc : ProjectCredit}
    (hpc : db.projectCredit? pc.project = some pc) :
    (savedRow db today inv cc pc).value + usage db inv cc pc.project = pc.value ↔
      (pc.project ∈ inv.itemsProjects → ProjectRestored db today inv cc pc) := by
  unfold savedRow
  rw [value_overwrittenBy_saved hV hpc]
  by_cases hmem : pc.project ∈ inv.itemsProjects
  · rw [if_pos hmem]
    unfold settledValue
    exact restored_iff_of_project.trans ⟨fun h _ => h, fun h => h hmem⟩
  · rw [if_neg hmem, usage_of_not_mem hmem, add_zero]
    exact ⟨fun _ h => absurd h hmem, fun _ => rfl⟩

/-- **A project credit after the save and the roll-back.** -/
theorem rolledBack_restored_iff (hdb₁ : (db.settled today inv cc).SameTables db₁)
    (hcust : cc.customer = inv.customer) (hnone : inv.compensations = []) (hV : cc.value ≠ 0) {pc : ProjectCredit}
    (hrow : pc ∈ db.projectCredits.rows) :
    ((savedRow db today inv cc pc).overwrittenBy .value
        (refundedCredits db₁ (compensatedInvoice db inv cc))).value = pc.value ↔
      (pc.project ∈ inv.itemsProjects → ProjectRestored db today inv cc pc) := by
  have hpc : db.projectCredit? pc.project = some pc := Table.get?_eq_some.mpr ⟨hrow, rfl⟩
  have hprojects : ((db.customerProjectCredits inv.customer).map (savedRow db today inv cc)).map (·.project) =
      (db.customerProjectCredits inv.customer).map (·.project) := by
    rw [List.map_map]
    exact List.map_congr_left fun pc _ => savedRow_project pc
  rw [refundedCredits_compensated hdb₁ hcust hnone]
  by_cases hc : pc.project.customer = inv.customer
  · have hmem : pc ∈ db.customerProjectCredits inv.customer := List.mem_filter.mpr ⟨hrow, by simpa using hc⟩
    have hnd := nodup_customerProjectCredits db inv.customer
    rw [← hprojects] at hnd
    rw [value_overwrittenBy_of_mem _ hnd (List.mem_map_of_mem hmem), refund_savedRow hpc]
    exact savedRow_restored_iff hV hpc
  · -- a project of another organization is on neither side
    have hitems : pc.project ∉ inv.itemsProjects := fun hmem => hc (customer_of_mem_itemsProjects hmem)
    have hout : (savedRow db today inv cc pc).project ∉
        ((db.customerProjectCredits inv.customer).map (savedRow db today inv cc)).map (·.project) := by
      rw [hprojects, savedRow_project]
      intro hmem
      obtain ⟨pc', hpc', hp⟩ := List.mem_map.mp hmem
      have hc' := (List.mem_filter.mp hpc').2
      rw [hp] at hc'
      exact hc (by simpa using hc')
    rw [value_overwrittenBy_of_not_mem hout, ← savedRow_restored_iff hV hpc, usage_of_not_mem hitems, add_zero]

/-- The other project credits of the organization around a project credit. -/
theorem otherProjectCredits_settled (hdb₁ : (db.settled today inv cc).SameTables db₁)
    {l₁ l₂ : List ProjectCredit} {pc : ProjectCredit}
    (hsplit : db.customerProjectCredits inv.customer = l₁ ++ pc :: l₂) :
    db₁.otherProjectCredits pc.project = (l₁ ++ l₂).map (savedRow db today inv cc) := by
  have hnd := nodup_customerProjectCredits db inv.customer
  rw [hsplit, List.map_append, List.map_cons, List.nodup_middle, List.nodup_cons, ← List.map_append] at hnd
  have hc : pc.project.customer = inv.customer := by
    have hmem : pc ∈ db.customerProjectCredits inv.customer := by
      rw [hsplit]
      simp
    simpa using (List.mem_filter.mp hmem).2
  have hfilter : db₁.otherProjectCredits pc.project =
      (db₁.customerProjectCredits inv.customer).filter (fun other => other.project != pc.project) := by
    unfold Db.otherProjectCredits Db.customerProjectCredits
    rw [List.filter_filter, hc]
    exact List.filter_congr fun other _ => Bool.and_comm _ _
  have hkeep : ∀ l : List ProjectCredit, (∀ other ∈ l, other ∈ l₁ ++ l₂) →
      (l.map (savedRow db today inv cc)).filter (fun other => other.project != pc.project) =
        l.map (savedRow db today inv cc) := by
    intro l hl
    refine List.filter_eq_self.mpr fun other hother => ?_
    obtain ⟨other, hmem, rfl⟩ := List.mem_map.mp hother
    rw [savedRow_project, bne_iff_ne]
    intro hp
    exact hnd.1 (hp ▸ List.mem_map_of_mem (hl other hmem))
  rw [hfilter, customerProjectCredits_settled hdb₁, hsplit, List.map_append, List.map_cons, List.filter_append,
    List.filter_cons_of_neg (by rw [savedRow_project]; simp), hkeep l₁ fun _ h => List.mem_append_left _ h,
    hkeep l₂ fun _ h => List.mem_append_right _ h, ← List.map_append]

/-- The other allocations that a refund is checked against. -/
theorem othersAfter_refunds (hdb₁ : (db.settled today inv cc).SameTables db₁)
    (hres : ∀ pc ∈ db.customerProjectCredits inv.customer,
      (savedRow db today inv cc pc).value + usage db inv cc pc.project = pc.value)
    {l₁ l₂ : List ProjectCredit} {pc : ProjectCredit}
    (hsplit : db.customerProjectCredits inv.customer = l₁ ++ pc :: l₂) :
    db₁.othersAfter ((l₁.map (savedRow db today inv cc)).filterMap
        (rolledBack (compensate db inv cc).compensations)) pc.project =
      (l₁.map (·.value)).sum + (l₂.map (fun pc => pc.value - usage db inv cc pc.project)).sum := by
  have hnd := nodup_customerProjectCredits db inv.customer
  rw [hsplit, List.map_append, List.map_cons, List.nodup_middle, List.nodup_cons] at hnd
  have hmem : ∀ other ∈ l₁ ++ l₂, other ∈ db.customerProjectCredits inv.customer := by
    intro other h
    rw [hsplit]
    simp only [List.mem_append, List.mem_cons] at h ⊢
    exact h.imp_right Or.inr
  have hprojects : (l₁.map (savedRow db today inv cc)).map (·.project) = l₁.map (·.project) := by
    rw [List.map_map]
    exact List.map_congr_left fun pc _ => savedRow_project pc
  unfold Db.othersAfter
  rw [otherProjectCredits_settled hdb₁ hsplit, List.map_map, List.map_append, List.sum_append]
  congr 2
  · -- refunded before
    refine List.map_congr_left fun other hother => ?_
    have hrow := hmem other (List.mem_append_left _ hother)
    have hnd₁ : ((l₁.map (savedRow db today inv cc)).map (·.project)).Nodup := by
      rw [hprojects]
      exact hnd.2.of_append_left
    rw [Function.comp_apply, value_overwrittenBy_of_mem _ hnd₁ (List.mem_map_of_mem hother),
      refund_savedRow (projectCredit_of_mem hrow)]
    exact hres other hrow
  · -- still as the run left it
    refine List.map_congr_left fun other hother => ?_
    have hrow := hmem other (List.mem_append_right _ hother)
    have hout : (savedRow db today inv cc other).project ∉
        (l₁.map (savedRow db today inv cc)).map (·.project) := by
      rw [hprojects, savedRow_project]
      intro h
      exact List.disjoint_of_nodup_append hnd.2 h (List.mem_map_of_mem hother)
    rw [Function.comp_apply, value_overwrittenBy_of_not_mem hout]
    linarith [hres other hrow]

/-- **The checks of the refunds**, once the balances are restored. -/
theorem seriesFits_refunds_iff (hdb₁ : (db.settled today inv cc).SameTables db₁)
    (hcust : cc.customer = inv.customer) (hnone : inv.compensations = [])
    (hres : ∀ pc ∈ db.customerProjectCredits inv.customer,
      (savedRow db today inv cc pc).value + usage db inv cc pc.project = pc.value) :
    db₁.SeriesFits cc.value (refundedCredits db₁ (compensatedInvoice db inv cc)) ↔ RefundsFit db inv cc := by
  rw [refundedCredits_compensated hdb₁ hcust hnone, List.filterMap_map]
  refine (@forall_split_filterMap _ _ _ _ (fun m₁ l => (if db₁.othersAfter m₁ l.obj.project = 0 then l.obj.value
    else db₁.othersAfter m₁ l.obj.project) ≤ cc.value)).trans ?_
  refine forall_congr' fun l₁ => forall_congr' fun pc => forall_congr' fun l₂ => forall_congr' fun hsplit => ?_
  have hmem : pc ∈ db.customerProjectCredits inv.customer := by
    rw [hsplit]
    simp
  have hpc := projectCredit_of_mem hmem
  have hothers := othersAfter_refunds hdb₁ hres hsplit
  rw [List.filterMap_map] at hothers
  rcases rolledBack_cases (compensate db inv cc).compensations (savedRow db today inv cc pc) with
    ⟨hroll, hzero⟩ | hroll
  · rw [refund_savedRow hpc] at hzero
    rw [Function.comp_apply, hroll]
    exact ⟨fun _ h => absurd hzero h, fun _ _ h => nomatch h⟩
  · have hvalue : (savedRow db today inv cc pc).value + refund (compensate db inv cc).compensations
        (savedRow db today inv cc pc).project = pc.value := by
      rw [refund_savedRow hpc]
      exact hres pc hmem
    rw [Function.comp_apply, hroll, hvalue]
    constructor
    · intro h _
      have h' := h _ rfl
      rw [Loaded.setValue_project, Loaded.setValue_value] at h'
      rw [← hothers]
      rwa [show (savedRow db today inv cc pc).load.obj.project = pc.project from savedRow_project pc] at h'
    · intro h l hl
      obtain rfl := Option.some.inj hl
      have hne : usage db inv cc pc.project ≠ 0 := by
        intro h0
        rw [rolledBack_eq_none_of_usage hpc (savedRow_project pc) h0] at hroll
        cases hroll
      have h' := h hne
      rw [← hothers] at h'
      rw [Loaded.setValue_project, Loaded.setValue_value]
      rwa [show (savedRow db today inv cc pc).load.obj.project = pc.project from savedRow_project pc]

end

/-! ## The run repeated -/

/-- Two runs that agree but for the uuids of their compensations. -/
structure Run.Agree (run run' : Run) : Prop where
  creditValue : run'.creditValue = run.creditValue
  projectsCredits : run'.projectsCredits = run.projectsCredits
  amounts : run'.compensations.map (fun c => (c.details.compensationOfItem, c.unitPrice)) =
    run.compensations.map (fun c => (c.details.compensationOfItem, c.unitPrice))

section

variable {ctx : RunContext} {run run' : Run} (n : ℕ)

theorem Run.Agree.draw (h : run.Agree run') (item : InvoiceItem) :
    (ctx.draw run item).1.Agree ({ ctx with nextUuid := n }.draw run' item).1 ∧
      ({ ctx with nextUuid := n }.draw run' item).2 = (ctx.draw run item).2 := by
  obtain ⟨creditValue, projectsCredits, compensations, customerUsageDraw, projectUsageDraws⟩ := run
  obtain ⟨creditValue', projectsCredits', compensations', customerUsageDraw', projectUsageDraws'⟩ := run'
  obtain ⟨hc, hp, ha⟩ := h
  obtain rfl : creditValue' = creditValue := hc
  obtain rfl : projectsCredits' = projectsCredits := hp
  have hcost : { ctx with nextUuid := n }.cost item = ctx.cost item := rfl
  unfold RunContext.draw
  simp only [hcost]
  split
  · split
    · exact ⟨⟨rfl, rfl, ha⟩, rfl⟩
    · exact ⟨⟨rfl, rfl, ha⟩, rfl⟩
  · split
    · exact ⟨⟨rfl, rfl, ha⟩, rfl⟩
    · exact ⟨⟨rfl, rfl, ha⟩, rfl⟩

theorem Run.Agree.compensateItem (h : run.Agree run') (item : InvoiceItem) :
    (ctx.compensateItem run item).Agree ({ ctx with nextUuid := n }.compensateItem run' item) := by
  obtain ⟨hdraw, hamount⟩ := @Run.Agree.draw ctx run run' n h item
  unfold RunContext.compensateItem
  simp only [hamount]
  split
  · exact hdraw
  · refine ⟨hdraw.creditValue, hdraw.projectsCredits, ?_⟩
    simp only [List.map_append, List.map_cons, hdraw.amounts]
    rfl

theorem Run.Agree.compensateItems : ∀ (items : List InvoiceItem) {run run' : Run}, run.Agree run' →
    (ctx.compensateItems run items).Agree ({ ctx with nextUuid := n }.compensateItems run' items)
  | [], _, _, h => h
  | item :: items, run, run', h => by
    have hstep := @Run.Agree.compensateItem ctx run run' n h item
    unfold RunContext.compensateItems
    simp only [hstep.creditValue]
    split
    · exact hstep
    · exact Run.Agree.compensateItems items hstep

end

section

variable {db db' : Db} {today today' : Date} {inv : Invoice} {cc : CustomerCredit}

theorem loadProjectsCredits_congr (h : db.SameCredits db') :
    loadProjectsCredits db' inv = loadProjectsCredits db inv := by
  unfold loadProjectsCredits
  rw [h.projectCredits]

theorem compensate_congr (h : db.SameCredits db') :
    (compensate db inv cc).Agree (compensate db' inv cc) := by
  unfold compensate
  rw [loadProjectsCredits_congr h]
  exact Run.Agree.compensateItems db'.nextUuid _ ⟨rfl, rfl, rfl⟩

theorem servedItems_congr (h : db.SameCredits db') : servedItems db' inv cc = servedItems db inv cc := by
  unfold servedItems
  rw [loadProjectsCredits_congr h]
  rfl

theorem usage_congr (h : db.SameCredits db') : usage db' inv cc = usage db inv cc := by
  funext p
  unfold usage drawnOn
  rw [servedItems_congr h, loadProjectsCredits_congr h]
  rfl

/-- The minimal consumptions of an organization are the same on two days. -/
def SameMinimalConsumption (db : Db) (customer : ℕ) (today today' : Date) : Prop :=
  (∀ cc, db.customerCredit? customer = some cc → cc.minimalConsumption today' = cc.minimalConsumption today) ∧
    ∀ pc ∈ db.customerProjectCredits customer, pc.minimalConsumption today' = pc.minimalConsumption today

theorem savedValue_congr (h : db.SameCredits db')
    (hmin : cc.minimalConsumption today' = cc.minimalConsumption today) :
    savedValue db' today' inv cc = savedValue db today inv cc := by
  unfold savedValue balanceOn paidOn
  rw [hmin, servedItems_congr h, loadProjectsCredits_congr h]
  rfl

theorem savedCredits_congr (h : db.SameCredits db')
    (hmin : ∀ pc ∈ db.customerProjectCredits inv.customer, pc.minimalConsumption today' = pc.minimalConsumption today) :
    savedCredits db' today' inv cc = savedCredits db today inv cc := by
  unfold savedCredits
  rw [loadProjectsCredits_congr h]
  refine ite_congr rfl (fun _ => rfl) fun _ => List.map_congr_left fun l hl => ?_
  obtain ⟨pc, hpc, rfl⟩ := List.mem_map.mp hl
  obtain ⟨hrow, hmem⟩ := List.mem_filter.mp hpc
  have hcust := customer_of_mem_itemsProjects (List.contains_iff_mem.mp hmem)
  have hm : pc.minimalConsumption today' = pc.minimalConsumption today :=
    hmin pc (List.mem_filter.mpr ⟨hrow, by simpa using hcust⟩)
  have hm' : pc.load.obj.minimalConsumption today' = pc.load.obj.minimalConsumption today := hm
  unfold settledValue
  rw [usage_congr h, hm']

theorem settled_congr (h : db.SameCredits db') (hcc : cc.minimalConsumption today' = cc.minimalConsumption today)
    (hmin : ∀ pc ∈ db.customerProjectCredits inv.customer, pc.minimalConsumption today' = pc.minimalConsumption today) :
    (db.settled today inv cc).SameCredits (db'.settled today' inv cc) := by
  refine ⟨Table.ext ?_, Table.ext ?_⟩
  · show db'.customerCredits.rows.map _ = db.customerCredits.rows.map _
    rw [h.customerCredits, savedValue_congr h hcc]
  · show db'.projectCredits.rows.map _ = db.projectCredits.rows.map _
    rw [h.projectCredits, savedCredits_congr h hmin]

end

/-! ## The round trip -/

section

variable {db db₁ db₂ : Db} {today today' : Date} {inv : Invoice} {cc : CustomerCredit} {invoice : Option ℕ}
  {mc₁ mc₂ : MonthlyCompensation}

theorem settle_projectCredit {value : ℚ} {L : List (Loaded ProjectCredit)} {f : Invoice → Invoice}
    {hf : ∀ i, (f i).id = i.id} (p : Project) :
    (db.settle inv value L f hf).projectCredit? p = (db.projectCredit? p).map (ProjectCredit.overwrittenBy .value L) :=
  Table.get?_mapRows db.projectCredits (ProjectCredit.overwrittenBy .value L) (fun _ => overwrittenBy_project _ _) p

/-- A series of value writes changes the value only. -/
theorem overwrittenBy_value_eq (L : List (Loaded ProjectCredit)) (pc : ProjectCredit) :
    pc.overwrittenBy .value L = { pc with value := (pc.overwrittenBy .value L).value } := by
  unfold ProjectCredit.overwrittenBy
  split
  · rfl
  · rfl

theorem overwrittenBy_twice_eq_self {L L' : List (Loaded ProjectCredit)} {pc : ProjectCredit}
    (h : ((pc.overwrittenBy .value L).overwrittenBy .value L').value = pc.value) :
    (pc.overwrittenBy .value L).overwrittenBy .value L' = pc := by
  rw [overwrittenBy_value_eq L', h, overwrittenBy_value_eq L]

/-- An object that has calculated is loaded again before it clears. -/
theorem clear_of_calculated {mc : MonthlyCompensation} (h : mc.calculated = true) :
    mc.clearCompensations db today = (init db mc.customer mc.invoice).clearCompensations db today := by
  have hinit : (init db mc.customer mc.invoice).calculated = false := rfl
  unfold clearCompensations
  simp only [h, hinit, if_true, Bool.false_eq_true, if_false]

section Saved

variable (hinv : db.invoices.get? inv.id = some inv) (hcc : db.customerCredit? inv.customer = some cc)
  (hnone : inv.compensations = []) (hV : cc.value ≠ 0) (hdb₁ : (db.settled today inv cc).SameTables db₁)

include hinv hV hdb₁ in
theorem settled_invoice : db₁.invoices.get? inv.id = some (compensatedInvoice db inv cc) := by
  rw [hdb₁.invoices]
  refine (settle_invoice hinv).trans ?_
  unfold savedCompensations
  rw [if_neg hV, bulkCreate_compensations]

include hcc hdb₁ in
theorem settled_customerCredit :
    db₁.customerCredit? inv.customer = some { cc with value := savedValue db today inv cc } :=
  (hdb₁.customerCredit? inv.customer).trans (settle_customerCredit hcc)

include hinv hcc hV hdb₁

/-- The roll-back of a saved run goes through if its refunds pass their checks. -/
theorem clear_saved_iff (hcomp : (compensatedInvoice db inv cc).compensations ≠ []) :
    (∃ r, (init db₁ inv.customer (some inv.id)).clearCompensations db₁ today' = .ok r) ↔
      db₁.SeriesFits (refundedValue today' (compensatedInvoice db inv cc)
        { cc with value := savedValue db today inv cc }) (refundedCredits db₁ (compensatedInvoice db inv cc)) := by
  have hget := settled_invoice hinv hV hdb₁
  have hcredit := settled_customerCredit hcc hdb₁
  rw [← @compensatedInvoice_id db inv cc] at hget ⊢
  rw [← @compensatedInvoice_customer db inv cc] at hcredit ⊢
  generalize compensatedInvoice db inv cc = ci at *
  exact clear_init_iff hget rfl hcredit hcomp

theorem clear_saved_fields (hcomp : (compensatedInvoice db inv cc).compensations ≠ [])
    (h : (init db₁ inv.customer (some inv.id)).clearCompensations db₁ today' = .ok (db₂, mc₂)) :
    (db₁.rolledBack today' (compensatedInvoice db inv cc) { cc with value := savedValue db today inv cc }).SameTables
      db₂ ∧ mc₂ = init db₂ inv.customer (some inv.id) := by
  have hget := settled_invoice hinv hV hdb₁
  have hcredit := settled_customerCredit hcc hdb₁
  rw [← @compensatedInvoice_id db inv cc] at hget h ⊢
  rw [← @compensatedInvoice_customer db inv cc] at hcredit h ⊢
  generalize compensatedInvoice db inv cc = ci at *
  exact clear_init_fields hget rfl hcredit hcomp h

include hnone in
/-- Balances that are restored are tables that are restored. -/
theorem sameTables_of_restored
    (hdb₂ : (db₁.rolledBack today' (compensatedInvoice db inv cc)
      { cc with value := savedValue db today inv cc }).SameTables db₂)
    (hvalue : refundedValue today' (compensatedInvoice db inv cc)
      { cc with value := savedValue db today inv cc } = cc.value)
    (hrows : ∀ pc ∈ db.projectCredits.rows, ((savedRow db today inv cc pc).overwrittenBy .value
      (refundedCredits db₁ (compensatedInvoice db inv cc))).value = pc.value) : db.SameTables db₂ := by
  have hcust : cc.customer = inv.customer := (Table.get?_eq_some.mp hcc).2
  refine ⟨⟨?_, ?_⟩, ?_⟩
  · refine Table.ext ?_
    rw [hdb₂.customerCredits]
    show db₁.customerCredits.rows.map _ = _
    rw [hdb₁.customerCredits]
    show (db.customerCredits.rows.map _).map _ = _
    rw [List.map_map]
    refine (List.map_congr_left fun stored hst => ?_).trans (List.map_id _)
    rw [Function.comp_apply, compensatedInvoice_customer, hvalue]
    by_cases hc : stored.customer = inv.customer
    · have hget : db.customerCredits.get? inv.customer = some stored := Table.get?_eq_some.mpr ⟨hst, hc⟩
      obtain rfl : stored = cc := Option.some.inj (hget.symm.trans hcc)
      rw [if_pos hc, if_pos hc]
      rfl
    · rw [if_neg hc, if_neg hc]
      rfl
  · refine Table.ext ?_
    rw [hdb₂.projectCredits]
    show db₁.projectCredits.rows.map _ = _
    rw [hdb₁.projectCredits]
    show (db.projectCredits.rows.map _).map _ = _
    rw [List.map_map]
    exact (List.map_congr_left fun pc hpc => overwrittenBy_twice_eq_self (hrows pc hpc)).trans (List.map_id _)
  · refine Table.ext ?_
    rw [hdb₂.invoices]
    show db₁.invoices.rows.map _ = _
    rw [hdb₁.invoices]
    show (db.invoices.rows.map _).map _ = _
    rw [List.map_map]
    refine (List.map_congr_left fun stored hst => ?_).trans (List.map_id _)
    rw [Function.comp_apply, compensatedInvoice_id]
    by_cases hid : stored.id = inv.id
    · have hget : db.invoices.get? inv.id = some stored := Table.get?_eq_some.mpr ⟨hst, hid⟩
      obtain rfl : stored = inv := Option.some.inj (hget.symm.trans hinv)
      have hitems : savedCompensations db stored cc = (compensate db stored cc).compensations := if_neg hV
      simp only [hitems, bulkCreate_compensations, compensatedInvoice_id, if_true]
      exact withoutCompensations_compensatedInvoice hcust hnone
    · rw [if_neg hid, if_neg hid]
      rfl

include hnone in
/-- Where a roll-back is exact it goes through and restores the tables. -/
theorem clear_of_exact (hcomp : (compensate db inv cc).compensations ≠ [])
    (hmin : SameMinimalConsumption db inv.customer today today') (hexact : RollbackExact db today inv cc) :
    ∃ db₂, (init db₁ inv.customer (some inv.id)).clearCompensations db₁ today' =
        .ok (db₂, init db₂ inv.customer (some inv.id)) ∧ db.SameTables db₂ := by
  have hcust : cc.customer = inv.customer := (Table.get?_eq_some.mp hcc).2
  have hci : (compensatedInvoice db inv cc).compensations ≠ [] := by
    rwa [compensations_compensatedInvoice hcust hnone]
  have hvalue := (refundedValue_eq_iff hcust hnone hV (hmin.1 cc hcc)).mpr hexact.pool
  have hres : ∀ pc ∈ db.customerProjectCredits inv.customer,
      (savedRow db today inv cc pc).value + usage db inv cc pc.project = pc.value := fun pc hpc =>
    (savedRow_restored_iff hV (projectCredit_of_mem hpc)).mpr (hexact.projects pc (List.mem_of_mem_filter hpc))
  have hfits := (seriesFits_refunds_iff hdb₁ hcust hnone hres).mpr hexact.refunds
  have hclear := (@clear_saved_iff db db₁ today today' inv cc hinv hcc hV hdb₁ hci).mpr (by rwa [hvalue])
  obtain ⟨⟨db₂, mc₂⟩, h⟩ := hclear
  obtain ⟨hdb₂, rfl⟩ := clear_saved_fields hinv hcc hV hdb₁ hci h
  exact ⟨db₂, h, sameTables_of_restored hinv hcc hnone hV hdb₁ hdb₂ hvalue fun pc hpc =>
    (rolledBack_restored_iff hdb₁ hcust hnone hV hpc).mpr (hexact.projects pc hpc)⟩

include hnone in
/-- A roll-back that goes through and restores the balances is exact. -/
theorem exact_of_clear (hcomp : (compensate db inv cc).compensations ≠ [])
    (hmin : SameMinimalConsumption db inv.customer today today')
    (h : (init db₁ inv.customer (some inv.id)).clearCompensations db₁ today' = .ok (db₂, mc₂))
    (hbal : db₂.balance = db.balance) : RollbackExact db today inv cc := by
  have hcust : cc.customer = inv.customer := (Table.get?_eq_some.mp hcc).2
  have hci : (compensatedInvoice db inv cc).compensations ≠ [] := by
    rwa [compensations_compensatedInvoice hcust hnone]
  obtain ⟨hdb₂, -⟩ := clear_saved_fields hinv hcc hV hdb₁ hci h
  have hvalue : refundedValue today' (compensatedInvoice db inv cc)
      { cc with value := savedValue db today inv cc } = cc.value := by
    have hcredit : db₁.customerCredit? (compensatedInvoice db inv cc).customer =
        some { cc with value := savedValue db today inv cc } := by
      rw [compensatedInvoice_customer]
      exact settled_customerCredit hcc hdb₁
    have hget := (hdb₂.customerCredit? (compensatedInvoice db inv cc).customer).trans (settle_customerCredit hcredit)
    rw [compensatedInvoice_customer] at hget
    have hb := congrFun hbal (.customer inv.customer)
    simp only [Db.balance, hget, hcc, Option.map_some, Option.getD_some] at hb
    exact hb
  have hrows : ∀ pc ∈ db.projectCredits.rows,
      pc.project ∈ inv.itemsProjects → ProjectRestored db today inv cc pc := by
    intro pc hpc
    have hget₁ : db₁.projectCredit? pc.project = some (savedRow db today inv cc pc) := by
      unfold Db.projectCredit?
      rw [hdb₁.projectCredits]
      refine (settle_projectCredit pc.project).trans ?_
      rw [show db.projectCredit? pc.project = some pc from Table.get?_eq_some.mpr ⟨hpc, rfl⟩]
      rfl
    have hget₂ : db₂.projectCredit? pc.project = some ((savedRow db today inv cc pc).overwrittenBy .value
        (refundedCredits db₁ (compensatedInvoice db inv cc))) := by
      unfold Db.projectCredit?
      rw [hdb₂.projectCredits]
      refine (settle_projectCredit pc.project).trans ?_
      rw [hget₁]
      rfl
    have hget : db.projectCredit? pc.project = some pc := Table.get?_eq_some.mpr ⟨hpc, rfl⟩
    have hb := congrFun hbal (.project pc.project)
    simp only [Db.balance, hget₂, hget, Option.map_some, Option.getD_some] at hb
    exact (rolledBack_restored_iff hdb₁ hcust hnone hV hpc).mp hb
  have hres : ∀ pc ∈ db.customerProjectCredits inv.customer,
      (savedRow db today inv cc pc).value + usage db inv cc pc.project = pc.value := fun pc hpc =>
    (savedRow_restored_iff hV (projectCredit_of_mem hpc)).mpr (hrows pc (List.mem_of_mem_filter hpc))
  have hfits := (@clear_saved_iff db db₁ today today' inv cc hinv hcc hV hdb₁ hci).mp ⟨_, h⟩
  rw [hvalue] at hfits
  exact ⟨(refundedValue_eq_iff hcust hnone hV (hmin.1 cc hcc)).mp hvalue, hrows,
    (seriesFits_refunds_iff hdb₁ hcust hnone hres).mp hfits⟩

end Saved

/-- **When a saved run is restored**: exactly where the roll-back is exact. -/
theorem restores_iff (hinv : db.invoices.get? inv.id = some inv)
    (hsel : (init db inv.customer invoice).invoice = some inv.id)
    (hcc : db.customerCredit? inv.customer = some cc) (hnone : inv.compensations = [])
    (hsave : (init db inv.customer invoice).save db today = .ok (db₁, mc₁)) (hitems : mc₁.compensations ≠ [])
    (hmin : SameMinimalConsumption db inv.customer today today') :
    Restores db db₁ mc₁ today' ↔ RollbackExact db today inv cc := by
  obtain ⟨hdb₁, hmc₁⟩ := save_init_fields hinv hsel hcc hsave
  have hcalc := calculate_init today hinv hsel hcc
  have hV : cc.value ≠ 0 := by
    intro h0
    rw [if_pos h0] at hcalc
    rw [hmc₁, hcalc] at hitems
    exact hitems rfl
  rw [if_neg hV] at hcalc
  rw [hcalc] at hmc₁
  have hclear : ∀ t, mc₁.clearCompensations db₁ t =
      (init db₁ inv.customer (some inv.id)).clearCompensations db₁ t := by
    intro t
    rw [clear_of_calculated (show mc₁.calculated = true by rw [hmc₁]; rfl), hmc₁]
    show (init db₁ inv.customer (init db inv.customer invoice).invoice).clearCompensations db₁ t = _
    rw [hsel]
  have hcomp : mc₁.compensations = (compensate db inv cc).compensations := by
    rw [hmc₁]
    rfl
  rw [hcomp] at hitems
  constructor
  · rintro ⟨db₂, mc₂, h, hbal, -⟩
    rw [hclear] at h
    exact exact_of_clear hinv hcc hnone hV hdb₁ hitems hmin h hbal
  · intro hexact
    obtain ⟨db₂, h, hdb₂⟩ := clear_of_exact hinv hcc hnone hV hdb₁ hitems hmin hexact
    have hinv₂ : db₂.invoices.get? inv.id = some inv := by rwa [hdb₂.invoices]
    have hcc₂ : db₂.customerCredit? inv.customer = some cc := (hdb₂.customerCredit? _).trans hcc
    have hsaved : ∃ r, (init db₂ inv.customer (some inv.id)).save db₂ today' = .ok r := by
      rw [save_init_iff hinv₂ rfl hcc₂, savedCredits_congr hdb₂.toSameCredits hmin.2,
        Db.SeriesFits.congr hdb₂.projectCredits]
      exact (save_init_iff hinv hsel hcc).mp ⟨_, hsave⟩
    obtain ⟨⟨db₃, mc₃⟩, hsave₃⟩ := hsaved
    obtain ⟨hdb₃, hmc₃⟩ := save_init_fields hinv₂ rfl hcc₂ hsave₃
    refine ⟨db₂, _, (hclear today').trans h, hdb₂.balance, ⟨inv, hinv₂, hnone⟩, db₃, mc₃, ?_, ?_, ?_⟩
    · exact bind_eq_ok.mpr ⟨(db₂, _), (hclear today').trans h, hsave₃⟩
    · have hcredits : (db.settled today inv cc).SameCredits (db₂.settled today' inv cc) :=
        settled_congr hdb₂.toSameCredits (hmin.1 cc hcc) hmin.2
      have h₃₁ : db₁.SameCredits db₃ :=
        ⟨hdb₃.customerCredits.trans (hcredits.customerCredits.trans hdb₁.customerCredits.symm),
          hdb₃.projectCredits.trans (hcredits.projectCredits.trans hdb₁.projectCredits.symm)⟩
      exact h₃₁.balance
    · have hcalc₂ : (init db₂ inv.customer (some inv.id)).calculateCurrentCompensations db₂ today' = _ :=
        calculate_init today' hinv₂ rfl hcc₂
      rw [if_neg hV] at hcalc₂
      rw [hmc₃, hcalc₂, hmc₁]
      exact (compensate_congr hdb₂.toSameCredits).amounts

/-- A clearing object has a credit to clear, or nothing changes. -/
theorem clear_of_no_credit (hcc : db.customerCredit? inv.customer = none) :
    (init db inv.customer invoice).clearCompensations db today = .ok (db, init db inv.customer invoice) := by
  have hcalc : (init db inv.customer invoice).calculated = false := rfl
  have hcredit : (init db inv.customer invoice).credit = none := by
    unfold init
    rw [hcc]
    rfl
  unfold clearCompensations
  simp only [hcalc, Bool.false_eq_true, if_false, hcredit]

end

/-- A run that creates compensations, from what it computes. -/
theorem saved_of_eval {db : Db} {mc : MonthlyCompensation} {today : Date} {n : ℕ}
    (h : (mc.save db today).toOption.map (fun r => r.2.compensations.length) = some (n + 1)) :
    ∃ db₁ mc₁, mc.save db today = .ok (db₁, mc₁) ∧ mc₁.compensations ≠ [] := by
  cases hs : mc.save db today with
  | error e =>
    rw [hs] at h
    cases h
  | ok r =>
    rw [hs] at h
    have hlen : r.2.compensations.length = n + 1 := Option.some.inj h
    refine ⟨r.1, r.2, rfl, fun hnil => ?_⟩
    rw [hnil] at hlen
    cases hlen

/-- An item of 200 against a credit of 100, taxed. -/
def taxedInvoice : Invoice := sampleInvoice 1 10 ten_nonneg [(10, 200)]

def taxedDb : Db := sampleDb { customer := 1, value := 100 } [] noAllocations taxedInvoice

/-- The item of 200 against a credit of 300, 250 of it allocated to the project. -/
def coveredDb : Db :=
  sampleDb { customer := 1, value := 300 } [{ project := ⟨10, 1⟩, value := 250 }] (by simp) taxedInvoice

end Waldur.Invoices
