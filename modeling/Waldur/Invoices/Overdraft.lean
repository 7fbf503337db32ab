import Mathlib
import Waldur.Invoices.CompensationRun

/-!
# Invoices.Overdraft — what a compensation run leaves of the credits

The loop stops once the organization credit is zero, and a pool item takes no more than what is left of
it.  A project item takes what its own allocation allows, without a look at the organization credit, so
the credit can fall below zero.  `PoolSuffices` is the exact condition under which it does not.
-/

namespace Waldur.Invoices

open Calendar Relational Waterfall MonthlyCompensation

section

variable (db : Db) (inv : Invoice) (cc : CustomerCredit)

/-- **Where the pool suffices**: no project item that is reached before the credit is used up takes more
than the credit has left. -/
def PoolSuffices : Prop :=
  ∀ before item after, sortedItems inv cc = before ++ item :: after →
    demandOn db inv cc before < cc.value → pocket (loadProjectsCredits db inv) item ≠ none →
    demandOn db inv cc (before ++ [item]) ≤ cc.value

/-- What a run may do to the credits: nothing falls below zero, an item is compensated by at most its net
cost, the items of a project by at most its credit, and all of them by at most the organization credit. -/
structure WithinCredit (mc : MonthlyCompensation) : Prop where
  credit : ∀ c, mc.credit = some c → 0 ≤ c.obj.value
  project : ∀ pc ∈ mc.projectsCredits.rows, 0 ≤ pc.obj.value
  item : ∀ c ∈ mc.compensations, ∃ it ∈ chargeableItems inv cc none,
    c.details.compensationOfItem = some it.uuid ∧ c.resource = it.resource ∧ 0 < c.unitPrice * -1 ∧
      c.unitPrice * -1 ≤ max 0 (it.price + discountByItem inv cc none it.uuid)
  project_total : ∀ pc ∈ db.projectCredits.rows, pc.project.customer = inv.customer →
    totalProjectCompensation mc.compensations pc.project ≤ pc.value
  total : (mc.compensations.map (fun c => c.unitPrice * -1)).sum ≤ cc.value

end

theorem drawTail_nonneg {value : ℚ} (h : 0 ≤ value) (m total : ℚ) : 0 ≤ (drawTail value m total).2 := by
  unfold drawTail
  by_cases hm : m ≠ 0 ∧ total < m
  · rw [if_pos hm]
    by_cases hlt : value - (m - total) < 0
    · simp only [if_pos hlt, le_refl]
    · simp only [if_neg hlt]
      exact not_lt.mp hlt
  · rw [if_neg hm]
    exact h

section

variable {db : Db} {inv : Invoice} {cc : CustomerCredit}

theorem poolSuffices_iff : PoolSuffices db inv cc ↔
    ¬ Overdraws (pocket (loadProjectsCredits db inv)) (runContext db inv cc).cost
      (allocation (loadProjectsCredits db inv)) cc.value [] (sortedItems inv cc) := by
  constructor
  · rintro h ⟨before, item, after, hs, hlt, hpocket, hV⟩
    exact absurd (h before item after hs hlt hpocket) (not_le.mpr hV)
  · intro h before item after hs hlt hpocket
    exact not_lt.mp fun hV => h ⟨before, item, after, hs, hlt, hpocket, hV⟩

/-- The calculation draws on the credit of the customer, unless it is zero. -/
theorem calculate_init (today : Date) {invoice : Option ℕ} (hinv : db.invoices.get? inv.id = some inv)
    (hsel : (init db inv.customer invoice).invoice = some inv.id)
    (hcc : db.customerCredit? inv.customer = some cc) :
    (init db inv.customer invoice).calculateCurrentCompensations db today =
      if cc.value = 0 then init db inv.customer invoice
      else (init db inv.customer invoice).calculateOn db today cc.load inv := by
  have hcredit : (init db inv.customer invoice).credit = some cc.load := by
    unfold init
    rw [hcc]
    rfl
  have hget : (init db inv.customer invoice).getInvoice db = some inv := by
    unfold getInvoice
    rw [hsel]
    exact hinv
  unfold calculateCurrentCompensations
  rw [hcredit, hget]
  rfl

/-- A project without a resource on the invoice gets no compensation. -/
theorem totalProjectCompensation_of_not_mem {p : Project} (hp : p ∉ inv.itemsProjects) :
    totalProjectCompensation (compensate db inv cc).compensations p = 0 := by
  have hnil : (compensate db inv cc).compensations.filter
      (fun c => c.resource.any (fun r => r.project == p)) = [] := by
    refine List.filter_eq_nil_iff.mpr fun c hc hany => hp ?_
    obtain ⟨it, hit, amount, -, hcomp⟩ := runAfter_compensate.item c hc
    have hres : c.resource = it.resource := by rw [hcomp]; rfl
    obtain ⟨hmem, r, hr, -⟩ := mem_chargeableItems (mem_servedItems hit)
    rw [hres, hr] at hany
    have hrp : r.project = p := by simpa using hany
    exact List.mem_filterMap.mpr ⟨it, hmem, by rw [hr, Option.map_some, hrp]⟩
  unfold totalProjectCompensation
  rw [hnil]
  rfl

/-- The compensations of a project are what it draws from its credit. -/
theorem totalProjectCompensation_le {pc : ProjectCredit} (hpc : db.projectCredit? pc.project = some pc)
    (hcap : ∀ p, 0 ≤ allocation (loadProjectsCredits db inv) p) (hv : 0 ≤ pc.value) :
    totalProjectCompensation (compensate db inv cc).compensations pc.project ≤ pc.value := by
  by_cases hmem : pc.project ∈ inv.itemsProjects
  · have hget : (loadProjectsCredits db inv).get? pc.project = some pc.load := by
      rw [get?_loadProjectsCredits, if_pos hmem, hpc]
      rfl
    rw [runAfter_compensate.project_total pc.project (by rw [hget]; rfl)]
    exact (drawn_le hcap _ _).trans_eq (allocation_eq hget)
  · rw [totalProjectCompensation_of_not_mem hmem]
    exact hv

/-- The run stays within the credit exactly if the loop does not overdraw the pool. -/
theorem withinCredit_calculateOn_iff (mc : MonthlyCompensation) (today : Date)
    (hpc : ∀ pc ∈ db.projectCredits.rows, pc.project.customer = inv.customer → 0 ≤ pc.value) :
    WithinCredit db inv cc (mc.calculateOn db today cc.load inv) ↔
      ¬ Overdrawn (pocket (loadProjectsCredits db inv)) (runContext db inv cc).cost
        (allocation (loadProjectsCredits db inv)) cc.value (servedItems db inv cc) := by
  have hrun := @runAfter_compensate db inv cc
  have hcap := allocation_loadProjectsCredits_nonneg hpc
  constructor
  · intro h ho
    unfold Overdrawn at ho
    split at ho
    · next hx =>
      obtain ⟨c, hc, hneg⟩ := hrun.negative hx ho
      obtain ⟨it, -, -, -, hpos, -⟩ := h.item c hc
      exact absurd hpos hneg.not_gt
    · next hx =>
      have htotal := h.total
      have hpaid : ((compensate db inv cc).compensations.map (fun c => c.unitPrice * -1)).sum = _ := hrun.total
      rw [RunContext.paid, if_neg hx] at hpaid
      have hle := hpaid.symm.trans_le htotal
      exact absurd hle (not_le.mpr ho)
  · intro ho
    have hpos := hrun.positive hcap ho
    have hcredit : 0 ≤ (compensate db inv cc).creditValue := by
      rw [hrun.credit, balance]
      split
      · exact le_refl 0
      · next hx =>
        rw [Overdrawn, if_neg hx, not_lt] at ho
        exact sub_nonneg.mpr ho
    refine ⟨fun c hc => ?_, fun pc hmem => ?_, fun c hc => ?_, fun pc hrow hcust => ?_, ?_⟩
    · obtain rfl := Option.some.inj hc
      exact drawTail_nonneg hcredit _ _
    · obtain ⟨pc', hpc', rfl⟩ := List.mem_map.mp hmem
      refine drawTail_nonneg ?_ _ _
      have hpc'' : pc' ∈ (compensate db inv cc).projectsCredits.rows := hpc'
      rw [hrun.projects] at hpc''
      obtain ⟨r, hr, rfl⟩ := List.mem_map.mp hpc''
      have hr' : (loadProjectsCredits db inv).get? r.obj.project = some r := Table.get?_eq_some.mpr ⟨hr, rfl⟩
      refine sub_nonneg.mpr ?_
      rw [← allocation_eq hr']
      exact drawn_le hcap _ _
    · obtain ⟨it, hit, amount, hle, hcomp⟩ := hrun.item c hc
      have hamount : c.unitPrice * -1 = amount := by
        rw [hcomp]
        show amount * -1 * -1 = amount
        ring
      refine ⟨it, mem_servedItems hit, by rw [hcomp]; rfl, by rw [hcomp]; rfl, hpos c hc, ?_⟩
      rw [hamount]
      exact hle.trans_eq ((runContext db inv cc).cost_eq it)
    · exact totalProjectCompensation_le (Table.get?_eq_some.mpr ⟨hrow, rfl⟩) hcap (hpc pc hrow hcust)
    · -- an exhausted pool pays at most what it had
      show ((compensate db inv cc).compensations.map (fun c => c.unitPrice * -1)).sum ≤ cc.value
      rw [hrun.total, RunContext.paid]
      unfold Overdrawn at ho
      split
      · next hx =>
        rw [if_pos hx, not_lt] at ho
        have hle := div_le_self (sub_nonneg.mpr ho)
          (show 1 ≤ 1 + (runContext db inv cc).taxPercent / 100 by
            have htax : 0 ≤ (runContext db inv cc).taxPercent := inv.tax_nonneg
            linarith)
        linarith
      · next hx =>
        rw [if_neg hx, not_lt] at ho
        exact ho

theorem withinCredit_init (hV : 0 ≤ cc.value) {invoice : Option ℕ}
    (hcc : db.customerCredit? inv.customer = some cc)
    (hpc : ∀ pc ∈ db.projectCredits.rows, pc.project.customer = inv.customer → 0 ≤ pc.value) :
    WithinCredit db inv cc (init db inv.customer invoice) where
  credit := fun c hc => by
    unfold init at hc
    rw [hcc] at hc
    obtain rfl := Option.some.inj hc
    exact hV
  project := fun pc hmem => absurd hmem List.not_mem_nil
  item := fun c hc => absurd hc List.not_mem_nil
  project_total := fun pc hrow hcust => hpc pc hrow hcust
  total := hV

theorem overdrawn_servedItems_iff (hV : 0 < cc.value)
    (hpc : ∀ pc ∈ db.projectCredits.rows, pc.project.customer = inv.customer → 0 ≤ pc.value) :
    ¬ Overdrawn (pocket (loadProjectsCredits db inv)) (runContext db inv cc).cost
        (allocation (loadProjectsCredits db inv)) cc.value (servedItems db inv cc) ↔
      PoolSuffices db inv cc := by
  have hcap := allocation_loadProjectsCredits_nonneg hpc
  rw [poolSuffices_iff]
  refine not_congr (overdrawn_iff hcap _ _ (fun it _ => (runContext db inv cc).cost_nonneg it) ?_)
  rwa [demand_nil]

theorem poolSuffices_of_zero (h0 : cc.value = 0)
    (hpc : ∀ pc ∈ db.projectCredits.rows, pc.project.customer = inv.customer → 0 ≤ pc.value) :
    PoolSuffices db inv cc := by
  intro before item after _ hlt
  have hcap := allocation_loadProjectsCredits_nonneg hpc
  have hnn : 0 ≤ demandOn db inv cc before :=
    demand_nonneg hcap (fun it _ => (runContext db inv cc).cost_nonneg it)
  rw [h0] at hlt
  exact absurd hlt (not_lt.mpr hnn)

theorem withinCredit_iff (today : Date) {invoice : Option ℕ} (hinv : db.invoices.get? inv.id = some inv)
    (hsel : (init db inv.customer invoice).invoice = some inv.id)
    (hcc : db.customerCredit? inv.customer = some cc) (hV : 0 ≤ cc.value)
    (hpc : ∀ pc ∈ db.projectCredits.rows, pc.project.customer = inv.customer → 0 ≤ pc.value) :
    WithinCredit db inv cc ((init db inv.customer invoice).calculateCurrentCompensations db today) ↔
      PoolSuffices db inv cc := by
  rw [calculate_init today hinv hsel hcc]
  by_cases h0 : cc.value = 0
  · rw [if_pos h0]
    exact ⟨fun _ => poolSuffices_of_zero h0 hpc, fun _ => withinCredit_init hV hcc hpc⟩
  · rw [if_neg h0, withinCredit_calculateOn_iff _ today hpc]
    exact overdrawn_servedItems_iff (lt_of_le_of_ne hV (Ne.symm h0)) hpc

end

/-- **A compensation run stays within the credit** exactly where the pool suffices. -/
theorem calculate_withinCredit_iff (db : Db) (today : Date) (inv : Invoice) (cc : CustomerCredit)
    (invoice : Option ℕ) (hinv : db.invoices.get? inv.id = some inv)
    (hsel : (init db inv.customer invoice).invoice = some inv.id)
    (hcc : db.customerCredit? inv.customer = some cc) (hV : 0 ≤ cc.value)
    (hpc : ∀ pc ∈ db.projectCredits.rows, pc.project.customer = inv.customer → 0 ≤ pc.value) :
    WithinCredit db inv cc ((init db inv.customer invoice).calculateCurrentCompensations db today) ↔
      PoolSuffices db inv cc :=
  withinCredit_iff today hinv hsel hcc hV hpc

/-- One item of 50 in project 10. -/
def oneProjectItem : Invoice := sampleInvoice 1 0 Invoice.untaxed [(10, 50)]

/-- An organization credit below the allocation of project 10. -/
def overAllocated (value : ℚ) : Db :=
  sampleDb { customer := 1, value := value } [{ project := ⟨10, 1⟩, value := 100 }] (by simp) oneProjectItem

theorem overAllocated_credit (value : ℚ) :
    (overAllocated value).customerCredit? 1 = some { customer := 1, value := value } :=
  Table.get?_eq_some.mpr ⟨List.mem_cons_self, rfl⟩

theorem overAllocated_nonneg (value : ℚ) : ∀ pc ∈ (overAllocated value).projectCredits.rows,
    pc.project.customer = oneProjectItem.customer → 0 ≤ pc.value := by
  intro pc hpc _
  rw [List.mem_singleton.mp hpc]
  norm_num

/-- The project item of 50 draws an organization credit of 10 down to -40. -/
theorem project_item_overdraws : ¬ WithinCredit (overAllocated 10) oneProjectItem { customer := 1, value := 10 }
    ((init (overAllocated 10) oneProjectItem.customer none).calculateCurrentCompensations
      (overAllocated 10) midJune) := by
  intro h
  have hpool := (withinCredit_iff midJune (by rfl) (by decide +kernel) (overAllocated_credit 10) (by norm_num)
    (overAllocated_nonneg 10)).mp h
  have hle := hpool [] (sampleItem 0 10 50) [] (by decide +kernel) (by decide +kernel) (by decide +kernel)
  revert hle
  decide +kernel

/-- With a credit of 60 the same item leaves 10. -/
theorem project_item_fits : WithinCredit (overAllocated 60) oneProjectItem { customer := 1, value := 60 }
    ((init (overAllocated 60) oneProjectItem.customer none).calculateCurrentCompensations
      (overAllocated 60) midJune) := by
  refine (calculate_withinCredit_iff (overAllocated 60) midJune oneProjectItem
    { customer := 1, value := 60 } none (by rfl) (by decide +kernel) (overAllocated_credit 60) (by norm_num)
    (overAllocated_nonneg 60)).mpr ?_
  intro before item after hs _ _
  have hone : sortedItems oneProjectItem { customer := 1, value := 60 } = [sampleItem 0 10 50] := by
    decide +kernel
  rw [hone] at hs
  obtain ⟨rfl, hs⟩ | ⟨before, rfl, hs⟩ := List.cons_eq_append_iff.mp hs
  · obtain ⟨rfl, -⟩ := List.cons_eq_cons.mp hs
    decide +kernel
  · simp at hs

end Waldur.Invoices
