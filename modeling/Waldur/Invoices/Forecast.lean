import Mathlib
import Waldur.Invoices.Settlement
import Waldur.Marketplace.BillingDiscount

/-!
# Invoices.Forecast — what the open month will draw

`creditable_cost` is a sum over the items of an invoice, the compensation run a loop over balances.  Where every balance
exceeds what the items cost it, the loop compensates each item in full (`compensateItems_covered`), and the two agree on
the invoice as the billing code keeps it (`forecast_exact`).
-/

namespace Waldur.Invoices

open Calendar Relational Marketplace MonthlyCompensation

/-- `creditable_cost`. -/
def creditableCost (inv : Invoice) (credit : CustomerCredit) (project : Option Project) : ℚ :=
  let (chargeableItems, discountByItem) := creditableItems inv credit project
  (chargeableItems.map fun item => max (item.price + discountByItem item.uuid) 0).sum

/-! ## The loop where every balance exceeds the costs -/

section Covered

variable {ctx : RunContext} {run : Run} {item : InvoiceItem} {items : List InvoiceItem}

/-- What the items of a list cost together. -/
def RunContext.costs (ctx : RunContext) (items : List InvoiceItem) : ℚ := (items.map ctx.cost).sum

/-- The items of a project. -/
def ofProject (p : Project) (items : List InvoiceItem) : List InvoiceItem := items.filter fun it => it.project == some p

/-- Every balance exceeds what the items cost it. -/
structure Covered (ctx : RunContext) (run : Run) (items : List InvoiceItem) : Prop where
  customer : ctx.costs items < run.creditValue
  projects : ∀ p pc, run.projectsCredits.get? p = some pc → ofProject p items ≠ [] →
    ctx.costs (ofProject p items) < pc.obj.value

theorem RunContext.costs_nonneg (ctx : RunContext) (items : List InvoiceItem) : 0 ≤ ctx.costs items := by
  refine List.sum_nonneg fun x hx => ?_
  obtain ⟨it, -, rfl⟩ := List.mem_map.mp hx
  exact ctx.cost_nonneg it

theorem RunContext.costs_cons (ctx : RunContext) : ctx.costs (item :: items) = ctx.cost item + ctx.costs items := rfl

theorem ofProject_cons_self {p : Project} (h : item.project = some p) :
    ofProject p (item :: items) = item :: ofProject p items :=
  List.filter_cons_of_pos (beq_iff_eq.mpr h)

theorem ofProject_cons_ne {p : Project} (h : item.project ≠ some p) : ofProject p (item :: items) = ofProject p items :=
  List.filter_cons_of_neg fun heq => h (beq_iff_eq.mp heq)

/-- A covered item draws its cost, and the rest of the items stay covered. -/
theorem draw_covered (h : Covered ctx run (item :: items)) : Covered ctx (ctx.draw run item).1 items ∧
    (ctx.draw run item).1.compensations = run.compensations ∧ (ctx.draw run item).2 = ctx.cost item := by
  have hcustomer := h.customer
  have hrest := ctx.costs_nonneg items
  rw [ctx.costs_cons] at hcustomer
  cases hcredit : item.project.bind run.projectsCredits.get? with
  | none =>
    rw [draw_pool_of_lt ctx hcredit (by linarith)]
    refine ⟨⟨?_, fun p pc hpc hne => ?_⟩, rfl, rfl⟩
    · show ctx.costs items < run.creditValue - ctx.cost item
      linarith
    · have hproject : item.project ≠ some p := by
        intro heq
        rw [heq, Option.bind_some] at hcredit
        rw [show (run.projectsCredits.get? p) = some pc from hpc] at hcredit
        cases hcredit
      have hcovered := h.projects p pc hpc
      rw [ofProject_cons_ne hproject] at hcovered
      exact hcovered hne
  | some pc =>
    obtain ⟨p, hp, hpc⟩ := Option.bind_eq_some_iff.mp hcredit
    have hkey : pc.obj.project = p := (Table.get?_eq_some.mp hpc).2
    have hcovered := h.projects p pc hpc
    rw [ofProject_cons_self hp] at hcovered
    have hlt := hcovered (List.cons_ne_nil _ _)
    rw [ctx.costs_cons] at hlt
    have hproject := ctx.costs_nonneg (ofProject p items)
    rw [draw_pocket ctx hcredit, min_eq_right (by linarith)]
    refine ⟨⟨?_, fun p' pc' hpc' hne => ?_⟩, rfl, rfl⟩
    · show ctx.costs items < run.creditValue - ctx.cost item
      linarith
    · have hkeys : ∀ x : Loaded ProjectCredit, (x.setValue (pc.obj.value - ctx.cost item)).obj.project = x.obj.project :=
        fun x => Loaded.setValue_project _ x
      have hpc'' : (run.projectsCredits.update pc.obj.project (Loaded.setValue (pc.obj.value - ctx.cost item)) hkeys).get? p' =
          some pc' := hpc'
      by_cases hsame : p' = p
      · subst hsame
        rw [hkey, Table.get?_update_self, hpc, Option.map_some] at hpc''
        obtain rfl := Option.some.inj hpc''
        rw [Loaded.setValue_value]
        linarith
      · rw [hkey, Table.get?_update_ne _ _ _ hsame] at hpc''
        have hother := h.projects p' pc' hpc''
        rw [ofProject_cons_ne fun heq => hsame (Option.some.inj (heq.symm.trans hp))] at hother
        exact hother hne

/-- What the compensations give back of the items that a condition on their resource selects. -/
def compensated (q : Option Resource → Bool) (compensations : List InvoiceItem) : ℚ :=
  ((compensations.filter fun c => q c.resource).map fun c => c.unitPrice * -1).sum

theorem compensated_append (q : Option Resource → Bool) (l l' : List InvoiceItem) :
    compensated q (l ++ l') = compensated q l + compensated q l' := by
  unfold compensated
  rw [List.filter_append, List.map_append, List.sum_append]

theorem compensateItem_covered (h : Covered ctx run (item :: items)) (q : Option Resource → Bool) :
    Covered ctx (ctx.compensateItem run item) items ∧ compensated q (ctx.compensateItem run item).compensations =
      compensated q run.compensations + if q item.resource then ctx.cost item else 0 := by
  obtain ⟨hcovered, hcompensations, hamount⟩ := draw_covered h
  unfold RunContext.compensateItem
  simp only [hamount]
  by_cases hzero : ctx.cost item = 0
  · rw [if_pos hzero, hcompensations, hzero, ite_self, add_zero]
    exact ⟨hcovered, rfl⟩
  · rw [if_neg hzero]
    refine ⟨⟨hcovered.customer, hcovered.projects⟩, ?_⟩
    simp only [hcompensations]
    rw [compensated_append]
    refine congrArg _ ?_
    unfold compensated
    by_cases hq : q item.resource = true
    · rw [if_pos hq, List.filter_cons_of_pos (by exact hq)]
      simp [compensationItem]
    · rw [if_neg hq, List.filter_cons_of_neg (by exact hq)]
      rfl

/-- **Where every balance exceeds the costs**, each item is compensated in full. -/
theorem compensateItems_covered (h : Covered ctx run items) (q : Option Resource → Bool) :
    compensated q (ctx.compensateItems run items).compensations =
      compensated q run.compensations + ctx.costs (items.filter fun it => q it.resource) := by
  induction items generalizing run with
  | nil => exact (add_zero _).symm
  | cons item items ih =>
    obtain ⟨hcovered, hitem⟩ := compensateItem_covered h q
    have hne : (ctx.compensateItem run item).creditValue ≠ 0 :=
      ((ctx.costs_nonneg items).trans_lt hcovered.customer).ne'
    unfold RunContext.compensateItems
    simp only [if_neg hne]
    rw [ih hcovered, hitem]
    by_cases hq : q item.resource = true
    · rw [if_pos hq, List.filter_cons_of_pos (by exact hq), ctx.costs_cons, add_assoc]
    · rw [if_neg hq, List.filter_cons_of_neg (by exact hq), add_zero]

end Covered

/-! ## Invoices as the billing code keeps them -/

section Billed

variable {db : Db} {inv : Invoice} {credit : CustomerCredit} {it : InvoiceItem} {p : Project} {project : Option Project}

/-- **What billing leaves on an invoice**: a volume discount is on the resource of the item that it discounts, and what is
drawn on a credit is marked as a compensation. -/
structure Invoice.Billed (inv : Invoice) : Prop where
  discounts : ∀ line ∈ inv.items, line.details.isDiscount = true → ∀ it ∈ inv.items, it.details.isCompensation = false →
    it.details.isDiscount = false → line.details.discountOfItem = some it.uuid → line.resource = it.resource
  compensations : ∀ it ∈ inv.items, it.credit.isSome = true → it.details.isCompensation = true

/-- The discount pass leaves its lines on the resources of the items. -/
theorem billed_discountInvoice {planComponents : ℕ → Option PlanComponent} {n : ℕ} (h : inv.Billed)
    (huuids : (inv.items.map (·.uuid)).Nodup) : (discountInvoice planComponents n inv).Billed := by
  have hkept : ∀ it ∈ inv.items.filter (fun it => !it.details.isDiscount), it ∈ inv.items ∧ it.details.isDiscount = false :=
    fun it hit => ⟨List.mem_of_mem_filter hit, by simpa using (List.mem_filter.mp hit).2⟩
  constructor
  · intro line hline hdiscount it hit hcompensation hnot htarget
    rw [discountInvoice_items] at hline hit
    have hit' : it ∈ inv.items := by
      rcases List.mem_append.mp hit with hit | hit
      · exact (hkept it hit).1
      · rw [discountLines_isDiscount hit] at hnot
        cases hnot
    rcases List.mem_append.mp hline with hline | hline
    · rw [(hkept line hline).2] at hdiscount
      cases hdiscount
    · obtain ⟨x, hx, rfl⟩ := List.mem_map.mp hline
      have hmain := (hkept _ ((onePerItem_passLines _).1 x.1 (List.fst_mem_of_mem_zipIdx hx))).1
      have huuid : x.1.1.uuid = it.uuid := Option.some.inj htarget
      rw [List.inj_on_of_nodup_map huuids hmain hit' huuid]
      rfl
  · intro it hit hsome
    rw [discountInvoice_items] at hit
    rcases List.mem_append.mp hit with hit | hit
    · exact h.compensations it (hkept it hit).1 hsome
    · obtain ⟨x, -, rfl⟩ := List.mem_map.mp hit
      cases hsome

/-- The compensations of a run are marked. -/
theorem billed_bulkCreate (h : inv.Billed) {other : Invoice} (cc : CustomerCredit) :
    (inv.bulkCreate (compensate db other cc).compensations).Billed := by
  have hnew : ∀ c ∈ (compensate db other cc).compensations, c.details.isCompensation = true ∧ c.details.isDiscount = false := by
    intro c hc
    obtain ⟨it, hit, amount, -, hitem⟩ := runAfter_compensate.item c hc
    have hcharge := (List.mem_filter.mp (mem_servedItems hit)).2
    rw [hitem]
    exact ⟨rfl, Bool.eq_false_iff.mpr fun heq => by simp [compensationItem] at heq; simp [heq] at hcharge⟩
  unfold Invoice.bulkCreate
  split_ifs with hattributed
  · constructor
    · intro line hline hdiscount it hit hcompensation
      rcases List.mem_append.mp hline with hline | hline
      · rcases List.mem_append.mp hit with hit | hit
        · exact h.discounts line hline hdiscount it hit hcompensation
        · rw [(hnew it hit).1] at hcompensation
          cases hcompensation
      · rw [(hnew line hline).2] at hdiscount
        cases hdiscount
    · intro it hit hsome
      rcases List.mem_append.mp hit with hit | hit
      · exact h.compensations it hit hsome
      · exact (hnew it hit).1
  · exact h

theorem billed_deleteItems (h : inv.Billed) (q : InvoiceItem → Bool) : (inv.deleteItems q).Billed :=
  ⟨fun line hline hdiscount it hit => h.discounts line (List.mem_of_mem_filter hline) hdiscount it (List.mem_of_mem_filter hit),
    fun it hit => h.compensations it (List.mem_of_mem_filter hit)⟩

/-- What is cleared is not creditable. -/
theorem creditableCost_deleteItems (h : inv.Billed) {customer : ℕ} :
    creditableCost (inv.deleteItems fun it => it.credit == some customer) credit project = creditableCost inv credit project := by
  have hcleared : ∀ it ∈ inv.items, it.details.isCompensation = false → (!(it.credit == some customer)) = true := by
    intro it hit hcompensation
    have hother : (it.credit == some customer) = false := by
      refine Bool.eq_false_iff.mpr fun hcredit => ?_
      rw [h.compensations it hit (by rw [beq_iff_eq.mp hcredit]; rfl)] at hcompensation
      cases hcompensation
    rw [hother]
    rfl
  have hquery : ∀ q : InvoiceItem → Bool, (∀ it, q it = true → it.details.isCompensation = false) →
      (creditableQuery (inv.deleteItems fun it => it.credit == some customer) credit project).filter q =
        (creditableQuery inv credit project).filter q := by
    intro q hq
    unfold creditableQuery Invoice.deleteItems
    simp only [List.filter_filter]
    refine List.filter_congr fun it hit => ?_
    cases hqit : q it with
    | false => rfl
    | true =>
      rw [hcleared it hit (hq it hqit), Bool.and_true]
  have hchargeable : chargeableItems (inv.deleteItems fun it => it.credit == some customer) credit project =
      chargeableItems inv credit project :=
    hquery _ fun it hit => by simpa using (Bool.and_eq_true_iff.mp hit).1
  have hdiscount : discountByItem (inv.deleteItems fun it => it.credit == some customer) credit project =
      discountByItem inv credit project := by
    funext target
    unfold discountByItem
    rw [hquery _ fun it hit => by simpa using (Bool.and_eq_true_iff.mp (Bool.and_eq_true_iff.mp hit).1).1]
  unfold creditableCost creditableItems
  rw [hchargeable, hdiscount]

/-- An item is of a project. -/
def onProject (p : Project) (resource : Option Resource) : Bool := resource.any fun r => r.project == p

theorem creditableQuery_project : creditableQuery inv credit (some p) =
    (creditableQuery inv credit none).filter fun it => onProject p it.resource := by
  unfold creditableQuery onProject
  rw [List.filter_filter]
  refine List.filter_congr fun it _ => ?_
  cases it.resource with
  | none => rfl
  | some r => simp [Bool.and_comm]

theorem chargeableItems_project : chargeableItems inv credit (some p) =
    (chargeableItems inv credit none).filter fun it => onProject p it.resource := by
  unfold chargeableItems
  rw [creditableQuery_project, List.filter_comm]

/-- The discounts of an item are on its project. -/
theorem discountByItem_project (h : inv.Billed) (hit : it ∈ chargeableItems inv credit (some p)) :
    discountByItem inv credit (some p) it.uuid = discountByItem inv credit none it.uuid := by
  rw [chargeableItems_project] at hit
  obtain ⟨hcharge, hproject⟩ := List.mem_filter.mp hit
  obtain ⟨hquery, hplain⟩ := List.mem_filter.mp hcharge
  have hplain' : it.details.isCompensation = false ∧ it.details.isDiscount = false := by simpa using hplain
  unfold discountByItem
  rw [creditableQuery_project, List.filter_filter]
  refine congrArg (fun l => (l.map InvoiceItem.price).sum) (List.filter_congr fun line hline => ?_)
  have hsame : (!line.details.isCompensation && line.details.isDiscount && line.details.discountOfItem == some it.uuid) = true →
      onProject p line.resource = true := by
    intro hdiscount
    obtain ⟨hboth, htarget⟩ := Bool.and_eq_true_iff.mp hdiscount
    obtain ⟨-, hmarked⟩ := Bool.and_eq_true_iff.mp hboth
    rw [h.discounts line (List.mem_of_mem_filter hline) hmarked it (List.mem_of_mem_filter hquery) hplain'.1 hplain'.2
      (beq_iff_eq.mp htarget)]
    exact hproject
  cases hdiscount : (!line.details.isCompensation && line.details.isDiscount &&
    line.details.discountOfItem == some it.uuid) with
  | false => rfl
  | true => rw [hsame hdiscount]; rfl

/-- The cost of the items that the run goes through. -/
theorem costs_chargeableItems : (runContext db inv credit).costs (chargeableItems inv credit none) =
    creditableCost inv credit none := by
  unfold RunContext.costs creditableCost
  refine congrArg List.sum (List.map_congr_left fun it _ => ?_)
  rw [RunContext.cost_eq, max_comm]
  rfl

theorem costs_project (h : inv.Billed) : (runContext db inv credit).costs
    ((chargeableItems inv credit none).filter fun it => onProject p it.resource) = creditableCost inv credit (some p) := by
  rw [← chargeableItems_project]
  unfold RunContext.costs creditableCost
  refine congrArg List.sum (List.map_congr_left fun it hit => ?_)
  show (runContext db inv credit).cost it = max (it.price + discountByItem inv credit (some p) it.uuid) 0
  rw [RunContext.cost_eq, max_comm, discountByItem_project h hit]
  rfl

end Billed

/-! ## The forecast -/

section Forecast

variable {db : Db} {inv : Invoice} {credit : CustomerCredit}

/-- Every balance strictly exceeds the costs that are drawn on it. -/
structure Exceeds (db : Db) (inv : Invoice) (credit : CustomerCredit) : Prop where
  customer : (runContext db inv credit).costs (chargeableItems inv credit none) < credit.value
  projects : ∀ pc ∈ db.projectCredits.rows, ofProject pc.project (chargeableItems inv credit none) ≠ [] →
    (runContext db inv credit).costs (ofProject pc.project (chargeableItems inv credit none)) < pc.value

theorem costs_perm {ctx : RunContext} {items items' : List InvoiceItem} (h : items.Perm items') :
    ctx.costs items = ctx.costs items' := (h.map ctx.cost).sum_eq

theorem perm_sortedItems : (sortedItems inv credit).Perm (chargeableItems inv credit none) := List.perm_insertionSort _ _

/-- The balances of a run exceed the costs of its items. -/
theorem covered_compensate (h : Exceeds db inv credit) : Covered (runContext db inv credit)
    { creditValue := credit.value, projectsCredits := loadProjectsCredits db inv } (sortedItems inv credit) := by
  constructor
  · rw [costs_perm perm_sortedItems]
    exact h.customer
  · intro p pc hpc hne
    have hload : (loadProjectsCredits db inv).get? p = some pc := hpc
    rw [get?_loadProjectsCredits] at hload
    split_ifs at hload with hmem
    obtain ⟨stored, hstored, rfl⟩ := Option.map_eq_some_iff.mp hload
    obtain ⟨hrow, rfl⟩ := Table.get?_eq_some.mp hstored
    have hperm : (ofProject stored.project (sortedItems inv credit)).Perm
        (ofProject stored.project (chargeableItems inv credit none)) := perm_sortedItems.filter _
    rw [costs_perm hperm]
    exact h.projects stored hrow fun hnil => hne (List.perm_nil.mp (hnil ▸ hperm))

/-- The compensations of a run on an invoice. -/
theorem compensated_compensate (h : Exceeds db inv credit) (q : Option Resource → Bool) :
    compensated q (compensate db inv credit).compensations =
      (runContext db inv credit).costs ((chargeableItems inv credit none).filter fun it => q it.resource) := by
  unfold compensate
  rw [compensateItems_covered (covered_compensate h), costs_perm (perm_sortedItems.filter _)]
  exact zero_add _

/-- **The forecast of the open month is what the run draws**, once the compensations of an earlier run are cleared, on the
whole and for the resources of each project. -/
theorem forecast_exact (db : Db) (today : Date) (inv : Invoice) (credit : CustomerCredit)
    (hinv : db.invoices.get? inv.id = some inv) (hcredit : db.customerCredit? inv.customer = some credit)
    (hbilled : inv.Billed) (hexceeds : Exceeds ((init db inv.customer (some inv.id)).deleteItems db credit)
      (inv.deleteItems fun it => it.credit == some credit.customer) credit) :
    let cleared := (init db inv.customer (some inv.id)).deleteItems db credit
    let compensations :=
      ((init cleared inv.customer (some inv.id)).calculateCurrentCompensations cleared today).compensations
    (compensations.map fun c => c.unitPrice * -1).sum = creditableCost inv credit none ∧
      ∀ p, totalProjectCompensation compensations p = creditableCost inv credit (some p) := by
  intro cleared compensations
  have hget : cleared.invoices.get? inv.id = some (inv.deleteItems fun it => it.credit == some credit.customer) := by
    refine (Table.get?_update_self db.invoices inv.id
      (fun inv => inv.deleteItems fun it => it.credit == some credit.customer) fun _ => rfl).trans ?_
    rw [hinv, Option.map_some]
  have hpositive : credit.value ≠ 0 :=
    ((RunContext.costs_nonneg _ _).trans_lt hexceeds.customer).ne'
  have hcompensations : compensations =
      (compensate cleared (inv.deleteItems fun it => it.credit == some credit.customer) credit).compensations := by
    have hfields := @calculate_init_fields cleared today (inv.deleteItems fun it => it.credit == some credit.customer) credit
      (some inv.id) hget rfl hcredit
    refine hfields.2.2.1.trans ?_
    unfold savedCompensations
    rw [if_neg hpositive]
  have hall : ∀ l : List InvoiceItem, (l.map fun c => c.unitPrice * -1).sum = compensated (fun _ => true) l := by
    intro l
    unfold compensated
    rw [List.filter_eq_self.mpr fun _ _ => rfl]
  rw [hcompensations]
  constructor
  · rw [hall, compensated_compensate hexceeds, List.filter_eq_self.mpr fun _ _ => rfl, costs_chargeableItems,
      creditableCost_deleteItems hbilled]
  · intro p
    refine (compensated_compensate hexceeds (onProject p)).trans ?_
    rw [costs_project (billed_deleteItems hbilled _), creditableCost_deleteItems hbilled]

/-- An item with its volume discount, its compensation of an earlier run, and an item of another project. -/
def forecastItems : List InvoiceItem :=
  [sampleItem 0 10 50,
    { sampleItem 0 10 (-5) with uuid := 1, details := { isDiscount := true, discountOfItem := some 0 } },
    { sampleItem 0 10 (-45) with uuid := 2, credit := some 1, details := { isCompensation := true, compensationOfItem := some 0 } },
    sampleItem 3 11 20]

theorem forecastItems_attributed : ∀ it ∈ forecastItems, it.WellAttributed 1 := by decide +kernel

def forecastInvoice : Invoice where
  id := 1
  customer := 1
  year := 2024
  month := 6
  taxPercent := 0
  items := forecastItems
  month_valid := june_valid
  tax_nonneg := Invoice.untaxed
  attributed := forecastItems_attributed

def forecastAllocations : List ProjectCredit := [{ project := ⟨10, 1⟩, value := 60 }]

theorem forecastAllocations_projects : (forecastAllocations.map (·.project)).Nodup := List.nodup_singleton _

def forecastDb : Db := sampleDb { customer := 1, value := 100 } forecastAllocations forecastAllocations_projects forecastInvoice

theorem forecastInvoice_billed : forecastInvoice.Billed := by
  constructor <;> decide +kernel

/-- The forecast of two items, of which one is discounted and was compensated before. -/
theorem forecastInvoice_exact :
    let cleared := (init forecastDb 1 (some 1)).deleteItems forecastDb { customer := 1, value := 100 }
    let compensations := ((init cleared 1 (some 1)).calculateCurrentCompensations cleared midJune).compensations
    (compensations.map fun c => c.unitPrice * -1).sum = creditableCost forecastInvoice { customer := 1, value := 100 } none ∧
      ∀ p, totalProjectCompensation compensations p =
        creditableCost forecastInvoice { customer := 1, value := 100 } (some p) := by
  refine forecast_exact forecastDb midJune forecastInvoice _ rfl rfl forecastInvoice_billed ⟨?_, ?_⟩
  · decide +kernel
  · decide +kernel

end Forecast

end Waldur.Invoices
