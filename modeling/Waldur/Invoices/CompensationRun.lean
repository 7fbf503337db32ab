import Mathlib
import Waldur.Lib.Waterfall
import Waldur.Invoices.Compensations

/-!
# Invoices.CompensationRun — the item loop is a waterfall

The loop of the compensation run serves the items of the invoice from the project allocations and the
organization pool: an item is a request of its net cost, on the pocket of its project where that has a
credit.  `RunAfter` says what the loop variables hold after some items, in the closed form of
`Waterfall`; `runAfter_compensateItem` is one turn, `runAfter_compensateItems` the loop, which serves
exactly the `processed` items.
-/

namespace Waldur.Invoices

open Relational Waterfall

@[simp] theorem Loaded.setValue_value (v : ℚ) (pc : Loaded ProjectCredit) :
    (pc.setValue v).obj.value = v := rfl

@[simp] theorem Loaded.setValue_project (v : ℚ) (pc : Loaded ProjectCredit) :
    (pc.setValue v).obj.project = pc.obj.project := rfl

@[simp] theorem Loaded.setValue_saved (v : ℚ) (pc : Loaded ProjectCredit) :
    (pc.setValue v).saved = pc.saved := rfl

@[simp] theorem Loaded.setValue_setValue (v w : ℚ) (pc : Loaded ProjectCredit) :
    (pc.setValue w).setValue v = pc.setValue v := rfl

theorem Loaded.setValue_self (pc : Loaded ProjectCredit) : pc.setValue pc.obj.value = pc := rfl

/-- The pocket of an item: its project where that has a credit. -/
def pocket (T : ProjectsCredits) (item : InvoiceItem) : Option Project :=
  item.project.filter (fun p => (T.get? p).isSome)

/-- The allocation of a project, 0 where it has no credit. -/
def allocation (T : ProjectsCredits) (p : Project) : ℚ := ((T.get? p).map (fun pc => pc.obj.value)).getD 0

theorem RunContext.cost_eq (ctx : RunContext) (item : InvoiceItem) :
    ctx.cost item = max 0 (item.price + ctx.discountByItem item.uuid) := by
  unfold RunContext.cost
  by_cases h : item.price + ctx.discountByItem item.uuid < 0
  · rw [max_eq_left h.le]
    simp [h]
  · rw [max_eq_right (not_lt.mp h)]
    simp [h]

theorem RunContext.cost_nonneg (ctx : RunContext) (item : InvoiceItem) : 0 ≤ ctx.cost item := by
  rw [ctx.cost_eq]
  exact le_max_left _ _

/-! ## One draw -/

section Draw

variable (ctx : RunContext) {run : Run} {item : InvoiceItem}

/-- A project item takes its cost, at most the value of the project credit. -/
theorem draw_pocket {pc : Loaded ProjectCredit} (h : item.project.bind run.projectsCredits.get? = some pc) :
    ctx.draw run item =
      (({ run with
          projectsCredits := run.projectsCredits.update pc.obj.project
            (Loaded.setValue (pc.obj.value - min pc.obj.value (ctx.cost item))) (fun _ => rfl)
          creditValue := run.creditValue - min pc.obj.value (ctx.cost item) }).recordUsageDraw
            (some pc.obj.project) (min pc.obj.value (ctx.cost item)), min pc.obj.value (ctx.cost item)) := by
  unfold RunContext.draw
  rw [h]
  by_cases hle : pc.obj.value ≤ ctx.cost item
  · rw [min_eq_left hle, sub_self]
    exact if_pos hle
  · rw [min_eq_right (not_le.mp hle).le]
    exact if_neg hle

theorem draw_pool_of_le (h : item.project.bind run.projectsCredits.get? = none)
    (hle : run.creditValue ≤ ctx.cost item) :
    ctx.draw run item = ({ run.recordUsageDraw none run.creditValue with creditValue := 0 },
      run.creditValue / (1 + ctx.taxPercent / 100)) := by
  unfold RunContext.draw
  rw [h]
  exact if_pos hle

theorem draw_pool_of_lt (h : item.project.bind run.projectsCredits.get? = none)
    (hlt : ctx.cost item < run.creditValue) :
    ctx.draw run item =
      ({ run.recordUsageDraw none (ctx.cost item) with creditValue := run.creditValue - ctx.cost item },
        ctx.cost item) := by
  unfold RunContext.draw
  rw [h]
  exact if_neg (not_le.mpr hlt)

end Draw

/-! ## The loop -/

section Loop

variable (ctx : RunContext) (T : ProjectsCredits) (V : ℚ)

/-- What the served items compensate together: an exhausted pool pays the last of them net of tax. -/
def RunContext.paid (done : List InvoiceItem) : ℚ :=
  if Exhausted (pocket T) ctx.cost (allocation T) V done then
    demand (pocket T) ctx.cost (allocation T) done.dropLast +
      (V - demand (pocket T) ctx.cost (allocation T) done.dropLast) / (1 + ctx.taxPercent / 100)
  else demand (pocket T) ctx.cost (allocation T) done

/-- The project credits once the served items have drawn on them. -/
def RunContext.drawnCredits (done : List InvoiceItem) : ProjectsCredits :=
  T.mapRows (fun pc => pc.setValue
    (pc.obj.value - drawn (pocket T) ctx.cost (allocation T) done pc.obj.project)) (fun _ => rfl)

/-- The loop variables after the items `done`. -/
structure RunAfter (done : List InvoiceItem) (run : Run) : Prop where
  projects : run.projectsCredits = ctx.drawnCredits T done
  credit : run.creditValue = balance (pocket T) ctx.cost (allocation T) V done
  total : (run.compensations.map (fun c => c.unitPrice * -1)).sum = ctx.paid T V done
  project_total : ∀ p, (T.get? p).isSome →
    totalProjectCompensation run.compensations p = drawn (pocket T) ctx.cost (allocation T) done p
  item : ∀ c ∈ run.compensations, ∃ it ∈ done, ∃ amount, amount ≤ ctx.cost it ∧
    c = compensationItem c.uuid ctx.customer it amount
  project_none : ∀ p, (T.get? p).isSome → drawn (pocket T) ctx.cost (allocation T) done p = 0 →
    ∀ c ∈ run.compensations, c.project ≠ some p
  positive : (∀ p, 0 ≤ allocation T p) → ¬ Overdrawn (pocket T) ctx.cost (allocation T) V done →
    ∀ c ∈ run.compensations, 0 < c.unitPrice * -1
  negative : Exhausted (pocket T) ctx.cost (allocation T) V done →
    V < demand (pocket T) ctx.cost (allocation T) done.dropLast →
    ∃ c ∈ run.compensations, c.unitPrice * -1 < 0

variable {ctx T V}

theorem runAfter_nil : RunAfter ctx T V [] { creditValue := V, projectsCredits := T } where
  projects := by
    refine Table.ext ?_
    show T.rows = T.rows.map _
    refine (List.map_id' T.rows).symm.trans (List.map_congr_left fun pc _ => ?_)
    rw [drawn_nil, sub_zero, Loaded.setValue_self]
  credit := by
    show V = _
    rw [balance, if_neg not_exhausted_nil, demand_nil, sub_zero]
  total := by rw [RunContext.paid, if_neg not_exhausted_nil, demand_nil]; rfl
  project_total := fun p _ => by rw [drawn_nil]; rfl
  item := fun c hc => absurd hc List.not_mem_nil
  project_none := fun _ _ _ c hc => absurd hc List.not_mem_nil
  positive := fun _ _ c hc => absurd hc List.not_mem_nil
  negative := fun h => absurd h not_exhausted_nil

section Step

variable {done : List InvoiceItem} {run : Run} {item : InvoiceItem}

theorem pocket_eq_some {p : Project} :
    pocket T item = some p ↔ item.project = some p ∧ (T.get? p).isSome := by
  unfold pocket
  rw [Option.filter_eq_some_iff]

/-- Looking up an item's project credit is looking up its pocket. -/
theorem bind_get?_pocket : item.project.bind T.get? = (pocket T item).bind T.get? := by
  unfold pocket
  cases item.project with
  | none => rfl
  | some p =>
    rw [Option.filter_some]
    cases hT : T.get? p with
    | none =>
      simp only [Option.bind_some, hT]
      rfl
    | some pc =>
      simp only [Option.bind_some, hT, Option.isSome_some, if_true]

theorem allocation_eq {p : Project} {pc : Loaded ProjectCredit} (h : T.get? p = some pc) :
    allocation T p = pc.obj.value := by
  unfold allocation
  rw [h]
  rfl

theorem get?_drawnCredits (p : Project) :
    (ctx.drawnCredits T done).get? p = (T.get? p).map (fun pc => pc.setValue
      (pc.obj.value - drawn (pocket T) ctx.cost (allocation T) done pc.obj.project)) :=
  Table.get?_mapRows T _ _ p

/-- A draw on a project credit, in the closed form. -/
theorem update_drawnCredits {p : Project} {pc : Loaded ProjectCredit} (hp : pocket T item = some p)
    (hpc : T.get? p = some pc) {v : ℚ}
    (hv : v = pc.obj.value - drawn (pocket T) ctx.cost (allocation T) (done ++ [item]) p) :
    (ctx.drawnCredits T done).update p (Loaded.setValue v) (fun _ => rfl) =
      ctx.drawnCredits T (done ++ [item]) := by
  refine Table.update_mapRows T _ _ _ (fun r hr hrp => ?_) (fun r hr hrp => ?_)
  · have hr' : r = pc := Option.some.inj ((Table.get?_eq_some.mpr ⟨hr, hrp⟩).symm.trans hpc)
    rw [Loaded.setValue_setValue, hrp, hv, hr']
  · rw [drawn_snoc_of_ne (by rw [hp]; exact fun h => hrp (Option.some.inj h).symm)]

theorem drawnCredits_snoc_pool (hp : pocket T item = none) :
    ctx.drawnCredits T (done ++ [item]) = ctx.drawnCredits T done := by
  refine Table.ext (List.map_congr_left fun r _ => ?_)
  rw [drawn_snoc_of_ne (by rw [hp]; exact nofun)]

/-- What an item compensates. -/
def RunContext.compensation (ctx : RunContext) (T : ProjectsCredits) (V : ℚ) (done : List InvoiceItem)
    (item : InvoiceItem) : ℚ :=
  match pocket T item with
  | some p => min (allocation T p - drawn (pocket T) ctx.cost (allocation T) done p) (ctx.cost item)
  | none =>
    if V - demand (pocket T) ctx.cost (allocation T) done ≤ ctx.cost item then
      (V - demand (pocket T) ctx.cost (allocation T) done) / (1 + ctx.taxPercent / 100)
    else ctx.cost item

/-- One draw, in the closed form. -/
theorem draw_spec (h : RunAfter ctx T V done run)
    (hx : ¬ Exhausted (pocket T) ctx.cost (allocation T) V done) :
    (ctx.draw run item).1.projectsCredits = ctx.drawnCredits T (done ++ [item]) ∧
      (ctx.draw run item).1.creditValue = balance (pocket T) ctx.cost (allocation T) V (done ++ [item]) ∧
      (ctx.draw run item).1.compensations = run.compensations ∧
      (ctx.draw run item).2 = ctx.compensation T V done item := by
  have hcredit : run.creditValue = V - demand (pocket T) ctx.cost (allocation T) done := by
    rw [h.credit, balance, if_neg hx]
  have hget : item.project.bind run.projectsCredits.get? = ((pocket T item).bind T.get?).map (fun pc =>
      pc.setValue (pc.obj.value - drawn (pocket T) ctx.cost (allocation T) done pc.obj.project)) := by
    rw [h.projects, ← bind_get?_pocket, Option.map_bind]
    exact congrArg _ (funext fun p => get?_drawnCredits p)
  cases hp : pocket T item with
  | some p =>
    obtain ⟨pc, hpc⟩ := Option.isSome_iff_exists.mp (pocket_eq_some.mp hp).2
    have hproj : pc.obj.project = p := (Table.get?_eq_some.mp hpc).2
    rw [hp, Option.bind_some, hpc, Option.map_some] at hget
    have halloc := allocation_eq hpc
    have hnx : ¬ Exhausted (pocket T) ctx.cost (allocation T) V (done ++ [item]) := fun hx' => by
      have := (exhausted_snoc.mp hx').1
      rw [hp] at this
      cases this
    rw [draw_pocket ctx hget]
    simp only [Run.recordUsageDraw, Loaded.setValue_value, Loaded.setValue_project, hproj]
    refine ⟨?_, ?_, trivial, ?_⟩
    · rw [h.projects]
      refine update_drawnCredits hp hpc ?_
      rw [drawn_snoc_self hp (ctx.cost_nonneg item), halloc]
      ring
    · rw [balance, if_neg hnx, demand_snoc_pocket hp (ctx.cost_nonneg item), hcredit, halloc]
      ring
    · unfold RunContext.compensation
      rw [hp]
      simp only [halloc]
  | none =>
    rw [hp, Option.bind_none] at hget
    have hdemand : demand (pocket T) ctx.cost (allocation T) (done ++ [item]) =
        demand (pocket T) ctx.cost (allocation T) done + ctx.cost item := demand_snoc_pool hp
    unfold RunContext.compensation
    rw [hp, drawnCredits_snoc_pool hp, ← h.projects]
    by_cases hle : run.creditValue ≤ ctx.cost item
    · have hx' : Exhausted (pocket T) ctx.cost (allocation T) V (done ++ [item]) :=
        exhausted_snoc.mpr ⟨hp, by rw [hdemand]; rw [hcredit] at hle; linarith⟩
      rw [draw_pool_of_le ctx hget hle, balance, if_pos hx']
      rw [hcredit] at hle
      refine ⟨rfl, rfl, rfl, ?_⟩
      simp only [if_pos hle, hcredit]
    · have hlt := not_le.mp hle
      have hx' : ¬ Exhausted (pocket T) ctx.cost (allocation T) V (done ++ [item]) := by
        refine not_exhausted_of_lt ?_
        rw [hdemand]
        rw [hcredit] at hlt
        linarith
      rw [draw_pool_of_lt ctx hget hlt, balance, if_neg hx', hdemand]
      rw [hcredit] at hle
      refine ⟨rfl, ?_, rfl, ?_⟩
      · show run.creditValue - ctx.cost item = _
        rw [hcredit]
        ring
      · simp only [if_neg hle]

theorem compensateItem_fields (h : RunAfter ctx T V done run)
    (hx : ¬ Exhausted (pocket T) ctx.cost (allocation T) V done) :
    (ctx.compensateItem run item).projectsCredits = ctx.drawnCredits T (done ++ [item]) ∧
      (ctx.compensateItem run item).creditValue =
        balance (pocket T) ctx.cost (allocation T) V (done ++ [item]) ∧
      (ctx.compensateItem run item).compensations = run.compensations ++
        if ctx.compensation T V done item = 0 then []
        else [compensationItem (ctx.nextUuid + run.compensations.length) ctx.customer item
          (ctx.compensation T V done item)] := by
  obtain ⟨hp, hc, hl, ha⟩ := @draw_spec ctx T V done run item h hx
  unfold RunContext.compensateItem
  simp only [ha]
  split
  · exact ⟨hp, hc, by rw [hl, List.append_nil]⟩
  · exact ⟨hp, hc, by simp only [hl]⟩

/-- A served item pays its compensation. -/
theorem paid_snoc (hx : ¬ Exhausted (pocket T) ctx.cost (allocation T) V done) :
    ctx.paid T V (done ++ [item]) = ctx.paid T V done + ctx.compensation T V done item := by
  unfold RunContext.paid RunContext.compensation
  rw [if_neg hx, List.dropLast_concat]
  cases hp : pocket T item with
  | some p =>
    have hnx : ¬ Exhausted (pocket T) ctx.cost (allocation T) V (done ++ [item]) := fun hx' => by
      have h := (exhausted_snoc.mp hx').1
      rw [hp] at h
      cases h
    rw [if_neg hnx, demand_snoc_pocket hp (ctx.cost_nonneg item)]
  | none =>
    have hdemand : demand (pocket T) ctx.cost (allocation T) (done ++ [item]) =
        demand (pocket T) ctx.cost (allocation T) done + ctx.cost item := demand_snoc_pool hp
    have hiff : Exhausted (pocket T) ctx.cost (allocation T) V (done ++ [item]) ↔
        V - demand (pocket T) ctx.cost (allocation T) done ≤ ctx.cost item := by
      rw [exhausted_snoc, hdemand, sub_le_iff_le_add']
      exact ⟨fun h => h.2, fun h => ⟨hp, h⟩⟩
    by_cases hle : V - demand (pocket T) ctx.cost (allocation T) done ≤ ctx.cost item
    · rw [if_pos (hiff.mpr hle)]
      simp only [if_pos hle]
    · rw [if_neg (fun h => hle (hiff.mp h)), hdemand]
      simp only [if_neg hle]

theorem compensation_le_cost (htax : 0 ≤ ctx.taxPercent) :
    ctx.compensation T V done item ≤ ctx.cost item := by
  have hcost := ctx.cost_nonneg item
  have htax' : 1 ≤ 1 + ctx.taxPercent / 100 := by linarith
  unfold RunContext.compensation
  split
  · exact min_le_right _ _
  · split
    · next hle =>
      rcases le_total 0 (V - demand (pocket T) ctx.cost (allocation T) done) with hV | hV
      · exact (div_le_self hV htax').trans hle
      · exact (div_nonpos_of_nonpos_of_nonneg hV (by linarith)).trans hcost
    · exact le_refl _

theorem compensation_nonneg (htax : 0 ≤ ctx.taxPercent) (hcap : ∀ p, 0 ≤ allocation T p)
    (hx : ¬ Exhausted (pocket T) ctx.cost (allocation T) V done)
    (ho : ¬ Overdrawn (pocket T) ctx.cost (allocation T) V (done ++ [item])) :
    0 ≤ ctx.compensation T V done item := by
  have hcost := ctx.cost_nonneg item
  unfold RunContext.compensation
  split
  · next p hp => exact le_min (sub_nonneg.mpr (drawn_le hcap done p)) hcost
  · split
    · -- the pool was not below zero before the item, else it would be overdrawn
      have hV : demand (pocket T) ctx.cost (allocation T) done ≤ V := by
        refine not_lt.mp fun hlt => ho (overdrawn_snoc hcap (fun b _ => ctx.cost_nonneg b) hx ?_)
        rwa [Overdrawn, if_neg hx]
      exact div_nonneg (sub_nonneg.mpr hV) (by linarith)
    · exact hcost

/-- The compensations of a project grow by what its item compensates. -/
theorem totalProjectCompensation_snoc {r : Resource} (hr : item.resource = some r) (cs : List InvoiceItem)
    (uuid : ℕ) (amount : ℚ) (p : Project) :
    totalProjectCompensation (cs ++ if amount = 0 then [] else
      [compensationItem uuid ctx.customer item amount]) p =
      totalProjectCompensation cs p + if r.project = p then amount else 0 := by
  unfold totalProjectCompensation
  by_cases ha : amount = 0
  · simp [ha]
  · by_cases hp : r.project = p <;> simp [ha, compensationItem, hr, hp]

theorem sum_snoc (cs : List InvoiceItem) (uuid : ℕ) (amount : ℚ) :
    ((cs ++ if amount = 0 then [] else [compensationItem uuid ctx.customer item amount]).map
      (fun c => c.unitPrice * -1)).sum = (cs.map (fun c => c.unitPrice * -1)).sum + amount := by
  by_cases ha : amount = 0 <;> simp [ha, compensationItem]

/-- The new compensation, or one of the old. -/
theorem mem_snoc {c : InvoiceItem} {cs : List InvoiceItem} {uuid : ℕ} {amount : ℚ}
    (hc : c ∈ cs ++ if amount = 0 then [] else [compensationItem uuid ctx.customer item amount]) :
    c ∈ cs ∨ (amount ≠ 0 ∧ c = compensationItem uuid ctx.customer item amount) := by
  rcases List.mem_append.mp hc with hc | hc
  · exact Or.inl hc
  · split at hc
    · cases hc
    · next ha => exact Or.inr ⟨ha, List.mem_singleton.mp hc⟩

/-- **One turn of the loop** serves one more item. -/
theorem runAfter_compensateItem (htax : 0 ≤ ctx.taxPercent) (h : RunAfter ctx T V done run)
    (hx : ¬ Exhausted (pocket T) ctx.cost (allocation T) V done)
    (hitem : ∃ r, item.resource = some r ∧ item.project = some r.project) :
    RunAfter ctx T V (done ++ [item]) (ctx.compensateItem run item) := by
  obtain ⟨hp, hc, hl⟩ := @compensateItem_fields ctx T V done run item h hx
  obtain ⟨r, hr, hrp⟩ := hitem
  have hsplit : ∀ {c}, c ∈ (ctx.compensateItem run item).compensations → c ∈ run.compensations ∨
      (ctx.compensation T V done item ≠ 0 ∧ c = compensationItem (ctx.nextUuid + run.compensations.length)
        ctx.customer item (ctx.compensation T V done item)) := fun hcm => mem_snoc (hl ▸ hcm)
  refine ⟨hp, hc, ?_, fun p hpT => ?_, fun c hcm => ?_, fun p hpT h0 c hcm hcp => ?_,
    fun hcap ho c hcm => ?_, fun hx' hV => ?_⟩
  · rw [hl, sum_snoc, h.total, paid_snoc hx]
  · rw [hl, totalProjectCompensation_snoc hr, h.project_total p hpT]
    by_cases hpr : r.project = p
    · have hpock : pocket T item = some p := pocket_eq_some.mpr ⟨hpr ▸ hrp, hpT⟩
      rw [if_pos hpr, drawn_snoc_self hpock (ctx.cost_nonneg item)]
      unfold RunContext.compensation
      rw [hpock]
    · have hpock : pocket T item ≠ some p := fun hpock => by
        have h' := (pocket_eq_some.mp hpock).1
        rw [hrp] at h'
        exact hpr (Option.some.inj h')
      rw [if_neg hpr, drawn_snoc_of_ne hpock, add_zero]
  · rcases hsplit hcm with hold | ⟨-, hnew⟩
    · obtain ⟨it, hit, hrest⟩ := h.item c hold
      exact ⟨it, List.mem_append_left _ hit, hrest⟩
    · refine ⟨item, List.mem_append_right _ List.mem_cons_self, ctx.compensation T V done item,
        compensation_le_cost htax, ?_⟩
      rw [hnew]
      rfl
  · have hpock : r.project = p → pocket T item = some p := fun hpr => pocket_eq_some.mpr ⟨hpr ▸ hrp, hpT⟩
    rcases hsplit hcm with hold | ⟨hne, hnew⟩
    · refine h.project_none p hpT ?_ c hold hcp
      by_cases hpr : r.project = p
      · exact (drawn_snoc_eq_zero (hpock hpr) (fun b _ => ctx.cost_nonneg b) (ctx.cost_nonneg item) h0).1
      · have hother : pocket T item ≠ some p := fun hpock => by
          have h' := (pocket_eq_some.mp hpock).1
          rw [hrp] at h'
          exact hpr (Option.some.inj h')
        rwa [drawn_snoc_of_ne hother] at h0
    · have hpr : r.project = p := by
        rw [hnew] at hcp
        simpa [compensationItem, hr] using hcp
      refine hne ?_
      unfold RunContext.compensation
      rw [hpock hpr]
      exact (drawn_snoc_eq_zero (hpock hpr) (fun b _ => ctx.cost_nonneg b) (ctx.cost_nonneg item) h0).2
  · rcases hsplit hcm with hold | ⟨hne, hnew⟩
    · exact h.positive hcap (fun ho' => ho (overdrawn_snoc hcap (fun b _ => ctx.cost_nonneg b) hx ho')) c hold
    · have hnn := @compensation_nonneg ctx T V done item htax hcap hx ho
      have hpos := lt_of_le_of_ne hnn hne.symm
      rw [hnew]
      simpa [compensationItem] using hpos
  · obtain ⟨hpool, hle⟩ := exhausted_snoc.mp hx'
    rw [List.dropLast_concat] at hV
    rw [demand_snoc_pool hpool] at hle
    have hneg : ctx.compensation T V done item < 0 := by
      unfold RunContext.compensation
      rw [hpool]
      simp only [if_pos (sub_le_iff_le_add'.mpr hle)]
      exact div_neg_of_neg_of_pos (sub_neg.mpr hV) (by linarith)
    refine ⟨_, by rw [hl, if_neg hneg.ne]; exact List.mem_append_right _ List.mem_cons_self, ?_⟩
    simpa [compensationItem] using hneg

end Step

/-- **The loop** serves the items until the credit is zero. -/
theorem runAfter_compensateItems (htax : 0 ≤ ctx.taxPercent) : ∀ (items done : List InvoiceItem) (run : Run),
    RunAfter ctx T V done run → ¬ Exhausted (pocket T) ctx.cost (allocation T) V done →
    (∀ it ∈ items, ∃ r, it.resource = some r ∧ it.project = some r.project) →
    RunAfter ctx T V (processed (pocket T) ctx.cost (allocation T) V done items)
      (ctx.compensateItems run items)
  | [], _, _, h, _, _ => h
  | item :: items, done, run, h, hx, hitems => by
    have hstep := runAfter_compensateItem htax h hx (hitems item List.mem_cons_self)
    unfold processed RunContext.compensateItems
    by_cases hs : Stops (pocket T) ctx.cost (allocation T) V (done ++ [item])
    · rw [if_pos hs]
      simp only [hstep.credit, balance_eq_zero_iff.mpr hs, if_true]
      exact hstep
    · have hne : balance (pocket T) ctx.cost (allocation T) V (done ++ [item]) ≠ 0 :=
        fun h0 => hs (balance_eq_zero_iff.mp h0)
      rw [if_neg hs]
      simp only [hstep.credit, hne, if_false]
      exact runAfter_compensateItems htax items _ _ hstep (fun hx' => hs (Or.inr hx'))
        (fun it hit => hitems it (List.mem_cons_of_mem _ hit))

end Loop

/-! ## The run on an invoice -/

section OnInvoice

open MonthlyCompensation

variable (db : Db) (inv : Invoice) (cc : CustomerCredit)

/-- What items take from an unlimited organization credit: the pool items their net cost, the items of a
project with a credit together at most its value. -/
def demandOn (items : List InvoiceItem) : ℚ :=
  demand (pocket (loadProjectsCredits db inv)) (runContext db inv cc).cost
    (allocation (loadProjectsCredits db inv)) items

/-- What items take from the credit of a project. -/
def drawnOn (items : List InvoiceItem) (p : Project) : ℚ :=
  drawn (pocket (loadProjectsCredits db inv)) (runContext db inv cc).cost
    (allocation (loadProjectsCredits db inv)) items p

/-- The items the loop gets to. -/
def servedItems : List InvoiceItem :=
  processed (pocket (loadProjectsCredits db inv)) (runContext db inv cc).cost
    (allocation (loadProjectsCredits db inv)) cc.value [] (sortedItems inv cc)

variable {db inv cc}

theorem mem_chargeableItems {it : InvoiceItem} (h : it ∈ chargeableItems inv cc none) :
    it ∈ inv.items ∧ ∃ r, it.resource = some r ∧ it.project = some r.project := by
  have hq := List.mem_filter.mp (List.mem_of_mem_filter h)
  refine ⟨hq.1, ?_⟩
  cases hr : it.resource with
  | none => simp [hr] at hq
  | some r => exact ⟨r, rfl, (inv.attributed it hq.1 r hr).1⟩

theorem mem_sortedItems {it : InvoiceItem} : it ∈ sortedItems inv cc ↔ it ∈ chargeableItems inv cc none :=
  List.mem_insertionSort _

theorem mem_servedItems {it : InvoiceItem} (h : it ∈ servedItems db inv cc) :
    it ∈ chargeableItems inv cc none := by
  have hp : servedItems db inv cc <+: [] ++ sortedItems inv cc := processed_prefix (sortedItems inv cc) []
  exact mem_sortedItems.mp (hp.subset h)

theorem runAfter_compensate :
    RunAfter (runContext db inv cc) (loadProjectsCredits db inv) cc.value (servedItems db inv cc)
      (compensate db inv cc) :=
  runAfter_compensateItems inv.tax_nonneg _ _ _ runAfter_nil not_exhausted_nil
    (fun _ hit => (mem_chargeableItems (mem_sortedItems.mp hit)).2)

/-- The project credits of the run are the stored ones of the projects on the invoice. -/
theorem get?_loadProjectsCredits (p : Project) :
    (loadProjectsCredits db inv).get? p =
      if p ∈ inv.itemsProjects then
        (db.projectCredit? p).map ProjectCredit.load
      else none := by
  have hmap : (loadProjectsCredits db inv).get? p =
      ((db.projectCredits.filter (fun pc => inv.itemsProjects.contains pc.project)).get? p).map
        ProjectCredit.load := Table.get?_mapRows _ ProjectCredit.load (fun _ => rfl) p
  unfold Db.projectCredit?
  rw [hmap, Table.get?_filter]
  cases h : db.projectCredits.get? p with
  | none => simp
  | some pc =>
    have hp : pc.project = p := (Table.get?_eq_some.mp h).2
    rw [Option.filter_some, hp]
    by_cases hmem : p ∈ inv.itemsProjects
    · rw [if_pos (List.contains_iff_mem.mpr hmem), if_pos hmem]
    · rw [if_neg (fun hc => hmem (List.contains_iff_mem.mp hc)), if_neg hmem]
      rfl

/-- A project with a resource on the invoice is one of the invoiced organization. -/
theorem customer_of_mem_itemsProjects {p : Project} (h : p ∈ inv.itemsProjects) : p.customer = inv.customer := by
  obtain ⟨it, hit, hp⟩ := List.mem_filterMap.mp h
  obtain ⟨r, hr, rfl⟩ := Option.map_eq_some_iff.mp hp
  exact (inv.attributed it hit r hr).2

theorem allocation_loadProjectsCredits_nonneg
    (h : ∀ pc ∈ db.projectCredits.rows, pc.project.customer = inv.customer → 0 ≤ pc.value) (p : Project) :
    0 ≤ allocation (loadProjectsCredits db inv) p := by
  unfold allocation
  rw [get?_loadProjectsCredits]
  split
  · next hmem =>
    cases hpc : db.projectCredit? p with
    | none => exact le_refl 0
    | some pc =>
      obtain ⟨hrow, rfl⟩ := Table.get?_eq_some.mp hpc
      exact h pc hrow (customer_of_mem_itemsProjects hmem)
  · exact le_refl 0

end OnInvoice

end Waldur.Invoices
