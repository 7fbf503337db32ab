import Mathlib
import Waldur.Invoices.CompensationSave

/-!
# Invoices.Apportionment — the breakdown that a compensation run declares

A run notes what usage takes from a balance at each subtraction, and what the top-up to the minimal
consumption takes at the end.  `Apportioned` says that the notes of the item loop add up to the movement of
every balance, `Accounted` that those of the object do.  The ledger then takes the declared breakdown of
every save, and no row of a run is left unapportioned.
-/

namespace Waldur.Invoices

open Calendar Relational Runs

/-! ## The item loop -/

/-- The noted draws are what the balances have given up since they were read. -/
structure Apportioned (V : ℚ) (run : Run) : Prop where
  pool : run.customerUsageDraw = V - run.creditValue
  projects : ∀ pc ∈ run.projectsCredits.rows, run.projectUsageDraws pc.obj.project = pc.saved - pc.obj.value

namespace Apportioned

variable {V : ℚ} {run : Run} {ctx : RunContext}

theorem drawPool (h : Apportioned V run) (amount : ℚ) :
    Apportioned V { run.recordUsageDraw none amount with creditValue := run.creditValue - amount } where
  pool := by
    show run.customerUsageDraw + amount = V - (run.creditValue - amount)
    rw [h.pool]
    ring
  projects := h.projects

/-- A draw on a project credit is noted for the project and for the pool. -/
theorem drawProject (h : Apportioned V run) {pc : Loaded ProjectCredit}
    (hpc : run.projectsCredits.get? pc.obj.project = some pc) (amount : ℚ) :
    Apportioned V (({ run with
      projectsCredits := run.projectsCredits.update pc.obj.project
        (Loaded.setValue (pc.obj.value - amount)) (fun _ => rfl)
      creditValue := run.creditValue - amount }).recordUsageDraw (some pc.obj.project) amount) where
  pool := by
    show run.customerUsageDraw + amount = V - (run.creditValue - amount)
    rw [h.pool]
    ring
  projects := by
    intro pc' hpc'
    have hupdate : pc' ∈ (run.projectsCredits.update pc.obj.project
      (Loaded.setValue (pc.obj.value - amount)) (fun _ => rfl)).rows := hpc'
    obtain ⟨pc₀, hmem, hpc'⟩ := Table.mem_update.mp hupdate
    show Function.update run.projectUsageDraws pc.obj.project _ pc'.obj.project = pc'.saved - pc'.obj.value
    by_cases hp : pc₀.obj.project = pc.obj.project
    · -- the row of the drawn project is the one that was looked up
      have hrow : pc₀ = pc := Option.some.inj ((Table.get?_eq_some.mpr ⟨hmem, hp⟩).symm.trans hpc)
      rw [if_pos hp] at hpc'
      rw [hpc', hrow, Loaded.setValue_project, Function.update_self, Loaded.setValue_value, Loaded.setValue_saved,
        h.projects pc (hrow ▸ hmem)]
      ring
    · rw [if_neg hp] at hpc'
      rw [hpc', Function.update_of_ne hp]
      exact h.projects pc₀ hmem

/-- One draw: the balance of the pool set to zero was drawn as a whole. -/
theorem draw (h : Apportioned V run) (item : InvoiceItem) : Apportioned V (ctx.draw run item).1 := by
  cases hget : item.project.bind run.projectsCredits.get? with
  | some pc =>
    rw [draw_pocket ctx hget]
    obtain ⟨p, -, hp⟩ := Option.bind_eq_some_iff.mp hget
    have hproj : pc.obj.project = p := (Table.get?_eq_some.mp hp).2
    exact h.drawProject (hproj ▸ hp) _
  | none =>
    by_cases hle : run.creditValue ≤ ctx.cost item
    · rw [draw_pool_of_le ctx hget hle]
      have hpool := h.drawPool run.creditValue
      rwa [sub_self] at hpool
    · rw [draw_pool_of_lt ctx hget (not_le.mp hle)]
      exact h.drawPool _

/-- Adding a compensation moves no balance. -/
theorem compensateItem (h : Apportioned V run) (item : InvoiceItem) :
    Apportioned V (ctx.compensateItem run item) := by
  have hdraw : Apportioned V (ctx.draw run item).1 := h.draw item
  unfold RunContext.compensateItem
  dsimp only
  split
  · exact hdraw
  · exact ⟨hdraw.pool, hdraw.projects⟩

theorem compensateItems : ∀ (items : List InvoiceItem) {run : Run}, Apportioned V run →
    Apportioned V (ctx.compensateItems run items)
  | [], _, h => h
  | item :: items, run, h => by
    have hstep : Apportioned V (ctx.compensateItem run item) := h.compensateItem item
    unfold RunContext.compensateItems
    dsimp only
    split
    · exact hstep
    · exact compensateItems items hstep

end Apportioned

/-- The loop over an invoice starts with nothing noted and the balances as read. -/
theorem apportioned_compensate (db : Db) (inv : Invoice) (cc : CustomerCredit) :
    Apportioned cc.value (MonthlyCompensation.compensate db inv cc) := by
  refine Apportioned.compensateItems _ ⟨(sub_self _).symm, fun pc hpc => ?_⟩
  obtain ⟨stored, -, rfl⟩ := List.mem_map.mp hpc
  exact (sub_self _).symm

/-- A tail is what the top-up takes from the balance, also when it is capped. -/
theorem drawTail_fst (value minimalConsumption total : ℚ) :
    (drawTail value minimalConsumption total).1 = value - (drawTail value minimalConsumption total).2 := by
  unfold drawTail
  dsimp only
  split_ifs
  · ring
  · ring
  · ring

namespace MonthlyCompensation

variable {mc mc' : MonthlyCompensation} {db db' : Db} {today : Date}

/-! ## The object -/

/-- What the object notes for a balance is the change of the balance since it was read. -/
structure Accounted (mc : MonthlyCompensation) : Prop where
  pool : ∀ credit, mc.credit = some credit → mc.customerUsageDraw + mc.tail = credit.saved - credit.obj.value
  projects : ∀ pc ∈ mc.projectsCredits.rows,
    mc.projectUsageDraws pc.obj.project + mc.projectTails pc.obj.project = pc.saved - pc.obj.value

/-- The objects that a run starts from: new ones and cleared ones. -/
inductive Prepared : MonthlyCompensation → Prop
  | init (db : Db) (customer : ℕ) (invoice : Option ℕ) : Prepared (MonthlyCompensation.init db customer invoice)
  | clear {mc mc' : MonthlyCompensation} {db db' : Db} {today : Date} :
      Prepared mc → mc.clearCompensations db today = .ok (db', mc') → Prepared mc'

/-- Before the calculation nothing has been drawn. -/
structure Untouched (mc : MonthlyCompensation) : Prop where
  not_calculated : mc.calculated = false
  credit : ∀ credit, mc.credit = some credit → credit.saved = credit.obj.value
  projectsCredits : mc.projectsCredits.rows = []
  customerUsageDraw : mc.customerUsageDraw = 0
  tail : mc.tail = 0

theorem Untouched.accounted (h : mc.Untouched) : mc.Accounted where
  pool := fun credit hc => by
    rw [h.customerUsageDraw, h.tail, h.credit credit hc]
    ring
  projects := fun pc hpc => by
    rw [h.projectsCredits] at hpc
    exact absurd hpc List.not_mem_nil

theorem untouched_init (db : Db) (customer : ℕ) (invoice : Option ℕ) :
    (MonthlyCompensation.init db customer invoice).Untouched where
  not_calculated := rfl
  credit := fun credit hc => by
    obtain ⟨cc, -, rfl⟩ := Option.map_eq_some_iff.mp hc
    rfl
  projectsCredits := rfl
  customerUsageDraw := rfl
  tail := rfl

/-- A cleared object has the new value of the credit as its saved one. -/
theorem Untouched.clear (hu : mc.Untouched) (h : mc.clearCompensations db today = .ok (db', mc')) :
    mc'.Untouched := by
  rcases clear_cases hu.not_calculated h with ⟨-, rfl⟩ | ⟨credit, inv, -, -, h⟩
  · exact hu
  · obtain ⟨db₁, -, -, rfl⟩ := rollBack_eq_ok.mp h
    refine ⟨hu.not_calculated, fun credit' hc' => ?_, hu.projectsCredits, hu.customerUsageDraw, hu.tail⟩
    obtain rfl := Option.some.inj hc'
    rfl

theorem Prepared.untouched (h : mc.Prepared) : mc.Untouched := by
  induction h with
  | init db customer invoice => exact untouched_init db customer invoice
  | clear _ hclear ih => exact ih.clear hclear

/-- **The calculation** notes all it takes. -/
theorem accounted_calculateOn {credit : Loaded CustomerCredit} (inv : Invoice)
    (hsaved : credit.saved = credit.obj.value) : (mc.calculateOn db today credit inv).Accounted where
  pool := by
    intro credit' hc'
    obtain rfl := Option.some.inj hc'
    have hrun := (apportioned_compensate db inv credit.obj).pool
    have htail := drawTail_fst (compensate db inv credit.obj).creditValue (credit.obj.minimalConsumption today)
      ((compensate db inv credit.obj).compensations.map (fun c => c.unitPrice * -1)).sum
    show (compensate db inv credit.obj).customerUsageDraw + (drawTail _ _ _).1 = credit.saved - (drawTail _ _ _).2
    rw [hrun, htail, hsaved]
    ring
  projects := by
    intro pc hpc
    obtain ⟨pc₁, hpc₁, rfl⟩ := List.mem_map.mp hpc
    have hrun := (apportioned_compensate db inv credit.obj).projects pc₁ hpc₁
    have htail := drawTail_fst pc₁.obj.value (pc₁.obj.minimalConsumption today)
      (totalProjectCompensation (compensate db inv credit.obj).compensations pc₁.obj.project)
    have hget : (compensate db inv credit.obj).projectsCredits.get? pc₁.obj.project = some pc₁ :=
      Table.get?_eq_some.mpr ⟨hpc₁, rfl⟩
    show (compensate db inv credit.obj).projectUsageDraws pc₁.obj.project +
      (((compensate db inv credit.obj).projectsCredits.get? pc₁.obj.project).map _).getD 0 =
        pc₁.saved - (drawTail _ _ _).2
    rw [hget, Option.map_some, Option.getD_some, hrun, htail]
    ring

/-- The calculation leaves the object alone, or works on its credit and its invoice. -/
theorem Untouched.calculate_cases (h : mc.Untouched) (db : Db) (today : Date) :
    mc.calculateCurrentCompensations db today = mc ∨ ∃ credit inv, mc.credit = some credit ∧
      mc.getInvoice db = some inv ∧
      mc.calculateCurrentCompensations db today = mc.calculateOn db today credit inv := by
  unfold calculateCurrentCompensations
  rw [if_neg (by rw [h.not_calculated]; exact Bool.false_ne_true)]
  split
  · next credit inv hc hi =>
    split
    · exact Or.inl rfl
    · exact Or.inr ⟨credit, inv, hc, hi, rfl⟩
  · exact Or.inl rfl

theorem Untouched.accounted_calculate (h : mc.Untouched) (db : Db) (today : Date) :
    (mc.calculateCurrentCompensations db today).Accounted := by
  rcases h.calculate_cases db today with heq | ⟨credit, inv, hc, -, heq⟩
  · rw [heq]
    exact h.accounted
  · rw [heq]
    exact accounted_calculateOn inv (h.credit credit hc)

/-! ## The declared parts -/

theorem sum_ledgerParts (usageDraw tail : ℚ) (billingPeriod : Option Date) :
    ((Invoices.ledgerParts usageDraw tail billingPeriod).map (·.amount)).sum = -(usageDraw + tail) := by
  unfold Invoices.ledgerParts
  simp only [List.map_cons, List.map_nil, List.sum_cons, List.sum_nil]
  ring

theorem lookup_customer {inv : Invoice} (hinv : mc.getInvoice db = some inv) (credit : CustomerCredit) :
    (mc.ledgerParts db credit).lookup (.customer credit.customer) =
      some (Invoices.ledgerParts mc.customerUsageDraw mc.tail (some inv.billingPeriod)) := by
  unfold ledgerParts
  rw [hinv]
  exact List.lookup_cons_self

/-- The parts of a project credit are found under its own key. -/
theorem lookup_project {inv : Invoice} (hinv : mc.getInvoice db = some inv) (credit : CustomerCredit)
    {pc : Loaded ProjectCredit} (hpc : pc ∈ mc.projectsCredits.rows) :
    (mc.ledgerParts db credit).lookup (.project pc.obj.project) =
      some (Invoices.ledgerParts (mc.projectUsageDraws pc.obj.project) (mc.projectTails pc.obj.project)
        (some inv.billingPeriod)) := by
  have hkeys : ∀ L : List (Loaded ProjectCredit), pc ∈ L →
      (L.map (fun pc => ((.project pc.obj.project : CreditKey),
        Invoices.ledgerParts (mc.projectUsageDraws pc.obj.project) (mc.projectTails pc.obj.project)
          (some inv.billingPeriod)))).lookup (.project pc.obj.project) =
        some (Invoices.ledgerParts (mc.projectUsageDraws pc.obj.project) (mc.projectTails pc.obj.project)
          (some inv.billingPeriod)) := by
    intro L hL
    induction L with
    | nil => cases hL
    | cons pc' L ih =>
      rw [List.map_cons, List.lookup_cons]
      by_cases hp : pc.obj.project = pc'.obj.project
      · simp [hp]
      · have hne : ((.project pc.obj.project : CreditKey) == .project pc'.obj.project) = false :=
          beq_false_of_ne (fun h => hp (CreditKey.project.inj h))
        rw [hne]
        refine ih ((List.mem_cons.mp hL).resolve_left (fun h => hp (h ▸ rfl)))
  unfold ledgerParts
  rw [hinv]
  exact hkeys _ hpc

/-- The rows of a declared breakdown, none where the balance has not moved. -/
def declaredRows (st : LedgerState) (key : CreditKey) (saved value : ℚ) : List CreditTransaction :=
  if value = saved then [] else partRows st key (st.currentParts key)

theorem record_eq_declaredRows {st : LedgerState} {key : CreditKey} {saved value : ℚ}
    (h : value = saved ∨ st.currentParts key ≠ [] ∧
      ((st.currentParts key).map (·.amount)).sum = value - saved) :
    recordCreditTransaction st key .value (some saved) value = declaredRows st key saved value := by
  unfold recordCreditTransaction declaredRows
  simp only [UpdateFields.writesValue, Bool.not_true, Bool.false_eq_true, if_false, Option.getD_some, sub_eq_zero]
  by_cases hv : value = saved
  · rw [if_pos hv, if_pos hv]
  · rw [if_neg hv, if_neg hv, if_pos (h.resolve_left hv)]

theorem transactions_writeProjectCredits (st : LedgerState) : ∀ (L : List (Loaded ProjectCredit)) (db : Db),
    (db.writeProjectCredits st L .value).transactions = db.transactions ++ L.flatMap (fun pc =>
      recordCreditTransaction st (.project pc.obj.project) .value (some pc.saved) pc.obj.value)
  | [], db => (List.append_nil _).symm
  | pc :: L, db => by
    rw [writeProjectCredits_cons, transactions_writeProjectCredits st L, List.flatMap_cons]
    exact List.append_assoc _ _ _

/-- The declared parts of every credit of the run add up to its change. -/
theorem declared_sums (h : mc.Accounted) {credit : Loaded CustomerCredit} {inv : Invoice}
    (hc : mc.credit = some credit) (hinv : mc.getInvoice db = some inv) :
    (∃ parts, (mc.ledgerParts db credit.obj).lookup (.customer credit.obj.customer) = some parts ∧
        parts ≠ [] ∧ (parts.map (·.amount)).sum = credit.obj.value - credit.saved) ∧
      ∀ pc ∈ mc.projectsCredits.rows, ∃ parts,
        (mc.ledgerParts db credit.obj).lookup (.project pc.obj.project) = some parts ∧
        parts ≠ [] ∧ (parts.map (·.amount)).sum = pc.obj.value - pc.saved := by
  refine ⟨⟨_, lookup_customer hinv credit.obj, List.cons_ne_nil _ _, ?_⟩,
    fun pc hpc => ⟨_, lookup_project hinv credit.obj hpc, List.cons_ne_nil _ _, ?_⟩⟩
  · rw [sum_ledgerParts, h.pool credit hc]
    ring
  · rw [sum_ledgerParts, h.projects pc hpc]
    ring

theorem currentParts_saveState (key : CreditKey) (credit : CustomerCredit) :
    (mc.saveState db credit).currentParts key = ((mc.ledgerParts db credit).lookup key).getD [] := rfl

/-- Every save of a run finds a breakdown that it takes, or has nothing to record. -/
theorem Untouched.declared (h : mc.Untouched) {credit : Loaded CustomerCredit}
    (hc : (mc.calculateCurrentCompensations db today).credit = some credit) :
    (credit.obj.value = credit.saved ∨
      ((mc.calculateCurrentCompensations db today).saveState db credit.obj).currentParts
          (.customer credit.obj.customer) ≠ [] ∧
      ((((mc.calculateCurrentCompensations db today).saveState db credit.obj).currentParts
          (.customer credit.obj.customer)).map (·.amount)).sum = credit.obj.value - credit.saved) ∧
    ∀ pc ∈ (mc.calculateCurrentCompensations db today).projectsCredits.rows, pc.obj.value = pc.saved ∨
      ((mc.calculateCurrentCompensations db today).saveState db credit.obj).currentParts
          (.project pc.obj.project) ≠ [] ∧
      ((((mc.calculateCurrentCompensations db today).saveState db credit.obj).currentParts
          (.project pc.obj.project)).map (·.amount)).sum = pc.obj.value - pc.saved := by
  rcases h.calculate_cases db today with heq | ⟨credit₀, inv, hc₀, hinv, heq⟩
  · -- nothing was calculated, so nothing has moved
    rw [heq] at hc ⊢
    refine ⟨Or.inl (h.credit credit hc).symm, fun pc hpc => ?_⟩
    rw [h.projectsCredits] at hpc
    exact absurd hpc List.not_mem_nil
  · have hinv' : (mc.calculateCurrentCompensations db today).getInvoice db = some inv := by
      rw [heq]
      exact hinv
    obtain ⟨⟨parts, hlookup, hne, hsum⟩, hprojects⟩ := declared_sums (h.accounted_calculate db today) hc hinv'
    refine ⟨Or.inr ?_, fun pc hpc => Or.inr ?_⟩
    · rw [currentParts_saveState, hlookup]
      exact ⟨hne, hsum⟩
    · obtain ⟨parts, hlookup, hne, hsum⟩ := hprojects pc hpc
      rw [currentParts_saveState, hlookup]
      exact ⟨hne, hsum⟩

/-- **The breakdown of a run is accepted.**  For an object that is new or cleared, the parts that
`_ledger_parts` declares for the organization credit and for every project credit of the run add up to the
change of its value, and the ledger rows of `save` are exactly these parts. -/
theorem ledgerParts_accepted (h : mc.Prepared) (db : Db) (today : Date) {credit : Loaded CustomerCredit}
    (hc : (mc.calculateCurrentCompensations db today).credit = some credit) :
    (∀ inv, (mc.calculateCurrentCompensations db today).getInvoice db = some inv →
      (∃ parts, ((mc.calculateCurrentCompensations db today).ledgerParts db credit.obj).lookup
          (.customer credit.obj.customer) = some parts ∧
        (parts.map (·.amount)).sum = credit.obj.value - credit.saved) ∧
      ∀ pc ∈ (mc.calculateCurrentCompensations db today).projectsCredits.rows, ∃ parts,
        ((mc.calculateCurrentCompensations db today).ledgerParts db credit.obj).lookup
          (.project pc.obj.project) = some parts ∧
        (parts.map (·.amount)).sum = pc.obj.value - pc.saved) ∧
    ∀ db' mc', mc.save db today = .ok (db', mc') →
      db'.transactions = db.transactions ++
        (mc.calculateCurrentCompensations db today).projectsCredits.rows.flatMap (fun pc =>
          declaredRows ((mc.calculateCurrentCompensations db today).saveState db credit.obj)
            (.project pc.obj.project) pc.saved pc.obj.value) ++
        declaredRows ((mc.calculateCurrentCompensations db today).saveState db credit.obj)
          (.customer credit.obj.customer) credit.saved credit.obj.value := by
  have hu := h.untouched
  refine ⟨fun inv hinv => ?_, fun db' mc' hsave => ?_⟩
  · obtain ⟨⟨parts, hlookup, -, hsum⟩, hprojects⟩ := declared_sums (hu.accounted_calculate db today) hc hinv
    refine ⟨⟨parts, hlookup, hsum⟩, fun pc hpc => ?_⟩
    obtain ⟨parts, hlookup, -, hsum⟩ := hprojects pc hpc
    exact ⟨parts, hlookup, hsum⟩
  · have hsome : mc.credit ≠ none := by
      intro hnone
      rcases hu.calculate_cases db today with heq | ⟨credit₀, -, hc₀, -, -⟩
      · rw [heq, hnone] at hc
        cases hc
      · rw [hnone] at hc₀
        cases hc₀
    obtain ⟨hpool, hprojects⟩ := hu.declared hc
    obtain ⟨db₁, h₁, rfl, -⟩ := (save_eq_ok hsome hc).mp hsave
    obtain ⟨-, rfl⟩ := (saveProjectCredits_eq_ok rfl _ _ _).mp h₁
    show (Db.writeProjectCredits _ _ _ _).transactions ++ recordCreditTransaction _ _ _ _ _ = _
    rw [transactions_writeProjectCredits, createItems_transactions, record_eq_declaredRows hpool]
    congr 2
    refine List.flatMap_congr fun pc hpc => ?_
    exact record_eq_declaredRows (hprojects pc hpc)

/-- An allocation of 50 with a minimal consumption of 40, in an organization credit of 100 with one of 90; 30 are
used on the allocation and 45 outside of it. -/
def apportionedDb : Db :=
  sampleDb { customer := 1, value := 100, expectedConsumption := 90 }
    [{ project := ⟨10, 1⟩, value := 50, expectedConsumption := 40 }] (by simp)
    (sampleInvoice 1 10 ten_nonneg [(10, 30), (11, 45)])

/-- A run of which both balances are topped up to the minimal consumption. -/
def apportionedRun : MonthlyCompensation :=
  (MonthlyCompensation.init apportionedDb 1 (some 1)).calculateCurrentCompensations apportionedDb midJune

theorem apportionedRun_credit :
    apportionedRun.credit = some ⟨{ customer := 1, value := 10, expectedConsumption := 90 }, 100⟩ := by
  have hcredit : apportionedRun.credit.map (fun credit => (credit.obj, credit.saved)) =
      some ({ customer := 1, value := 10, expectedConsumption := 90 }, 100) := by decide +kernel
  obtain ⟨⟨obj, saved⟩, hc, hpair⟩ := Option.map_eq_some_iff.mp hcredit
  obtain ⟨rfl, rfl⟩ := Prod.mk.inj hpair
  exact hc

theorem ledgerParts_sample : ∃ parts,
    (apportionedRun.ledgerParts apportionedDb { customer := 1, value := 10, expectedConsumption := 90 }).lookup
      (.customer 1) = some parts ∧ (parts.map (·.amount)).sum = 10 - 100 :=
  ((ledgerParts_accepted (.init apportionedDb 1 (some 1)) apportionedDb midJune apportionedRun_credit).1
    (sampleInvoice 1 10 ten_nonneg [(10, 30), (11, 45)]) rfl).1

end MonthlyCompensation

end Waldur.Invoices
