import Mathlib
import Waldur.Marketplace.AnnualBilling

/-!
# Marketplace.AnnualRun — a resource billed month by month

A resource is created and the invoices of the following months are made, each with the first of its month.
The periods of an annual component are those of the anniversary months (`billMonths_periods`), and they are
the successive anniversary years exactly if the resource was created at midnight of the first of a month,
or no anniversary is reached.
-/

namespace Waldur.Marketplace

open Calendar Clock Invoices Relational Runs

/-! ## One invoice -/

/-- An item of a resource. -/
def isOf (resource : BilledResource) (it : InvoiceItem) : Bool := it.resource.any (fun r => r.id == resource.ref.id)

theorem isOf_iff {resource : BilledResource} {it : InvoiceItem} :
    isOf resource it = true ↔ ∃ r, it.resource = some r ∧ r.id = resource.ref.id := by
  unfold isOf
  cases it.resource <;> simp

theorem isOf_of_isFor {resource : BilledResource} {componentType : String} {it : InvoiceItem}
    (h : isFor resource.ref.id componentType it = true) : isOf resource it = true := (Bool.and_eq_true_iff.mp h).1

/-- The anniversary years that an invoice bills a component of a resource for, of a billable offering. -/
def chargedPeriods (resource : BilledResource) (pc : PlanComponent) (start : Instant) : List (Instant × Instant) :=
  if resource.billable then annualPeriods resource pc start else []

/-- **Where a resource is billed without an error**: where each of its components is. -/
def ResourceBills (org : Organization) (date : Instant) (orderType : Option OrderType) (resource : BilledResource) :
    Prop :=
  ∀ plan, resource.plan = some plan → resource.billable = true → ∀ pc ∈ plan.components,
    ComponentBills org resource plan pc date.date.year date.date.month date orderType

section Resource

variable {org : Organization} {resource : BilledResource} {inv : Invoice} {start stop : Instant}
variable {orderType : Option OrderType} {db db' : Db}

theorem isFor_pairwise (hr : resource ∈ org.resources) {plan : Plan} (hplan : resource.plan = some plan) :
    plan.components.Pairwise (fun a b => ∀ it, isFor resource.ref.id a.componentType it = true →
      isFor resource.ref.id b.componentType it = false) := by
  have hnodup := List.pairwise_map.mp (org.pricedOnce resource hr plan hplan)
  refine hnodup.imp fun {a b} hne it hit => ?_
  unfold isFor at *
  simp only [Bool.and_eq_true, beq_iff_eq, Bool.and_eq_false_iff, beq_eq_false_iff_ne] at *
  exact Or.inr fun h => hne (Option.some.inj (hit.2.symm.trans h))

theorem noneOn_isFor {invoice : ℕ} {componentType : String} (h : NoneOn invoice (isOf resource) db) :
    NoneOn invoice (isFor resource.ref.id componentType) db := by
  intro inv hinv it hit
  have hof := h inv hinv it hit
  unfold isOf at hof
  unfold isFor
  rw [hof, Bool.false_and]

/-- A resource that is not on the invoice yet. -/
theorem processResource_appends (hr : resource ∈ org.resources)
    (hinv : ∃ inv₀, db.invoices.get? inv.id = some inv₀ ∧ inv₀.customer = org.id)
    (hnone : NoneOn inv.id (isOf resource) db)
    (hok : processResource org inv start stop orderType db resource = .ok db') :
    ∃ new, Appends org.id inv.id new db db' ∧ (∀ it ∈ new, isOf resource it = true) ∧
      ∀ plan, resource.plan = some plan → ∀ pc ∈ plan.components, IsAnnual resource plan pc →
        (new.filter (isFor resource.ref.id pc.componentType)).map period = chargedPeriods resource pc start := by
  unfold processResource at hok
  cases hplan : resource.plan with
  | none =>
    rw [hplan] at hok
    obtain rfl := Except.ok.inj hok
    obtain ⟨inv₀, hinv, hcustomer⟩ := hinv
    exact ⟨[], Appends.refl hinv hcustomer, by simp, fun _ h => nomatch h⟩
  | some plan =>
    rw [hplan] at hok
    dsimp only at hok
    split at hok
    · next hbillable =>
      obtain rfl := Except.ok.inj hok
      obtain ⟨inv₀, hinv, hcustomer⟩ := hinv
      refine ⟨[], Appends.refl hinv hcustomer, by simp, fun _ _ pc _ _ => ?_⟩
      unfold chargedPeriods
      rw [if_neg (by simpa using hbillable)]
      rfl
    · next hbillable =>
      obtain ⟨new, happ, hkey, hperiods⟩ := foldlM_appends
        (K := fun pc it => isFor resource.ref.id pc.componentType it)
        (Q := fun pc new => IsAnnual resource plan pc → new.map period = annualPeriods resource pc start)
        (fun pc _ db db' hinv hnone hok => processComponent_appends (org.owned resource hr) hinv hnone hok)
        (isFor_pairwise hr hplan) hinv
        (fun pc _ => noneOn_isFor hnone) hok
      refine ⟨new, happ, fun it hit => ?_, fun plan' hplan' pc hpc hannual => ?_⟩
      · obtain ⟨pc, -, hfor⟩ := hkey it hit
        exact isOf_of_isFor hfor
      · obtain rfl := Option.some.inj hplan'
        unfold chargedPeriods
        rw [if_pos (by simpa using hbillable)]
        exact hperiods pc hpc hannual

theorem processResource_isOk (hyear : inv.year = start.date.year) (hmonth : inv.month = start.date.month) :
    (∃ db', processResource org inv start stop orderType db resource = .ok db') ↔
      ResourceBills org start orderType resource := by
  unfold processResource ResourceBills
  cases hplan : resource.plan with
  | none => exact ⟨fun _ _ h => (nomatch h), fun _ => ⟨_, rfl⟩⟩
  | some plan =>
    simp only [Option.some.injEq, forall_eq']
    split
    · next hbillable => exact ⟨fun _ h => by simp [h] at hbillable, fun _ => ⟨_, rfl⟩⟩
    · next hbillable =>
      have hbillable : resource.billable = true := by simpa using hbillable
      have hloop := foldlM_isOk (f := processComponent org resource plan inv start stop orderType) (s := db)
        (l := plan.components) (fun pc _ db => processComponent_isOk)
      rw [hloop, hyear, hmonth]
      exact ⟨fun h _ => h, fun h => h hbillable⟩

end Resource

/-- **Where an invoice is made without an error**: where each resource that it bills is. -/
def InvoiceBills (org : Organization) (date : Instant) (orderType : Option OrderType) : Prop :=
  ∀ resource ∈ org.billedResources, ResourceBills org date orderType resource

/-- The periods that the items of a component are for, over all invoices. -/
def billedPeriods (resource : BilledResource) (pc : PlanComponent) (db : Db) : List (Instant × Instant) :=
  (db.invoices.rows.flatMap (fun inv => inv.items.filter (isFor resource.ref.id pc.componentType))).map period

section Invoice

variable {org : Organization} {resource : BilledResource} {plan : Plan} {pc : PlanComponent} {date : Instant}
variable {orderType : Option OrderType} {db db' : Db} {inv : Invoice} {flag : Bool}

theorem isOf_pairwise : org.billedResources.Pairwise (fun a b => ∀ it, isOf a it = true → isOf b it = false) := by
  have hnodup := (List.pairwise_map.mp org.distinct).sublist
    (List.filter_sublist (p := fun r => !(r.state == .creating || r.state == .terminated) && r.billable))
  refine hnodup.imp fun {a b} hne it hit => ?_
  rw [Bool.eq_false_iff]
  intro hit'
  obtain ⟨r, hr, hid⟩ := isOf_iff.mp hit
  obtain ⟨r', hr', hid'⟩ := isOf_iff.mp hit'
  rw [hr] at hr'
  obtain rfl := Option.some.inj hr'
  exact hne (hid.symm.trans hid')

theorem mem_resources_of_billed (h : resource ∈ org.billedResources) : resource ∈ org.resources :=
  List.mem_of_mem_filter h

/-- The invoice of a new month holds the items of its resources, and each component is billed for its years. -/
theorem getOrCreateInvoice_new (hnew : org.findInvoice date db = none)
    (hr : resource ∈ org.resources) (hstate : resource.state ≠ .creating ∧ resource.state ≠ .terminated)
    (hplan : resource.plan = some plan) (hpc : pc ∈ plan.components) (hannual : IsAnnual resource plan pc)
    (hok : org.getOrCreateInvoice date orderType db = .ok (db', inv, flag)) :
    flag = true ∧ ∃ inv', db'.invoices.rows = db.invoices.rows ++ [inv'] ∧ inv'.customer = org.id ∧
      inv'.year = date.date.year ∧ inv'.month = date.date.month ∧
        billedPeriods resource pc db' = billedPeriods resource pc db ++ chargedPeriods resource pc date := by
  unfold Organization.getOrCreateInvoice at hok
  rw [hnew] at hok
  obtain ⟨billed, hloop, hok⟩ := bind_eq_ok.mp hok
  cases hok
  have hget : (db.invoices.insert (org.newInvoice date db) (get?_nextInvoice db)).get? (org.newInvoice date db).id =
      some (org.newInvoice date db) :=
    (Table.get?_insert db.invoices (org.newInvoice date db) (get?_nextInvoice db) _).trans (if_pos rfl)
  obtain ⟨new, happ, hkey, hQ⟩ := foldlM_appends (K := isOf)
    (Q := fun res new => ∀ plan, res.plan = some plan → ∀ pc ∈ plan.components, IsAnnual res plan pc →
      (new.filter (isFor res.ref.id pc.componentType)).map period = chargedPeriods res pc date)
    (fun res hres db db' hinv hnone hok => processResource_appends (mem_resources_of_billed hres) hinv hnone hok)
    isOf_pairwise ⟨_, hget, rfl⟩
    (fun res _ inv' hinv' it hit => by
      rw [hget] at hinv'
      obtain rfl := Option.some.inj hinv'
      exact absurd hit List.not_mem_nil) hloop
  obtain ⟨inv₀, inv', hinv₀, -, hrows, hitems, hid, hcustomer, hyear, hmonth⟩ := happ
  rw [hget] at hinv₀
  obtain rfl := Option.some.inj hinv₀
  -- The other invoices have other keys.
  have hrows : db'.invoices.rows = db.invoices.rows ++ [inv'] := by
    rw [hrows]
    show (db.invoices.rows ++ [org.newInvoice date db]).map _ = _
    rw [List.map_append, List.map_singleton, if_pos rfl]
    congr 1
    refine (List.map_congr_left fun i hi => ?_).trans (List.map_id _)
    exact if_neg (Table.get?_eq_none.mp (get?_nextInvoice db) i hi)
  have hperiods : (new.filter (isFor resource.ref.id pc.componentType)).map period = chargedPeriods resource pc date := by
    by_cases hbillable : resource.billable = true
    · have hmem : resource ∈ org.billedResources := List.mem_filter.mpr ⟨hr, by simp [hstate, hbillable]⟩
      have hsub : (new.filter (isOf resource)).filter (isFor resource.ref.id pc.componentType) =
          new.filter (isFor resource.ref.id pc.componentType) := by
        rw [List.filter_filter]
        refine List.filter_congr fun it _ => ?_
        cases hfor : isFor resource.ref.id pc.componentType it with
        | false => rfl
        | true => rw [isOf_of_isFor hfor]; rfl
      rw [← hsub]
      exact hQ resource hmem plan hplan pc hpc hannual
    · have hnil : new.filter (isFor resource.ref.id pc.componentType) = [] := by
        refine List.filter_eq_nil_iff.mpr fun it hit hfor => ?_
        obtain ⟨res, hres, hof⟩ := hkey it hit
        have hof' := isOf_of_isFor hfor
        have hid : res.ref.id = resource.ref.id := by
          obtain ⟨r, hr, hid⟩ := isOf_iff.mp hof
          obtain ⟨r', hr', hid'⟩ := isOf_iff.mp hof'
          rw [hr] at hr'
          obtain rfl := Option.some.inj hr'
          exact hid.symm.trans hid'
        have heq := List.inj_on_of_nodup_map org.distinct (mem_resources_of_billed hres) hr hid
        have := (List.mem_filter.mp hres).2
        rw [heq] at this
        simp [hbillable] at this
      unfold chargedPeriods
      rw [hnil, if_neg hbillable]
      rfl
  refine ⟨rfl, inv', hrows, hcustomer, hyear, hmonth, ?_⟩
  unfold billedPeriods
  rw [hrows, List.flatMap_append, List.map_append, List.flatMap_singleton, hitems]
  show _ ++ (([] ++ new).filter _).map period = _
  rw [List.nil_append, hperiods]

theorem getOrCreateInvoice_isOk (hnew : org.findInvoice date db = none) :
    (∃ r, org.getOrCreateInvoice date orderType db = .ok r) ↔ InvoiceBills org date orderType := by
  have hloop := foldlM_isOk (f := processResource org (org.newInvoice date db) date (monthEnd date) orderType)
    (s := { db with invoices := db.invoices.insert (org.newInvoice date db) (get?_nextInvoice db) })
    (l := org.billedResources) (fun resource _ db => processResource_isOk rfl rfl)
  unfold InvoiceBills
  rw [← hloop]
  unfold Organization.getOrCreateInvoice
  rw [hnew]
  constructor
  · rintro ⟨r, hok⟩
    obtain ⟨billed, hbilled, -⟩ := bind_eq_ok.mp hok
    exact ⟨billed, hbilled⟩
  · rintro ⟨billed, hbilled⟩
    exact ⟨_, bind_eq_ok.mpr ⟨billed, hbilled, rfl⟩⟩

end Invoice

/-! ## The months after a creation -/

/-- The first of the `k`-th month after an instant, at midnight. -/
def firstOfMonthAfter (t : Instant) (k : ℕ) : Instant := midnight (t.date.replaceDayOne.addMonths k)

/-- Midnight of the first of a month. -/
def AtMonthStart (t : Instant) : Prop := t.date.day = 1 ∧ timeOfDay t = 0

instance (t : Instant) : Decidable (AtMonthStart t) := inferInstanceAs (Decidable (_ ∧ _))

/-- **The anniversary year** that begins `k` years after an instant. -/
def anniversaryYear (c : Instant) (k : ℕ) : Instant × Instant :=
  (addMonths c (12 * k), addMonths c (12 * (k + 1)) - second)

section Months

variable {c : Instant} {k : ℕ}

theorem one_le_year_addMonths (c : Instant) (k : ℕ) : 1 ≤ (c.date.replaceDayOne.addMonths k).year := by
  have hone := one_le_year_date c
  show 1 ≤ (c.date.year * 12 + (c.date.month - 1) + k) / 12
  omega

theorem date_firstOfMonthAfter (c : Instant) (k : ℕ) :
    (firstOfMonthAfter c k).date = c.date.replaceDayOne.addMonths k := by
  have h := date_midnight_add (x := 0) (one_le_year_addMonths c k) (by
    unfold dayLength
    omega)
  rw [add_zero] at h
  exact h

/-- Months since year 0. -/
theorem month_firstOfMonthAfter (c : Instant) (k : ℕ) :
    (firstOfMonthAfter c k).date.year * 12 + (firstOfMonthAfter c k).date.month =
      c.date.year * 12 + c.date.month + k := by
  have hmonth := c.date.month_valid
  rw [date_firstOfMonthAfter]
  show (c.date.year * 12 + (c.date.month - 1) + k) / 12 * 12 +
    ((c.date.year * 12 + (c.date.month - 1) + k) % 12 + 1) = _
  omega

theorem anniversaryMonth_iff : (firstOfMonthAfter c k).date.month = c.date.month ↔ 12 ∣ k := by
  have hmonth := c.date.month_valid
  rw [date_firstOfMonthAfter]
  show (c.date.year * 12 + (c.date.month - 1) + k) % 12 + 1 = c.date.month ↔ _
  omega

theorem year_firstOfMonthAfter (c : Instant) (j : ℕ) : (firstOfMonthAfter c (12 * j)).date.year = c.date.year + j := by
  have hmonth := c.date.month_valid
  rw [date_firstOfMonthAfter]
  show (c.date.year * 12 + (c.date.month - 1) + 12 * j) / 12 = _
  omega

theorem addMonths_years (h : ¬ IsLeapDay c) (j : ℕ) : addMonths c (12 * j) = anniversary h (c.date.year + j) := by
  have hmonth := c.date.month_valid
  have hdate : c.date.addMonths (12 * j) = anniversaryDate h (c.date.year + j) := by
    have hyear : (c.date.year * 12 + (c.date.month - 1) + 12 * j) / 12 = c.date.year + j := by omega
    have hmod : (c.date.year * 12 + (c.date.month - 1) + 12 * j) % 12 + 1 = c.date.month := by omega
    unfold Date.addMonths anniversaryDate
    simp only [Date.mk.injEq, hyear, hmod, true_and]
    exact min_eq_left (day_le_monthDays h _)
  unfold addMonths anniversary
  rw [hdate]

theorem anniversaryYear_eq (h : ¬ IsLeapDay c) (k : ℕ) : anniversaryYear c k =
    (anniversary h (c.date.year + k), anniversary h (c.date.year + k + 1) - second) := by
  unfold anniversaryYear
  rw [addMonths_years h, addMonths_years h, Nat.add_assoc]

/-- Later anniversaries come later. -/
theorem anniversary_lt (h : ¬ IsLeapDay c) {y y' : ℕ} (hy : 1 ≤ y) (hlt : y < y') : anniversary h y < anniversary h y' := by
  have hord : (anniversaryDate h y).toOrdinal < (anniversaryDate h y').toOrdinal :=
    Date.toOrdinal_lt_of_lt hy (Or.inl hlt)
  show @LT.lt ℤ _ ((((anniversaryDate h y).toOrdinal : ℤ) - epochOrdinal) * dayLength + timeOfDay c)
    ((((anniversaryDate h y').toOrdinal : ℤ) - epochOrdinal) * dayLength + timeOfDay c)
  unfold dayLength
  omega

/-- The time from the first of a month to the anniversary in it. -/
theorem anniversary_eq_add (h : ¬ IsLeapDay c) (j : ℕ) : anniversary h (c.date.year + j) =
    firstOfMonthAfter c (12 * j) + (((c.date.day : ℤ) - 1) * dayLength + timeOfDay c) := by
  have hfirst : c.date.replaceDayOne.addMonths (12 * j) =
      ⟨c.date.year + j, c.date.month, 1, c.date.month_valid, le_refl 1, one_le_monthDays _ _⟩ := by
    have hmonth := c.date.month_valid
    have hyear : (c.date.year * 12 + (c.date.month - 1) + 12 * j) / 12 = c.date.year + j := by omega
    have hmod : (c.date.year * 12 + (c.date.month - 1) + 12 * j) % 12 + 1 = c.date.month := by omega
    unfold Date.addMonths Date.replaceDayOne
    simp only [Date.mk.injEq, hyear, hmod, true_and]
    exact min_eq_left (one_le_monthDays _ _)
  unfold anniversary firstOfMonthAfter
  rw [hfirst]
  unfold midnight anniversaryDate Date.toOrdinal
  push_cast
  ring

theorem firstOfMonthAfter_lt_iff (h : ¬ IsLeapDay c) (j : ℕ) :
    firstOfMonthAfter c (12 * j) < anniversary h (c.date.year + j) ↔ ¬ AtMonthStart c := by
  have hday := c.date.day_valid.1
  have htime := timeOfDay_bounds c
  rw [anniversary_eq_add h]
  show @LT.lt ℤ _ (firstOfMonthAfter c (12 * j))
    (firstOfMonthAfter c (12 * j) + (((c.date.day : ℤ) - 1) * dayLength + timeOfDay c)) ↔ _
  unfold AtMonthStart dayLength at *
  omega

theorem anniversary_zero (h : ¬ IsLeapDay c) (hc : InCalendar c) : anniversary h c.date.year = c := by
  have hord := toOrdinal_date hc
  obtain ⟨heq, -, -⟩ := day_timeOfDay c
  show ((c.date.toOrdinal : ℤ) - epochOrdinal) * dayLength + timeOfDay c = c
  rw [hord]
  unfold epochOrdinal dayLength at *
  omega

end Months

/-! ## The run -/

/-- A resource created, and the invoices of the next `n` months made. -/
def Organization.billMonths (org : Organization) (resource : BilledResource) (db : Db) : ℕ → Except BillingError Db
  | 0 => org.register resource resource.created .create db
  | n + 1 => do
    let db ← org.billMonths resource db n
    let billed ← org.getOrCreateInvoice (firstOfMonthAfter resource.created (n + 1)) none db
    .ok billed.1

/-- A resource before its creation is billed: it has no items, and the organization no invoice of a later month. -/
structure BeforeCreation (org : Organization) (resource : BilledResource) (db : Db) : Prop where
  notBilled : ∀ inv ∈ db.invoices.rows, ∀ it ∈ inv.items, isOf resource it = false
  noLater : ∀ inv ∈ db.invoices.rows, inv.customer = org.id →
    inv.year * 12 + inv.month ≤ resource.created.date.year * 12 + resource.created.date.month

/-- The component has a limit that is billed. -/
def IsBilledFor (resource : BilledResource) (pc : PlanComponent) : Prop :=
  resource.billable = true ∧ (billableLimit resource pc.componentType).isSome = true

/-- **Where nothing raises** in the run: the creation on the invoice of its month, or on a new one with all
resources, and each invoice after it. -/
def RunBills (org : Organization) (resource : BilledResource) (db : Db) (n : ℕ) : Prop :=
  (if (org.findInvoice resource.created db).isSome then ResourceBills org resource.created (some .create) resource
    else InvoiceBills org resource.created (some .create)) ∧
      ∀ k < n, InvoiceBills org (firstOfMonthAfter resource.created (k + 1)) none

/-- **Billed once a year**: nothing raises, no two periods overlap, the `k`-th one is the anniversary year `k`
years after the creation, and there is one for each anniversary reached. -/
def BilledYearly (org : Organization) (resource : BilledResource) (pc : PlanComponent) (db : Db) (n : ℕ) : Prop :=
  ∃ db', org.billMonths resource db n = .ok db' ∧
    (billedPeriods resource pc db').Pairwise (fun p q => p.2 < q.1 ∨ q.2 < p.1) ∧
      (∀ k p, (billedPeriods resource pc db')[k]? = some p → p = anniversaryYear resource.created k) ∧
        (IsBilledFor resource pc → (billedPeriods resource pc db').length = n / 12 + 1)

/-- The periods of a component after `n` months. -/
def periodsAfter (resource : BilledResource) (pc : PlanComponent) (n : ℕ) : List (Instant × Instant) :=
  chargedPeriods resource pc resource.created ++
    (List.range n).flatMap (fun k => chargedPeriods resource pc (firstOfMonthAfter resource.created (k + 1)))

section Run

variable {org : Organization} {resource : BilledResource} {plan : Plan} {pc : PlanComponent} {db db' : Db} {n : ℕ}

theorem periodsAfter_succ : periodsAfter resource pc (n + 1) =
    periodsAfter resource pc n ++ chargedPeriods resource pc (firstOfMonthAfter resource.created (n + 1)) := by
  unfold periodsAfter
  rw [List.range_succ, List.flatMap_append, List.flatMap_singleton, List.append_assoc]

/-- Where a component was not billed before, what an invoice gains is all that is billed. -/
theorem billedPeriods_of_appends {customer invoice : ℕ} {new : List InvoiceItem} (h : Appends customer invoice new db db')
    (hnone : ∀ inv ∈ db.invoices.rows, ∀ it ∈ inv.items, isFor resource.ref.id pc.componentType it = false) :
    billedPeriods resource pc db' = (new.filter (isFor resource.ref.id pc.componentType)).map period := by
  obtain ⟨inv, inv', hinv, -, hrows, hitems, -⟩ := h
  obtain ⟨l₁, l₂, hl, hkey, h₁, h₂⟩ := Table.rows_split hinv
  have hkeep : ∀ l : List Invoice, (∀ i ∈ l, i.id ≠ invoice) → l.map (fun i => if i.id = invoice then inv' else i) = l :=
    fun l hne => (List.map_congr_left fun i hi => if_neg (hne i hi)).trans (List.map_id l)
  have hnil : ∀ l : List Invoice, (∀ i ∈ l, i ∈ db.invoices.rows) →
      l.flatMap (fun i => i.items.filter (isFor resource.ref.id pc.componentType)) = [] := by
    intro l hl
    refine List.flatMap_eq_nil_iff.mpr fun i hi => List.filter_eq_nil_iff.mpr fun it hit hfor => ?_
    simp [hnone i (hl i hi) it hit] at hfor
  have hold : inv.items.filter (isFor resource.ref.id pc.componentType) = [] :=
    List.filter_eq_nil_iff.mpr fun it hit hfor => by
      simp [hnone inv (Table.get?_eq_some.mp hinv).1 it hit] at hfor
  unfold billedPeriods
  rw [hrows, hl, List.map_append, List.map_cons, if_pos hkey, hkeep l₁ h₁, hkeep l₂ h₂, List.flatMap_append,
    List.flatMap_cons, hitems, List.filter_append, hold,
    hnil l₁ (fun i hi => by rw [hl]; exact List.mem_append_left _ hi),
    hnil l₂ (fun i hi => by rw [hl]; exact List.mem_append_right _ (List.mem_cons_of_mem _ hi)),
    List.nil_append, List.nil_append, List.append_nil]

theorem findInvoice_some {date : Instant} {inv : Invoice} (h : org.findInvoice date db = some inv) :
    inv ∈ db.invoices.rows ∧ inv.customer = org.id ∧ inv.year = date.date.year ∧ inv.month = date.date.month := by
  have hp := List.find?_some h
  simp only [Bool.and_eq_true, beq_iff_eq] at hp
  exact ⟨List.mem_of_find?_eq_some h, hp.1.1, hp.1.2, hp.2⟩

/-- A month after all invoices has none. -/
theorem findInvoice_later {date : Instant} {bound : ℕ} (hlater : bound < date.date.year * 12 + date.date.month)
    (h : ∀ inv ∈ db.invoices.rows, inv.customer = org.id → inv.year * 12 + inv.month ≤ bound) :
    org.findInvoice date db = none := by
  cases hfind : org.findInvoice date db with
  | none => rfl
  | some inv =>
    obtain ⟨hmem, hcustomer, hyear, hmonth⟩ := findInvoice_some hfind
    have := h inv hmem hcustomer
    rw [hyear, hmonth] at this
    omega

/-- The creation bills the first period. -/
theorem register_periods (hdb : BeforeCreation org resource db) (hr : resource ∈ org.resources)
    (hstate : resource.state = .ok) (hplan : resource.plan = some plan) (hpc : pc ∈ plan.components)
    (hannual : IsAnnual resource plan pc) (hok : org.register resource resource.created .create db = .ok db') :
    (∀ inv ∈ db'.invoices.rows, inv.customer = org.id →
      inv.year * 12 + inv.month ≤ resource.created.date.year * 12 + resource.created.date.month) ∧
        billedPeriods resource pc db' = chargedPeriods resource pc resource.created := by
  have hnone : ∀ inv ∈ db.invoices.rows, ∀ it ∈ inv.items, isFor resource.ref.id pc.componentType it = false := by
    intro inv hinv it hit
    cases hfor : isFor resource.ref.id pc.componentType it with
    | false => rfl
    | true => exact absurd (isOf_of_isFor hfor) (by simp [hdb.notBilled inv hinv it hit])
  unfold Organization.register at hok
  obtain ⟨⟨db₁, inv, flag⟩, hinvoice, hok⟩ := bind_eq_ok.mp hok
  dsimp only at hok
  cases hfind : org.findInvoice resource.created db with
  | none =>
    obtain ⟨rfl, inv', hrows, hcustomer, hyear, hmonth, hperiods⟩ := getOrCreateInvoice_new hfind hr
      (by simp [hstate]) hplan hpc hannual hinvoice
    rw [if_pos rfl] at hok
    obtain rfl := Except.ok.inj hok
    have hnil : billedPeriods resource pc db = [] := by
      unfold billedPeriods
      refine List.map_eq_nil_iff.mpr (List.flatMap_eq_nil_iff.mpr fun i hi => ?_)
      exact List.filter_eq_nil_iff.mpr fun it hit hfor => by simp [hnone i hi it hit] at hfor
    refine ⟨fun i hi hc => ?_, by rw [hperiods, hnil, List.nil_append]⟩
    rw [hrows] at hi
    rcases List.mem_append.mp hi with hi | hi
    · exact hdb.noLater i hi hc
    · rw [List.mem_singleton.mp hi, hyear, hmonth]
  | some inv₀ =>
    obtain ⟨hmem, hcustomer, hyear, hmonth⟩ := findInvoice_some hfind
    unfold Organization.getOrCreateInvoice at hinvoice
    rw [hfind] at hinvoice
    cases hinvoice
    rw [if_neg (by simp)] at hok
    have hget : db.invoices.get? inv.id = some inv := Table.get?_eq_some.mpr ⟨hmem, rfl⟩
    obtain ⟨new, happ, -, hperiods⟩ := processResource_appends hr ⟨inv, hget, hcustomer⟩
      (fun inv' hinv' it hit => hdb.notBilled inv' (Table.get?_eq_some.mp hinv').1 it hit) hok
    refine ⟨fun i hi hc => ?_, ?_⟩
    · obtain ⟨inv₁, inv', hinv₁, -, hrows, -, -, hcust', hyear', hmonth'⟩ := happ
      obtain ⟨hmem₁, -⟩ := Table.get?_eq_some.mp hinv₁
      rw [hrows] at hi
      obtain ⟨i₀, hi₀, rfl⟩ := List.mem_map.mp hi
      by_cases hid : i₀.id = inv.id
      · rw [if_pos hid] at hc ⊢
        rw [hyear', hmonth']
        exact hdb.noLater inv₁ hmem₁ (hcust'.symm.trans hc)
      · rw [if_neg hid] at hc ⊢
        exact hdb.noLater i₀ hi₀ hc
    · rw [billedPeriods_of_appends happ hnone]
      exact hperiods plan hplan pc hpc hannual

/-- **The periods of a run**: those of its months, one after the other. -/
theorem billMonths_periods (hdb : BeforeCreation org resource db) (hr : resource ∈ org.resources)
    (hstate : resource.state = .ok) (hplan : resource.plan = some plan) (hpc : pc ∈ plan.components)
    (hannual : IsAnnual resource plan pc) : ∀ {n : ℕ} {db' : Db}, org.billMonths resource db n = .ok db' →
      (∀ inv ∈ db'.invoices.rows, inv.customer = org.id →
        inv.year * 12 + inv.month ≤ resource.created.date.year * 12 + resource.created.date.month + n) ∧
          billedPeriods resource pc db' = periodsAfter resource pc n
  | 0, db', hok => by
    have h := register_periods hdb hr hstate hplan hpc hannual hok
    unfold periodsAfter
    rw [List.range_zero, List.flatMap_nil, List.append_nil]
    exact h
  | n + 1, db', hok => by
    obtain ⟨db₁, hok₁, hok⟩ := bind_eq_ok.mp hok
    obtain ⟨⟨db₂, inv, flag⟩, hinvoice, hok⟩ := bind_eq_ok.mp hok
    obtain rfl := Except.ok.inj hok
    obtain ⟨hlater, hperiods⟩ := billMonths_periods hdb hr hstate hplan hpc hannual hok₁
    have hmonth := month_firstOfMonthAfter resource.created (n + 1)
    have hfind : org.findInvoice (firstOfMonthAfter resource.created (n + 1)) db₁ = none :=
      findInvoice_later (by omega) hlater
    obtain ⟨-, inv', hrows, -, hyear', hmonth', hnew⟩ := getOrCreateInvoice_new hfind hr (by simp [hstate]) hplan hpc
      hannual hinvoice
    refine ⟨fun i hi hc => ?_, ?_⟩
    · rw [hrows] at hi
      rcases List.mem_append.mp hi with hi | hi
      · exact (hlater i hi hc).trans (by omega)
      · rw [List.mem_singleton.mp hi, hyear', hmonth', hmonth]
    · rw [hnew, hperiods, periodsAfter_succ]

theorem register_isOk : (∃ db', org.register resource resource.created .create db = .ok db') ↔
    if (org.findInvoice resource.created db).isSome then ResourceBills org resource.created (some .create) resource
    else InvoiceBills org resource.created (some .create) := by
  unfold Organization.register
  cases hfind : org.findInvoice resource.created db with
  | none =>
    rw [if_neg (by simp), ← getOrCreateInvoice_isOk hfind]
    constructor
    · rintro ⟨db', hok⟩
      obtain ⟨r, hr, -⟩ := bind_eq_ok.mp hok
      exact ⟨r, hr⟩
    · rintro ⟨⟨db', inv, flag⟩, hok⟩
      have hflag : flag = true := by
        unfold Organization.getOrCreateInvoice at hok
        rw [hfind] at hok
        obtain ⟨billed, -, hok⟩ := bind_eq_ok.mp hok
        cases hok
        rfl
      refine ⟨db', bind_eq_ok.mpr ⟨_, hok, ?_⟩⟩
      exact if_pos hflag
  | some inv =>
    obtain ⟨-, -, hyear, hmonth⟩ := findInvoice_some hfind
    have hinvoice : org.getOrCreateInvoice resource.created (some .create) db = .ok (db, inv, false) := by
      unfold Organization.getOrCreateInvoice
      rw [hfind]
    rw [if_pos (by simp), hinvoice, ← processResource_isOk hyear hmonth]
    exact Iff.rfl

theorem billMonths_isOk (hdb : BeforeCreation org resource db) (hr : resource ∈ org.resources)
    (hstate : resource.state = .ok) (hplan : resource.plan = some plan) (hpc : pc ∈ plan.components)
    (hannual : IsAnnual resource plan pc) : ∀ n, (∃ db', org.billMonths resource db n = .ok db') ↔
      RunBills org resource db n
  | 0 => by
    unfold RunBills
    rw [← register_isOk]
    exact ⟨fun h => ⟨h, nofun⟩, fun h => h.1⟩
  | n + 1 => by
    have ih := billMonths_isOk hdb hr hstate hplan hpc hannual n
    have hstep : ∀ {db₁ : Db}, org.billMonths resource db n = .ok db₁ →
        ((∃ r, org.getOrCreateInvoice (firstOfMonthAfter resource.created (n + 1)) none db₁ = .ok r) ↔
          InvoiceBills org (firstOfMonthAfter resource.created (n + 1)) none) := by
      intro db₁ hok₁
      have hmonth := month_firstOfMonthAfter resource.created (n + 1)
      obtain ⟨hlater, -⟩ := billMonths_periods hdb hr hstate hplan hpc hannual hok₁
      exact getOrCreateInvoice_isOk (findInvoice_later (by omega) hlater)
    have hsplit : RunBills org resource db (n + 1) ↔
        RunBills org resource db n ∧ InvoiceBills org (firstOfMonthAfter resource.created (n + 1)) none := by
      unfold RunBills
      rw [Nat.forall_lt_succ_right, and_assoc]
    rw [hsplit, ← ih]
    constructor
    · rintro ⟨db', hok⟩
      obtain ⟨db₁, hok₁, hok⟩ := bind_eq_ok.mp hok
      obtain ⟨r, hr, -⟩ := bind_eq_ok.mp hok
      exact ⟨⟨db₁, hok₁⟩, (hstep hok₁).mp ⟨r, hr⟩⟩
    · rintro ⟨⟨db₁, hok₁⟩, hbills⟩
      obtain ⟨r, hr⟩ := (hstep hok₁).mpr hbills
      exact ⟨_, bind_eq_ok.mpr ⟨db₁, hok₁, bind_eq_ok.mpr ⟨r, hr, rfl⟩⟩⟩

end Run

/-! ## The periods in closed form -/

section Periods

variable {resource : BilledResource} {pc : PlanComponent} {n : ℕ}

theorem chargedPeriods_eq_nil (h : ¬ IsBilledFor resource pc) (start : Instant) : chargedPeriods resource pc start = [] := by
  unfold IsBilledFor at h
  unfold chargedPeriods annualPeriods
  split
  · next hbillable =>
    have hlimit : (billableLimit resource pc.componentType).isSome = false := by
      rw [Bool.eq_false_iff]
      exact fun hlimit => h ⟨hbillable, hlimit⟩
    rw [hlimit, Bool.and_false]
    rfl
  · rfl

theorem chargedPeriods_eq (h : IsBilledFor resource pc) (start : Instant) : chargedPeriods resource pc start =
    if start.date.month = resource.created.date.month then
      (getBillingPeriod (some .annual) start resource.created).toOption.toList else [] := by
  unfold chargedPeriods annualPeriods shouldProcessBilling
  rw [if_pos h.1, h.2, Bool.and_true]
  by_cases hmonth : start.date.month = resource.created.date.month
  · rw [if_pos hmonth, if_pos (by simpa using hmonth)]
  · rw [if_neg hmonth, if_neg (by simpa using hmonth)]

theorem chargedPeriods_created (h : IsBilledFor resource pc) (hleap : ¬ IsLeapDay resource.created)
    (hc : InCalendar resource.created) :
    chargedPeriods resource pc resource.created = [anniversaryYear resource.created 0] := by
  have hzero := anniversary_zero hleap hc
  have hnot : ¬ resource.created < anniversary hleap resource.created.date.year := by
    rw [hzero]
    exact lt_irrefl _
  have hbilled : billedYear hleap resource.created = resource.created.date.year := if_neg hnot
  rw [chargedPeriods_eq h, if_pos rfl, getBillingPeriod_annual hleap (fun hlt => absurd hlt hnot), hbilled,
    anniversaryYear_eq hleap]
  rfl

/-- In an anniversary month, the year that begins in it, or the one that ends in it. -/
theorem chargedPeriods_month (h : IsBilledFor resource pc) (hleap : ¬ IsLeapDay resource.created) (j : ℕ) :
    chargedPeriods resource pc (firstOfMonthAfter resource.created (12 * (j + 1))) =
      [anniversaryYear resource.created (if AtMonthStart resource.created then j + 1 else j)] := by
  have hone := one_le_year_date resource.created
  have hyear := year_firstOfMonthAfter resource.created (j + 1)
  have hlt := firstOfMonthAfter_lt_iff hleap (j + 1)
  have hbilled : billedYear hleap (firstOfMonthAfter resource.created (12 * (j + 1))) =
      resource.created.date.year + if AtMonthStart resource.created then j + 1 else j := by
    unfold billedYear
    rw [hyear]
    by_cases hstart : AtMonthStart resource.created
    · rw [if_pos hstart, if_neg fun h' => hlt.mp h' hstart]
    · rw [if_neg hstart, if_pos (hlt.mpr hstart)]
      omega
  rw [chargedPeriods_eq h, if_pos (anniversaryMonth_iff.mpr ⟨j + 1, rfl⟩),
    getBillingPeriod_annual hleap (fun _ => by rw [hyear]; omega), hbilled, anniversaryYear_eq hleap]
  rfl

theorem flatMap_multiples {β : Type} (f : ℕ → List β) (g : ℕ → β) (h : ∀ k, ¬ 12 ∣ k + 1 → f k = [])
    (h' : ∀ j k, k + 1 = 12 * (j + 1) → f k = [g j]) : ∀ n, (List.range n).flatMap f = (List.range (n / 12)).map g
  | 0 => rfl
  | n + 1 => by
    rw [List.range_succ, List.flatMap_append, List.flatMap_singleton, flatMap_multiples f g h h' n, Nat.succ_div]
    by_cases hdvd : 12 ∣ n + 1
    · rw [if_pos hdvd, List.range_succ, List.map_append, List.map_singleton, h' (n / 12) n (by omega)]
    · rw [if_neg hdvd, h n hdvd, List.append_nil, Nat.add_zero]

/-- **What is billed**: the first year, and in each anniversary month the next one, or the last one. -/
theorem periodsAfter_eq (h : IsBilledFor resource pc) (hleap : ¬ IsLeapDay resource.created)
    (hc : InCalendar resource.created) (n : ℕ) : periodsAfter resource pc n =
      anniversaryYear resource.created 0 :: (List.range (n / 12)).map (fun j =>
        anniversaryYear resource.created (if AtMonthStart resource.created then j + 1 else j)) := by
  unfold periodsAfter
  rw [chargedPeriods_created h hleap hc, List.singleton_append]
  congr 1
  refine flatMap_multiples _ _ (fun k hdvd => ?_) (fun j k hk => ?_) n
  · rw [chargedPeriods_eq h, if_neg fun hmonth => hdvd (anniversaryMonth_iff.mp hmonth)]
  · rw [hk]
    exact chargedPeriods_month h hleap j

theorem periodsAfter_eq_nil (h : ¬ IsBilledFor resource pc) (n : ℕ) : periodsAfter resource pc n = [] := by
  unfold periodsAfter
  rw [chargedPeriods_eq_nil h, List.nil_append]
  exact List.flatMap_eq_nil_iff.mpr fun k _ => chargedPeriods_eq_nil h _

/-- Successive anniversary years do not overlap. -/
theorem anniversaryYear_disjoint {c : Instant} (hleap : ¬ IsLeapDay c) {j k : ℕ} (h : j < k) :
    (anniversaryYear c j).2 < (anniversaryYear c k).1 := by
  have hone := one_le_year_date c
  rw [anniversaryYear_eq hleap, anniversaryYear_eq hleap]
  have hle : anniversary hleap (c.date.year + j + 1) ≤ anniversary hleap (c.date.year + k) := by
    rcases Nat.lt_or_ge (j + 1) k with hlt | hge
    · exact (anniversary_lt hleap (by omega) (by omega)).le
    · rw [show c.date.year + j + 1 = c.date.year + k by omega]
  refine lt_of_lt_of_le ?_ hle
  show @LT.lt ℤ _ (anniversary hleap (c.date.year + j + 1) - 1000000) (anniversary hleap (c.date.year + j + 1))
  omega

end Periods

/-! ## The anniversary years -/

section Main

variable {org : Organization} {resource : BilledResource} {plan : Plan} {pc : PlanComponent} {db : Db} {n : ℕ}

/-- A run that raises nowhere is not one of a resource created on 29 February. -/
theorem not_isLeapDay_of_runBills (hr : resource ∈ org.resources) (hstate : resource.state = .ok)
    (hplan : resource.plan = some plan) (hpc : pc ∈ plan.components) (hannual : IsAnnual resource plan pc)
    (hbillable : resource.billable = true) (h : RunBills org resource db n) : ¬ IsLeapDay resource.created := by
  have hcreation : ResourceBills org resource.created (some .create) resource := by
    have hfirst := h.1
    split at hfirst
    · exact hfirst
    · exact hfirst resource (List.mem_filter.mpr ⟨hr, by simp [hstate, hbillable]⟩)
  obtain ⟨component, hcomponent, hlimit, hperiod⟩ := hannual
  have hbills := hcreation plan hplan hbillable pc hpc component hcomponent
  dsimp only at hbills
  rw [if_pos hlimit] at hbills
  obtain ⟨hleap, -⟩ := hbills hperiod rfl
  exact hleap

/-- Created within a month, and one anniversary reached: the first year is billed again. -/
theorem not_billedYearly (hdb : BeforeCreation org resource db) (hr : resource ∈ org.resources)
    (hstate : resource.state = .ok) (hplan : resource.plan = some plan) (hpc : pc ∈ plan.components)
    (hannual : IsAnnual resource plan pc) (hc : InCalendar resource.created) (hbilled : IsBilledFor resource pc)
    (hstart : ¬ AtMonthStart resource.created) (hn : 12 ≤ n) : ¬ BilledYearly org resource pc db n := by
  rintro ⟨db', hok, -, hyears, -⟩
  have hruns := (billMonths_isOk hdb hr hstate hplan hpc hannual n).mp ⟨db', hok⟩
  have hleap := not_isLeapDay_of_runBills hr hstate hplan hpc hannual hbilled.1 hruns
  obtain ⟨-, hperiods⟩ := billMonths_periods hdb hr hstate hplan hpc hannual hok
  have hsecond : (billedPeriods resource pc db')[1]? = some (anniversaryYear resource.created 0) := by
    obtain ⟨m, hm⟩ : ∃ m, n / 12 = m + 1 := ⟨n / 12 - 1, by omega⟩
    rw [hperiods, periodsAfter_eq hbilled hleap hc, hm, List.range_succ_eq_map]
    simp [hstart]
  have hlt := anniversary_lt hleap (one_le_year_date resource.created) (Nat.lt_succ_self resource.created.date.year)
  have heq := congrArg Prod.fst (hyears 1 _ hsecond)
  rw [anniversaryYear_eq hleap, anniversaryYear_eq hleap] at heq
  exact absurd heq hlt.ne

/-- **An annual component is billed once a year** exactly where nothing raises and, if it has a limit to bill,
the run does not reach an anniversary or the resource was created at midnight of the first of a month. -/
theorem billedYearly_iff (hdb : BeforeCreation org resource db) (hr : resource ∈ org.resources)
    (hstate : resource.state = .ok) (hplan : resource.plan = some plan) (hpc : pc ∈ plan.components)
    (hannual : IsAnnual resource plan pc) (hc : InCalendar resource.created) (n : ℕ) :
    BilledYearly org resource pc db n ↔
      RunBills org resource db n ∧ (IsBilledFor resource pc → n < 12 ∨ AtMonthStart resource.created) := by
  constructor
  · intro h
    have hok : ∃ db', org.billMonths resource db n = .ok db' := h.imp fun _ hdb' => hdb'.1
    refine ⟨(billMonths_isOk hdb hr hstate hplan hpc hannual n).mp hok, fun hbilled => ?_⟩
    by_contra hnot
    rw [not_or, not_lt] at hnot
    exact not_billedYearly hdb hr hstate hplan hpc hannual hc hbilled hnot.2 hnot.1 h
  · rintro ⟨hruns, hstart⟩
    obtain ⟨db', hok⟩ := (billMonths_isOk hdb hr hstate hplan hpc hannual n).mpr hruns
    obtain ⟨-, hperiods⟩ := billMonths_periods hdb hr hstate hplan hpc hannual hok
    refine ⟨db', hok, ?_⟩
    rw [hperiods]
    by_cases hbilled : IsBilledFor resource pc
    · have hleap := not_isLeapDay_of_runBills hr hstate hplan hpc hannual hbilled.1 hruns
      -- Under either alternative the periods are the anniversary years, one after the other.
      have hyears : periodsAfter resource pc n =
          (List.range (n / 12 + 1)).map (anniversaryYear resource.created) := by
        rw [periodsAfter_eq hbilled hleap hc, List.range_succ_eq_map, List.map_cons, List.map_map]
        refine congrArg _ (List.map_congr_left fun j hj => ?_)
        rcases hstart hbilled with hn | hstart
        · have := List.mem_range.mp hj
          omega
        · rw [if_pos hstart]
          rfl
      rw [hyears]
      refine ⟨?_, fun k p hk => ?_, fun _ => by simp⟩
      · refine List.pairwise_map.mpr (List.pairwise_lt_range.imp fun {j k} hjk => ?_)
        exact Or.inl (anniversaryYear_disjoint hleap hjk)
      · rw [List.getElem?_map] at hk
        obtain ⟨j, hj, rfl⟩ := Option.map_eq_some_iff.mp hk
        rw [(List.getElem?_eq_some_iff.mp hj).2.symm, List.getElem_range]
    · rw [periodsAfter_eq_nil hbilled]
      exact ⟨List.Pairwise.nil, fun k p hk => by simp at hk, fun h => absurd h hbilled⟩

end Main

/-! ## A subscription to cores -/

def yearlyCores : OfferingComponent where
  id := 1
  type := "cores"
  billingType := .limit
  limitPeriod := some .annual

def yearlyCoresPrice : PlanComponent where
  id := 1
  componentType := "cores"
  price := 10
  price_nonneg := ten_nonneg

def yearlyPlan : Plan where
  uuid := 1
  unit := .perMonth
  components := [yearlyCoresPrice]

/-- Four cores from an instant on. -/
def yearlyResource (created : Instant) : BilledResource where
  ref := ⟨1, 1, ⟨10, 1⟩⟩
  offeringType := "Marketplace.Basic"
  state := .ok
  plan := some yearlyPlan
  offeringComponents := [yearlyCores]
  limits := [("cores", 4)]
  created := created

def yearlyOrganization (created : Instant) : Organization where
  id := 1
  taxPercent := 0
  resources := [yearlyResource created]
  discountedUnitPrice := fun _ _ _ price => some price
  tax_nonneg := Invoice.untaxed
  owned := by simp [yearlyResource]
  distinct := by simp
  pricedOnce := by simp [yearlyResource, yearlyPlan]

theorem yearly_beforeCreation (created : Instant) :
    BeforeCreation (yearlyOrganization created) (yearlyResource created) Db.empty :=
  ⟨fun _ h => absurd h List.not_mem_nil, fun _ h => absurd h List.not_mem_nil⟩

theorem yearly_isAnnual (created : Instant) : IsAnnual (yearlyResource created) yearlyPlan yearlyCoresPrice :=
  ⟨yearlyCores, rfl, rfl, rfl⟩

theorem yearly_isBilledFor (created : Instant) : IsBilledFor (yearlyResource created) yearlyCoresPrice :=
  ⟨rfl, by norm_num [billableLimit, BilledResource.limit?, yearlyResource, yearlyCoresPrice]⟩

/-- 15 January 2024, 10:00. -/
def midJanuary : Instant := 19737 * dayLength + 36000000000

/-- 29 February 2024, 10:00. -/
def leapDay : Instant := 19782 * dayLength + 36000000000

/-- 1 June 2024, 0:00. -/
def startOfJune : Instant := 19875 * dayLength

/-- Created on 15 January, the first year is billed twice; created on 29 February, nothing is. -/
theorem yearly_billed_twice_or_never :
    ¬ BilledYearly (yearlyOrganization midJanuary) (yearlyResource midJanuary) yearlyCoresPrice Db.empty 12 ∧
      ¬ BilledYearly (yearlyOrganization leapDay) (yearlyResource leapDay) yearlyCoresPrice Db.empty 0 := by
  constructor
  · exact not_billedYearly (yearly_beforeCreation _) List.mem_cons_self rfl rfl List.mem_cons_self (yearly_isAnnual _)
      (by decide +kernel) (yearly_isBilledFor _) (by decide +kernel) (le_refl 12)
  · rintro ⟨db', hok, -⟩
    have hruns := (billMonths_isOk (yearly_beforeCreation leapDay) List.mem_cons_self rfl rfl List.mem_cons_self
      (yearly_isAnnual _) 0).mp ⟨db', hok⟩
    exact not_isLeapDay_of_runBills List.mem_cons_self rfl rfl List.mem_cons_self (yearly_isAnnual _) rfl hruns
      (by decide +kernel)

/-- Every invoice of the subscription can be made, unless it was created on 29 February. -/
theorem yearly_runBills {created : Instant} (hleap : ¬ IsLeapDay created) (hyear : 2 ≤ created.date.year) (n : ℕ) :
    RunBills (yearlyOrganization created) (yearlyResource created) Db.empty n := by
  have hbills : ∀ (date : Instant) orderType, 2 ≤ date.date.year →
      InvoiceBills (yearlyOrganization created) date orderType := by
    intro date orderType hdate resource hresource plan hplan _ pc hpc component hcomponent
    obtain rfl : resource = yearlyResource created := by
      simpa [yearlyOrganization] using mem_resources_of_billed hresource
    obtain rfl := Option.some.inj hplan
    obtain rfl : pc = yearlyCoresPrice := List.mem_singleton.mp hpc
    obtain rfl : yearlyCores = component := Option.some.inj hcomponent
    exact fun _ _ => ⟨hleap, fun _ => hdate⟩
  refine ⟨?_, fun k _ => hbills _ _ ?_⟩
  · exact hbills _ _ hyear
  · have hmonth := month_firstOfMonthAfter created (k + 1)
    have hvalid := (firstOfMonthAfter created (k + 1)).date.month_valid
    have hvalid' := created.date.month_valid
    show 2 ≤ (firstOfMonthAfter created (k + 1)).date.year
    omega

theorem yearly_from_june_billed :
    BilledYearly (yearlyOrganization startOfJune) (yearlyResource startOfJune) yearlyCoresPrice Db.empty 36 :=
  (billedYearly_iff (yearly_beforeCreation _) List.mem_cons_self rfl rfl List.mem_cons_self (yearly_isAnnual _)
    (by decide +kernel) 36).mpr
    ⟨yearly_runBills (by decide +kernel) (by decide +kernel) 36, fun _ => Or.inr (by decide +kernel)⟩

end Waldur.Marketplace
