import Mathlib
import Waldur.Marketplace.Billing

/-!
# Marketplace.AnnualBilling — the anniversary years of a component

An ANNUAL component is billed in the month of its anniversary, for the year that `_get_billing_period` finds
from the day of the run.  The monthly run passes the first of the month, which is before the anniversary
unless the resource was created at that very instant, so the first anniversary bills the first year again
and every later one the year before.
-/

namespace Waldur.Marketplace

open Calendar Clock Invoices Relational

/-! ## Anniversaries -/

/-- Created on 29 February. -/
def IsLeapDay (t : Instant) : Prop := t.date.month = 2 ∧ t.date.day = 29

instance (t : Instant) : Decidable (IsLeapDay t) := inferInstanceAs (Decidable (_ ∧ _))

section Anniversary

variable {c t : Instant} {year : ℕ}

/-- Every other day exists in every year. -/
theorem day_le_monthDays (h : ¬ IsLeapDay c) (year : ℕ) : c.date.day ≤ monthDays year c.date.month := by
  have hday := c.date.day_valid.2
  have hleap : c.date.month = 2 → c.date.day ≠ 29 := fun hm hd => h ⟨hm, hd⟩
  unfold monthDays at *
  split_ifs at * <;> omega

/-- 29 February exists in leap years only. -/
theorem day_le_monthDays_leap (h : IsLeapDay c) : c.date.day ≤ monthDays year c.date.month ↔ isLeap year = true := by
  rw [h.1, h.2]
  unfold monthDays
  cases isLeap year <;> simp

theorem not_isLeap_succ (h : isLeap year = true) : isLeap (year + 1) = false := by
  unfold isLeap at *
  simp only [Bool.and_eq_true, Bool.or_eq_true, beq_iff_eq, bne_iff_ne, Bool.and_eq_false_iff, beq_eq_false_iff_ne] at *
  omega

theorem not_isLeap_pred (h : isLeap year = true) : isLeap (year - 1) = false ∨ year = 0 := by
  rcases Nat.eq_zero_or_pos year with h₀ | h₀
  · exact Or.inr h₀
  · refine Or.inl ?_
    by_contra hp
    rw [Bool.not_eq_false] at hp
    have := not_isLeap_succ hp
    rw [Nat.sub_add_cancel h₀] at this
    exact absurd h (by rw [this]; simp)

/-- The day of an anniversary. -/
def anniversaryDate (h : ¬ IsLeapDay c) (year : ℕ) : Date :=
  ⟨year, c.date.month, c.date.day, month_valid_date c, c.date.day_valid.1, day_le_monthDays h year⟩

/-- The anniversary of an instant in a year. -/
def anniversary (h : ¬ IsLeapDay c) (year : ℕ) : Instant := midnight (anniversaryDate h year) + timeOfDay c

theorem timeOfDay_bounds (t : Instant) : 0 ≤ timeOfDay t ∧ timeOfDay t < dayLength := (day_timeOfDay t).2

theorem date_anniversary (h : ¬ IsLeapDay c) (hy : 1 ≤ year) : (anniversary h year).date = anniversaryDate h year :=
  date_midnight_add hy (timeOfDay_bounds c)

theorem timeOfDay_midnight_add (d : Date) {x : ℤ} (hx : 0 ≤ x ∧ x < dayLength) : timeOfDay (midnight d + x) = x := by
  unfold timeOfDay midnight dayLength at *
  omega

theorem timeOfDay_anniversary (h : ¬ IsLeapDay c) : timeOfDay (anniversary h year) = timeOfDay c :=
  timeOfDay_midnight_add _ (timeOfDay_bounds c)

theorem replaceYear_eq (h : ¬ IsLeapDay c) (hy : 1 ≤ year) : replaceYear c year = .ok (anniversary h year) :=
  dif_pos ⟨hy, day_le_monthDays h year⟩

theorem replaceYear_of_date {d : Date} (hd : t.date = d) (hy : 1 ≤ year) (hle : d.day ≤ monthDays year d.month) :
    replaceYear t year = .ok (midnight ⟨year, d.month, d.day, d.month_valid, d.day_valid.1, hle⟩ + timeOfDay t) := by
  subst hd
  exact dif_pos ⟨hy, hle⟩

/-- An anniversary moved to another year. -/
theorem replaceYear_anniversary (h : ¬ IsLeapDay c) {year' : ℕ} (hy : 1 ≤ year) (hy' : 1 ≤ year') :
    replaceYear (anniversary h year) year' = .ok (anniversary h year') := by
  rw [replaceYear_of_date (date_anniversary h hy) hy' (day_le_monthDays h year'), timeOfDay_anniversary]
  rfl

theorem replaceYear_leap_error (h : IsLeapDay c) (hleap : isLeap year = false) :
    replaceYear c year = .error .valueError :=
  dif_neg fun h' => by simp [(day_le_monthDays_leap h).mp h'.2] at hleap

theorem replaceYear_leap_ok (h : IsLeapDay c) (hok : replaceYear c year = .ok t) :
    IsLeapDay t ∧ t.date.year = year ∧ isLeap year = true := by
  unfold replaceYear at hok
  split at hok
  · next h' =>
    obtain rfl := Except.ok.inj hok
    unfold IsLeapDay
    rw [date_midnight_add h'.1 (timeOfDay_bounds c)]
    exact ⟨h, rfl, (day_le_monthDays_leap h).mp h'.2⟩
  · cases hok

end Anniversary

/-! ## The billing period -/

/-- The creation has an anniversary in every year; year 0 does not exist. -/
def HasAnniversaries (created date : Instant) : Prop :=
  ∃ h : ¬ IsLeapDay created, date < anniversary h date.date.year → 2 ≤ date.date.year

section Period

variable {created date : Instant}

/-- The anniversary year that a day belongs to, by the anniversary of its calendar year. -/
def billedYear (h : ¬ IsLeapDay created) (date : Instant) : ℕ :=
  if date < anniversary h date.date.year then date.date.year - 1 else date.date.year

theorem getBillingPeriod_annual (h : ¬ IsLeapDay created)
    (hyear : date < anniversary h date.date.year → 2 ≤ date.date.year) :
    getBillingPeriod (some .annual) date created =
      .ok (anniversary h (billedYear h date), anniversary h (billedYear h date + 1) - second) := by
  have hone := one_le_year_date date
  have hbilled : 1 ≤ billedYear h date := by
    unfold billedYear
    split
    · next hlt =>
      have := hyear hlt
      omega
    · exact hone
  have hstart : (if date < anniversary h date.date.year then replaceYear created (date.date.year - 1)
      else .ok (anniversary h date.date.year)) = (.ok (anniversary h (billedYear h date)) : Except BillingError Instant) := by
    unfold billedYear
    split
    · next hlt =>
      have := hyear hlt
      exact replaceYear_eq h (by omega)
    · rfl
  have hnext : replaceYear (anniversary h (billedYear h date)) ((anniversary h (billedYear h date)).date.year + 1) =
      .ok (anniversary h (billedYear h date + 1)) := by
    rw [date_anniversary h hbilled]
    exact replaceYear_anniversary h hbilled (Nat.le_add_left 1 _)
  refine Runs.bind_eq_ok.mpr ⟨_, replaceYear_eq h hone, Runs.bind_eq_ok.mpr ⟨_, hstart, ?_⟩⟩
  exact Runs.bind_eq_ok.mpr ⟨_, hnext, rfl⟩

/-- No period is found for a creation on 29 February. -/
theorem getBillingPeriod_annual_leap (h : IsLeapDay created) (p : Instant × Instant) :
    getBillingPeriod (some .annual) date created ≠ .ok p := by
  intro hok
  obtain ⟨anniversaryThisYear, hthis, hok⟩ := Runs.bind_eq_ok.mp hok
  obtain ⟨hleap, hyear, hisLeap⟩ := replaceYear_leap_ok h hthis
  obtain ⟨start, hstart, hok⟩ := Runs.bind_eq_ok.mp hok
  obtain ⟨next, hnext, -⟩ := Runs.bind_eq_ok.mp hok
  split at hstart
  · obtain ⟨-, -, hisLeap'⟩ := replaceYear_leap_ok h hstart
    have hone := one_le_year_date date
    rcases not_isLeap_pred hisLeap with hp | hp
    · simp [hp] at hisLeap'
    · omega
  · obtain rfl := Except.ok.inj hstart
    rw [hyear, replaceYear_leap_error hleap (not_isLeap_succ hisLeap)] at hnext
    cases hnext

theorem getBillingPeriod_annual_year (h : ¬ IsLeapDay created) (hlt : date < anniversary h date.date.year)
    (hyear : date.date.year < 2) (p : Instant × Instant) : getBillingPeriod (some .annual) date created ≠ .ok p := by
  intro hok
  have hone := one_le_year_date date
  obtain ⟨anniversaryThisYear, hthis, hok⟩ := Runs.bind_eq_ok.mp hok
  rw [replaceYear_eq h hone] at hthis
  obtain rfl := Except.ok.inj hthis
  obtain ⟨start, hstart, -⟩ := Runs.bind_eq_ok.mp hok
  rw [if_pos hlt, show date.date.year - 1 = 0 by omega] at hstart
  cases hstart

/-- **A period is found** exactly where the creation has anniversaries. -/
theorem getBillingPeriod_annual_isOk :
    (∃ p, getBillingPeriod (some .annual) date created = .ok p) ↔ HasAnniversaries created date := by
  constructor
  · rintro ⟨p, hp⟩
    have h : ¬ IsLeapDay created := fun h => getBillingPeriod_annual_leap h p hp
    refine ⟨h, fun hlt => ?_⟩
    by_contra hyear
    exact getBillingPeriod_annual_year h hlt (by omega) p hp
  · rintro ⟨h, hyear⟩
    exact ⟨_, getBillingPeriod_annual h hyear⟩

end Period

/-! ## Items added to one invoice -/

/-- An invoice got new items, and nothing else happened to the invoices. -/
def Appends (customer invoice : ℕ) (new : List InvoiceItem) (db db' : Db) : Prop :=
  ∃ inv inv', db.invoices.get? invoice = some inv ∧ inv.customer = customer ∧
    db'.invoices.rows = db.invoices.rows.map (fun i => if i.id = invoice then inv' else i) ∧
      inv'.items = inv.items ++ new ∧ inv'.id = inv.id ∧ inv'.customer = inv.customer ∧ inv'.year = inv.year ∧
        inv'.month = inv.month

/-- No item of the invoice is selected. -/
def NoneOn (invoice : ℕ) (p : InvoiceItem → Bool) (db : Db) : Prop :=
  ∀ inv, db.invoices.get? invoice = some inv → ∀ it ∈ inv.items, p it = false

section Appends

variable {customer invoice : ℕ} {new new' : List InvoiceItem} {db db' db'' : Db}

theorem Appends.get? (h : Appends customer invoice new db db') :
    ∃ inv inv', db.invoices.get? invoice = some inv ∧ db'.invoices.get? invoice = some inv' ∧
      inv'.customer = customer ∧ inv'.items = inv.items ++ new := by
  obtain ⟨inv, inv', hinv, hcustomer, hrows, hitems, hid, hcustomer', -, -⟩ := h
  obtain ⟨hmem, hkey⟩ := Table.get?_eq_some.mp hinv
  refine ⟨inv, inv', hinv, Table.get?_eq_some.mpr ⟨?_, hid.trans hkey⟩, hcustomer'.trans hcustomer, hitems⟩
  rw [hrows]
  exact List.mem_map.mpr ⟨inv, hmem, if_pos hkey⟩

theorem Appends.refl {inv : Invoice} (hinv : db.invoices.get? invoice = some inv) (hcustomer : inv.customer = customer) :
    Appends customer invoice [] db db := by
  obtain ⟨hmem, hkey⟩ := Table.get?_eq_some.mp hinv
  refine ⟨inv, inv, hinv, hcustomer, ?_, (List.append_nil _).symm, rfl, rfl, rfl, rfl⟩
  refine (List.map_id db.invoices.rows).symm.trans (List.map_congr_left fun i hi => ?_)
  split
  · next hi' => exact db.invoices.eq_of_key_eq hi hmem (hi'.trans hkey.symm)
  · rfl

theorem Appends.trans (h : Appends customer invoice new db db') (h' : Appends customer invoice new' db' db'') :
    Appends customer invoice (new ++ new') db db'' := by
  obtain ⟨inv₀, inv₁, hinv, hget, -, -⟩ := h.get?
  obtain ⟨inv, inv', hinv', hcustomer, hrows, hitems, hid, hcust, hyear, hmonth⟩ := h
  obtain ⟨inv₂, inv₃, hinv₂, -, hrows', hitems', hid', hcust', hyear', hmonth'⟩ := h'
  obtain ⟨hmem, hkey⟩ := Table.get?_eq_some.mp hinv'
  have heq : inv₂ = inv' := by
    refine db'.invoices.eq_of_key_eq (Table.get?_eq_some.mp hinv₂).1 ?_ ?_
    · rw [hrows]
      exact List.mem_map.mpr ⟨inv, hmem, if_pos hkey⟩
    · exact (Table.get?_eq_some.mp hinv₂).2.trans (hid.trans hkey).symm
  subst heq
  refine ⟨inv, inv₃, hinv', hcustomer, ?_, ?_, hid'.trans hid, hcust'.trans hcust, hyear'.trans hyear, hmonth'.trans hmonth⟩
  · rw [hrows', hrows, List.map_map]
    refine List.map_congr_left fun i _ => ?_
    rw [Function.comp_apply]
    by_cases hi : i.id = invoice
    · simp [hi, hid.trans hkey]
    · simp [hi]
  · rw [hitems', hitems, List.append_assoc]

theorem Appends.noneOn {p : InvoiceItem → Bool} (h : Appends customer invoice new db db') (hnone : NoneOn invoice p db)
    (hnew : ∀ it ∈ new, p it = false) : NoneOn invoice p db' := by
  obtain ⟨inv, inv', hinv, hinv', -, hitems⟩ := h.get?
  intro inv₂ hinv₂ it hit
  rw [hinv'] at hinv₂
  obtain rfl := Option.some.inj hinv₂
  rw [hitems] at hit
  rcases List.mem_append.mp hit with hit | hit
  · exact hnone inv hinv it hit
  · exact hnew it hit

/-- A loop that bills each element under a key of its own. -/
theorem foldlM_appends {α : Type} {f : Db → α → Except BillingError Db} {K : α → InvoiceItem → Bool}
    {Q : α → List InvoiceItem → Prop} : ∀ {l : List α} {db db' : Db},
    (∀ a ∈ l, ∀ db db', (∃ inv, db.invoices.get? invoice = some inv ∧ inv.customer = customer) →
      NoneOn invoice (K a) db → f db a = .ok db' →
        ∃ new, Appends customer invoice new db db' ∧ (∀ it ∈ new, K a it = true) ∧ Q a new) →
    l.Pairwise (fun a b => ∀ it, K a it = true → K b it = false) →
    (∃ inv, db.invoices.get? invoice = some inv ∧ inv.customer = customer) → (∀ a ∈ l, NoneOn invoice (K a) db) →
    l.foldlM f db = .ok db' →
      ∃ new, Appends customer invoice new db db' ∧ (∀ it ∈ new, ∃ a ∈ l, K a it = true) ∧
        ∀ a ∈ l, Q a (new.filter (K a))
  | [], db, db', _, _, hinv, _, hok => by
    obtain ⟨inv, hinv, hcustomer⟩ := hinv
    obtain rfl := Except.ok.inj hok
    exact ⟨[], Appends.refl hinv hcustomer, fun _ h => absurd h List.not_mem_nil, fun _ h => absurd h List.not_mem_nil⟩
  | a :: l, db, db', hstep, hdisjoint, hinv, hnone, hok => by
    obtain ⟨hhead, htail⟩ := List.pairwise_cons.mp hdisjoint
    rw [List.foldlM_cons] at hok
    obtain ⟨db₁, hok₁, hok₂⟩ := Runs.bind_eq_ok.mp hok
    obtain ⟨new₁, happ₁, hkey₁, hQ₁⟩ := hstep a List.mem_cons_self db db₁ hinv (hnone a List.mem_cons_self) hok₁
    obtain ⟨-, inv₁, -, hinv₁, hcustomer₁, -⟩ := happ₁.get?
    obtain ⟨new₂, happ₂, hkey₂, hQ₂⟩ := foldlM_appends (fun b hb => hstep b (List.mem_cons_of_mem a hb)) htail
      ⟨inv₁, hinv₁, hcustomer₁⟩
      (fun b hb => happ₁.noneOn (hnone b (List.mem_cons_of_mem a hb)) fun it hit => hhead b hb it (hkey₁ it hit)) hok₂
    -- Each key selects exactly what its own step has billed.
    have hself : new₁.filter (K a) = new₁ := List.filter_eq_self.mpr hkey₁
    have hother : new₂.filter (K a) = [] := by
      refine List.filter_eq_nil_iff.mpr fun it hit hK => ?_
      obtain ⟨b, hb, hKb⟩ := hkey₂ it hit
      simp [hhead b hb it hK] at hKb
    refine ⟨new₁ ++ new₂, happ₁.trans happ₂, fun it hit => ?_, fun b hb => ?_⟩
    · rcases List.mem_append.mp hit with hit | hit
      · exact ⟨a, List.mem_cons_self, hkey₁ it hit⟩
      · obtain ⟨b, hb, hKb⟩ := hkey₂ it hit
        exact ⟨b, List.mem_cons_of_mem a hb, hKb⟩
    · rcases List.mem_cons.mp hb with rfl | hb
      · rw [List.filter_append, hself, hother, List.append_nil]
        exact hQ₁
      · have hnone₁ : new₁.filter (K b) = [] :=
          List.filter_eq_nil_iff.mpr fun it hit hK => by simp [hhead b hb it (hkey₁ it hit)] at hK
        rw [List.filter_append, hnone₁, List.nil_append]
        exact hQ₂ b hb

end Appends

/-! ## One component -/

/-- An item of a resource and a component. -/
def isFor (resource : ℕ) (componentType : String) (it : InvoiceItem) : Bool :=
  it.resource.any (fun r => r.id == resource) && it.details.offeringComponentType == some componentType

def period (it : InvoiceItem) : Instant × Instant := (it.start, it.stop)

section Component

variable (org : Organization) (resource : BilledResource) (plan : Plan) (pc : PlanComponent)

/-- The plan bills the component by the year. -/
def IsAnnual : Prop :=
  ∃ component, resource.offeringComponent? pc.componentType = some component ∧
    (resolveComponent component (some plan.billingMode)).billingType = .limit ∧
      (resolveComponent component (some plan.billingMode)).limitPeriod = some .annual

/-- The anniversary years that a component is billed for by one invoice: at most one. -/
def annualPeriods (start : Instant) : List (Instant × Instant) :=
  if shouldProcessBilling (some .annual) start resource.created && (billableLimit resource pc.componentType).isSome then
    (getBillingPeriod (some .annual) start resource.created).toOption.toList
  else []

/-- **Where a component is billed without an error**: an annual one, in the month of its anniversary, has
one; the price of a simple one that is charged is found. -/
def ComponentBills (year month : ℕ) (start : Instant) (orderType : Option OrderType) : Prop :=
  ∀ component, resource.offeringComponent? pc.componentType = some component →
    let effective := resolveComponent component (some plan.billingMode)
    if effective.billingType = .limit then
      effective.limitPeriod = some .annual → start.date.month = resource.created.date.month →
        HasAnniversaries resource.created start
    else
      isCharged effective orderType = true →
        (org.discountedUnitPrice resource.ref year month (simpleUnitPrice pc effective)).isSome = true

variable {org resource plan pc}
variable {invoice : ℕ} {inv : Invoice} {effective : EffectiveComponent} {start stop : Instant}
variable {orderType : Option OrderType} {db db' : Db}

theorem createItem_appends {customer : ℕ} {item : ℕ → InvoiceItem} (hinv : db.invoices.get? invoice = some inv)
    (hcustomer : inv.customer = customer) (hitem : ∀ uuid, (item uuid).WellAttributed customer) :
    Appends customer invoice [item db.nextUuid] db (createItem invoice item db) := by
  subst hcustomer
  obtain ⟨hmem, hkey⟩ := Table.get?_eq_some.mp hinv
  have hbulk : inv.bulkCreate [item db.nextUuid] = inv.addItems [item db.nextUuid]
      (fun it hit => List.mem_singleton.mp hit ▸ hitem db.nextUuid) := dif_pos _
  refine ⟨inv, inv.bulkCreate [item db.nextUuid], hinv, rfl, ?_, ?_⟩
  · refine List.map_congr_left fun i hi => ?_
    split
    · next h => rw [db.invoices.eq_of_key_eq hi hmem (h.trans hkey.symm)]
    · rfl
  · rw [hbulk]
    exact ⟨rfl, rfl, rfl, rfl, rfl⟩

theorem wellAttributed_of_ref {it : InvoiceItem} {customer : ℕ} (hr : resource.ref.project.customer = customer)
    (h : it.resource = some resource.ref) (h' : it.project = some resource.ref.project) : it.WellAttributed customer := by
  intro r hr'
  rw [h] at hr'
  obtain rfl := Option.some.inj hr'
  exact ⟨h', hr⟩

theorem reopenClosedItem_of_none {quantity : ℚ} {plan : ℕ}
    (hnone : ∀ it ∈ inv.items, isFor resource.ref.id pc.componentType it = false) :
    reopenClosedItem resource.ref.id pc.componentType plan start stop quantity inv = none := by
  have hnil : inv.items.filter (isClosedItem resource.ref.id pc.componentType plan start) = [] := by
    refine List.filter_eq_nil_iff.mpr fun it hit hclosed => ?_
    have hfor := hnone it hit
    unfold isClosedItem isLimitItem at hclosed
    unfold isFor at hfor
    simp_all
  unfold reopenClosedItem
  split
  · rfl
  · next h => simp [hnil] at h

/-- A limit component that is not on the invoice yet. -/
theorem createInvoiceItem_appends (start stop : Instant) (hr : resource.ref.project.customer = org.id)
    (hinv : db.invoices.get? invoice = some inv) (hcustomer : inv.customer = org.id)
    (hnone : NoneOn invoice (isFor resource.ref.id pc.componentType) db) :
    ∃ new, Appends org.id invoice new db (createInvoiceItem resource plan pc effective invoice start stop db) ∧
      (∀ it ∈ new, isFor resource.ref.id pc.componentType it = true) ∧
      (effective.limitPeriod ≠ some .total →
        new.map period = if (billableLimit resource pc.componentType).isSome then [(start, stop)] else []) := by
  have hreopened : ∀ quantity, ((db.invoices.get? invoice).bind
      (reopenClosedItem resource.ref.id pc.componentType plan.uuid start stop quantity)) = none := by
    intro quantity
    rw [hinv]
    exact reopenClosedItem_of_none (hnone inv hinv)
  have hadded : ∀ isTotal quantity, Appends org.id invoice
      [limitItem resource plan pc isTotal start stop quantity db.nextUuid] db
      (createItem invoice (limitItem resource plan pc isTotal start stop quantity) db) := fun isTotal quantity =>
    createItem_appends hinv hcustomer fun uuid => wellAttributed_of_ref hr rfl rfl
  unfold createInvoiceItem
  dsimp only
  split
  · next htotal =>
    refine ⟨[], Appends.refl hinv hcustomer, by simp, fun hne => ?_⟩
    simp [hne] at htotal
  · cases hlimit : billableLimit resource pc.componentType with
    | none => exact ⟨[], Appends.refl hinv hcustomer, by simp, by simp⟩
    | some limit =>
      dsimp only
      rw [hreopened, ite_self]
      refine ⟨_, hadded _ _, ?_, ?_⟩
      · intro it hit
        rw [List.mem_singleton.mp hit]
        simp [isFor, limitItem]
      · intro _
        rfl

/-- One component of an invoice: what it bills is its own, and an annual one is billed for its year. -/
theorem processComponent_appends (hr : resource.ref.project.customer = org.id)
    (hinv : ∃ inv₀, db.invoices.get? inv.id = some inv₀ ∧ inv₀.customer = org.id)
    (hnone : NoneOn inv.id (isFor resource.ref.id pc.componentType) db)
    (hok : processComponent org resource plan inv start stop orderType db pc = .ok db') :
    ∃ new, Appends org.id inv.id new db db' ∧ (∀ it ∈ new, isFor resource.ref.id pc.componentType it = true) ∧
      (IsAnnual resource plan pc → new.map period = annualPeriods resource pc start) := by
  obtain ⟨inv₀, hinv, hcustomer⟩ := hinv
  have hnothing : ∃ new, Appends org.id inv.id new db db ∧
      (∀ it ∈ new, isFor resource.ref.id pc.componentType it = true) ∧ new = [] :=
    ⟨[], Appends.refl hinv hcustomer, by simp, rfl⟩
  unfold processComponent at hok
  cases hcomponent : resource.offeringComponent? pc.componentType with
  | none =>
    rw [hcomponent] at hok
    obtain rfl := Except.ok.inj hok
    obtain ⟨new, happ, hfor, -⟩ := hnothing
    refine ⟨new, happ, hfor, ?_⟩
    rintro ⟨component, h, -⟩
    rw [hcomponent] at h
    cases h
  | some component =>
    rw [hcomponent] at hok
    dsimp only at hok
    have hannual : IsAnnual resource plan pc → (resolveComponent component (some plan.billingMode)).billingType = .limit ∧
        (resolveComponent component (some plan.billingMode)).limitPeriod = some .annual := by
      rintro ⟨component', h, h'⟩
      rw [hcomponent] at h
      obtain rfl := Option.some.inj h
      exact h'
    split at hok
    · -- A limit component.
      unfold processCreation at hok
      split at hok
      · next htotal =>
        obtain rfl := Except.ok.inj hok
        have hne : ¬ IsAnnual resource plan pc := fun h => by
          rw [(hannual h).2] at htotal
          cases htotal
        split
        · obtain ⟨new, happ, hfor, -⟩ := createInvoiceItem_appends start stop hr hinv hcustomer hnone
          exact ⟨new, happ, hfor, fun h => absurd h hne⟩
        · obtain ⟨new, happ, hfor, -⟩ := hnothing
          exact ⟨new, happ, hfor, fun h => absurd h hne⟩
      · next htotal =>
        split at hok
        · next hshould =>
          obtain rfl := Except.ok.inj hok
          obtain ⟨new, happ, hfor, rfl⟩ := hnothing
          refine ⟨[], happ, hfor, fun h => ?_⟩
          rw [(hannual h).2, Bool.not_eq_true'] at hshould
          unfold annualPeriods
          rw [hshould]
          rfl
        · next hshould =>
          split at hok
          · obtain ⟨p, hp, hok⟩ := Runs.bind_eq_ok.mp hok
            obtain rfl := Except.ok.inj hok
            obtain ⟨new, happ, hfor, hperiod⟩ :=
              createInvoiceItem_appends p.1 p.2 hr hinv hcustomer hnone
            refine ⟨new, happ, hfor, fun h => ?_⟩
            rw [(hannual h).2] at hp hshould
            rw [Bool.not_eq_true', Bool.not_eq_false] at hshould
            rw [hperiod htotal]
            unfold annualPeriods
            rw [hshould, hp, Bool.true_and]
            rfl
          · next hperiodic =>
            obtain rfl := Except.ok.inj hok
            obtain ⟨new, happ, hfor, -⟩ := createInvoiceItem_appends start stop hr hinv hcustomer hnone
            exact ⟨new, happ, hfor, fun h => absurd (Or.inr (hannual h).2) hperiodic⟩
    · -- A simple component.
      next hlimit =>
      have hne : ¬ IsAnnual resource plan pc := fun h => hlimit (hannual h).1
      unfold processSimpleBillingComponent at hok
      split at hok
      · obtain rfl := Except.ok.inj hok
        obtain ⟨new, happ, hfor, -⟩ := hnothing
        exact ⟨new, happ, hfor, fun h => absurd h hne⟩
      · split at hok
        · cases hok
        · obtain rfl := Except.ok.inj hok
          refine ⟨_, createItem_appends hinv hcustomer fun uuid => ?_, fun it hit => ?_, fun h => absurd h hne⟩
          · split_ifs <;> exact wellAttributed_of_ref hr rfl rfl
          · rw [List.mem_singleton.mp hit]
            split_ifs <;> simp [isFor, simpleItem]

/-- Whether a component raises does not depend on the invoices. -/
theorem processComponent_isOk : (∃ db', processComponent org resource plan inv start stop orderType db pc = .ok db') ↔
    ComponentBills org resource plan pc inv.year inv.month start orderType := by
  unfold processComponent ComponentBills
  cases hcomponent : resource.offeringComponent? pc.componentType with
  | none => exact ⟨fun _ _ h => (nomatch h), fun _ => ⟨_, rfl⟩⟩
  | some component =>
    simp only [Option.some.injEq, forall_eq']
    split
    · unfold processCreation
      split
      · next htotal => exact ⟨fun _ h => absurd (htotal.symm.trans h) (by decide), fun _ => ⟨_, rfl⟩⟩
      · split
        · next hshould =>
          refine ⟨fun _ h hmonth => ?_, fun _ => ⟨_, rfl⟩⟩
          simp [h, shouldProcessBilling, hmonth] at hshould
        · next hshould =>
          split
          · next hperiodic =>
            constructor
            · rintro ⟨db', hok⟩ h -
              rw [h] at hok
              obtain ⟨p, hp, -⟩ := Runs.bind_eq_ok.mp hok
              exact getBillingPeriod_annual_isOk.mp ⟨p, hp⟩
            · intro h
              rcases hperiodic with hq | ha
              · rw [hq]
                exact ⟨_, rfl⟩
              · rw [ha] at hshould ⊢
                obtain ⟨p, hp⟩ := getBillingPeriod_annual_isOk.mpr (h ha (by simpa [shouldProcessBilling] using hshould))
                exact ⟨_, Runs.bind_eq_ok.mpr ⟨p, hp, rfl⟩⟩
          · next hperiodic => exact ⟨fun _ h => absurd (Or.inr h) hperiodic, fun _ => ⟨_, rfl⟩⟩
    · unfold processSimpleBillingComponent
      split
      · next hcharged => exact ⟨fun _ h => by simp [h] at hcharged, fun _ => ⟨_, rfl⟩⟩
      · next hcharged =>
        have hcharged : isCharged (resolveComponent component (some plan.billingMode)) orderType = true := by
          simpa using hcharged
        cases hprice : org.discountedUnitPrice resource.ref inv.year inv.month
            (simpleUnitPrice pc (resolveComponent component (some plan.billingMode))) with
        | none => exact ⟨fun ⟨_, h⟩ => (nomatch h), fun h => absurd (h hcharged) (by simp)⟩
        | some unitPrice => exact ⟨fun _ _ => rfl, fun _ => ⟨_, rfl⟩⟩

end Component

end Waldur.Marketplace
