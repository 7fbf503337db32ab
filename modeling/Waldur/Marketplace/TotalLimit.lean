import Mathlib
import Waldur.Invoices.Rollback
import Waldur.Marketplace.BillingDiscount

/-!
# Marketplace.TotalLimit — the billed total of a TOTAL limit component

A TOTAL component is billed by differences: each change of the limit adds an item for what the new limit
differs from the total billed so far.  The total is read back from every item of the resource that
carries the component type, discounts aside, by the sign of its unit price.  Compensation lines copy the
type, and a decrease at price zero has no sign, so the total can be misread: `ReadsRight` is the exact
condition under which it is not.
-/

namespace Waldur.Marketplace

open Calendar Invoices Relational Runs MonthlyCompensation

/-! ## `_create_invoice_item_for_total_limit` -/

/-- Selected by `related_invoice_items`. -/
def isRelated (resource : ℕ) (componentType : String) (it : InvoiceItem) : Bool :=
  it.resource.any (fun r => r.id == resource) && it.details.offeringComponentType == some componentType &&
    !it.details.isDiscount

def relatedInvoiceItems (db : Db) (resource : ℕ) (componentType : String) : List InvoiceItem :=
  db.invoices.rows.flatMap (fun inv => inv.items.filter (isRelated resource componentType))

/-- The loop over the related items; there is nothing to add up without one. -/
def billedTotal (items : List InvoiceItem) : ℚ :=
  (items.map (fun it => if it.unitPrice < 0 then -it.quantity else it.quantity)).sum

/-- The item that bills a difference. -/
def differenceItem (uuid : ℕ) (resource : Resource) (plan : Plan) (pc : PlanComponent) (diff : ℚ)
    (start stop : Instant) : InvoiceItem where
  uuid := uuid
  unitPrice := if diff > 0 then pc.price else -pc.price
  quantity := if diff > 0 then diff else -diff
  unit := .quantity
  resource := some resource
  planComponent := some pc.id
  project := some resource.project
  start := start
  stop := stop
  details :=
    { offeringComponentType := some pc.componentType
      planUuid := some plan.uuid
      planComponentId := some pc.id
      discountUsage := some diff }

def createInvoiceItemForTotalLimit (db : Db) (resource : MarketplaceResource) (invoice : ℕ)
    (componentType : String) (newQuantity : ℚ) (now monthEnd : Instant) : Db :=
  if resource.state ≠ .ok then db
  else
    match resource.plan with
    | none => db
    | some plan =>
      let total := billedTotal (relatedInvoiceItems db resource.ref.id componentType)
      let diff := newQuantity - total
      if diff = 0 then db
      else
        match plan.component? componentType with
        | none => db
        | some pc =>
          { db with
            invoices := db.invoices.update invoice
              (·.bulkCreate [differenceItem db.nextUuid resource.ref plan pc diff now monthEnd])
              (fun inv => inv.bulkCreate_id _)
            nextUuid := db.nextUuid + 1 }

/-! ## What is billed -/

section

variable (resource : ℕ) (componentType : String)

/-- A cost item of the component. -/
def isCost (it : InvoiceItem) : Bool := isRelated resource componentType it && !it.details.isCompensation

/-- A cost item that takes a limit back. -/
def isDecrease (it : InvoiceItem) : Bool := it.details.discountUsage.any (fun usage => decide (usage < 0))

/-- A column summed over the items of all invoices that a query selects. -/
def itemSum (db : Db) (p : InvoiceItem → Bool) (g : InvoiceItem → ℚ) : ℚ :=
  (db.invoices.rows.map (fun inv => ((inv.items.filter p).map g).sum)).sum

/-- The net billed quantity of the component. -/
def netBilled (db : Db) : ℚ :=
  itemSum db (isCost resource componentType) (fun it => if isDecrease it then -it.quantity else it.quantity)

/-- What compensation lines are taken for: a quantity given back. -/
def compensationsRead (db : Db) : ℚ :=
  itemSum db (fun it => isRelated resource componentType it && it.details.isCompensation)
    (fun it => if it.unitPrice < 0 then it.quantity else -it.quantity)

/-- The decreases that were billed at price zero. -/
def freeDecreases (db : Db) : ℚ :=
  itemSum db (fun it => isCost resource componentType it && isDecrease it && decide (it.unitPrice = 0))
    InvoiceItem.quantity

/-- **Where the billed total is read right**: compensation lines and free decreases do not count, or cancel. -/
def ReadsRight (db : Db) : Prop :=
  compensationsRead resource componentType db = 2 * freeDecreases resource componentType db

instance (db : Db) : Decidable (ReadsRight resource componentType db) := inferInstanceAs (Decidable (_ = _))

/-- An item of the component as billing makes it: only compensations belong to a credit, and the sign of
the price is that of the difference. -/
structure AsBilled (it : InvoiceItem) : Prop where
  credit : it.credit ≠ none → it.details.isCompensation = true
  decrease : isCost resource componentType it = true → isDecrease it = true → it.unitPrice ≤ 0
  increase : isCost resource componentType it = true → isDecrease it = false → 0 ≤ it.unitPrice

/-- All items of the component are as billing makes them. -/
def AllAsBilled (db : Db) : Prop :=
  ∀ inv ∈ db.invoices.rows, ∀ it ∈ inv.items, isRelated resource componentType it = true →
    AsBilled resource componentType it

end

/-! ## Reading the total -/

section

variable {resource : ℕ} {componentType : String} {db db' : Db}

theorem sum_filter_map (p : InvoiceItem → Bool) (g : InvoiceItem → ℚ) (items : List InvoiceItem) :
    ((items.filter p).map g).sum = (items.map (fun it => if p it then g it else 0)).sum :=
  Table.sum_filter_eq items p g

theorem sum_flatMap (p : InvoiceItem → Bool) (g : InvoiceItem → ℚ) (l : List Invoice) :
    ((l.flatMap (fun inv => inv.items.filter p)).map g).sum =
      (l.map (fun inv => ((inv.items.filter p).map g).sum)).sum := by
  induction l with
  | nil => rfl
  | cons inv l ih => simp [ih]

/-- The total that the code reads, item by item. -/
theorem billedTotal_eq : billedTotal (relatedInvoiceItems db resource componentType) =
    itemSum db (isRelated resource componentType)
      (fun it => if it.unitPrice < 0 then -it.quantity else it.quantity) :=
  sum_flatMap _ _ _

/-- How one item is read. -/
theorem read_item {it : InvoiceItem}
    (h : isRelated resource componentType it = true → AsBilled resource componentType it) :
    (if isRelated resource componentType it then (if it.unitPrice < 0 then -it.quantity else it.quantity) else 0) =
      (if isCost resource componentType it then (if isDecrease it then -it.quantity else it.quantity) else 0) -
        (if isRelated resource componentType it && it.details.isCompensation then
          (if it.unitPrice < 0 then it.quantity else -it.quantity) else 0) +
        2 * (if isCost resource componentType it && isDecrease it && decide (it.unitPrice = 0) then it.quantity
          else 0) := by
  cases hr : isRelated resource componentType it with
  | false => simp [isCost, hr]
  | true =>
    have hb := h hr
    cases hc : it.details.isCompensation with
    | true =>
      by_cases hp : it.unitPrice < 0 <;> simp [isCost, hr, hc, hp]
    | false =>
      have hcost : isCost resource componentType it = true := by simp [isCost, hr, hc]
      cases hd : isDecrease it with
      | true =>
        have hle := hb.decrease hcost hd
        rcases hle.lt_or_eq with hlt | h0
        · simp [hcost, hlt, hlt.ne]
        · simp [hcost, h0]
          ring
      | false =>
        have hnot : ¬ it.unitPrice < 0 := not_lt.mpr (hb.increase hcost hd)
        simp [hcost, hnot]

/-- **The total that the code reads** is off by the compensation lines and the free decreases. -/
theorem billedTotal_eq_netBilled (h : AllAsBilled resource componentType db) :
    billedTotal (relatedInvoiceItems db resource componentType) =
      netBilled resource componentType db - compensationsRead resource componentType db +
        2 * freeDecreases resource componentType db := by
  have hitems : ∀ items : List InvoiceItem,
      (∀ it ∈ items, isRelated resource componentType it = true → AsBilled resource componentType it) →
      ((items.filter (isRelated resource componentType)).map
        (fun it => if it.unitPrice < 0 then -it.quantity else it.quantity)).sum =
      ((items.filter (isCost resource componentType)).map
        (fun it => if isDecrease it then -it.quantity else it.quantity)).sum -
      ((items.filter (fun it => isRelated resource componentType it && it.details.isCompensation)).map
        (fun it => if it.unitPrice < 0 then it.quantity else -it.quantity)).sum +
      2 * ((items.filter (fun it => isCost resource componentType it && isDecrease it &&
        decide (it.unitPrice = 0))).map InvoiceItem.quantity).sum := by
    intro items hi
    simp only [sum_filter_map]
    induction items with
    | nil => simp
    | cons it items ih =>
      simp only [List.map_cons, List.sum_cons]
      rw [read_item (hi it List.mem_cons_self), ih fun it' hit' => hi it' (List.mem_cons_of_mem _ hit')]
      ring
  rw [billedTotal_eq]
  unfold netBilled compensationsRead freeDecreases itemSum
  unfold AllAsBilled at h
  generalize db.invoices.rows = rows at h
  induction rows with
  | nil => simp
  | cons inv rows ih =>
    simp only [List.map_cons, List.sum_cons]
    rw [hitems inv.items (h inv List.mem_cons_self), ih fun inv' hinv' => h inv' (List.mem_cons_of_mem _ hinv')]
    ring

/-! ## Bookkeeping passes -/

/-- A pass that leaves the net billed quantity of the component alone. -/
def KeepsBilling (resource : ℕ) (componentType : String) (db db' : Db) : Prop :=
  AllAsBilled resource componentType db →
    AllAsBilled resource componentType db' ∧ netBilled resource componentType db' = netBilled resource componentType db

theorem KeepsBilling.of_invoices (h : db'.invoices = db.invoices) : KeepsBilling resource componentType db db' := by
  intro hb
  unfold AllAsBilled netBilled itemSum at *
  rw [h]
  exact ⟨hb, rfl⟩

theorem KeepsBilling.trans {db'' : Db} (h : KeepsBilling resource componentType db db')
    (h' : KeepsBilling resource componentType db' db'') : KeepsBilling resource componentType db db'' := by
  intro hb
  obtain ⟨hb', heq⟩ := h hb
  obtain ⟨hb'', heq'⟩ := h' hb'
  exact ⟨hb'', heq'.trans heq⟩

/-- A rewrite of an invoice that keeps its cost items. -/
def KeepsItems (resource : ℕ) (componentType : String) (inv inv' : Invoice) : Prop :=
  (∀ it ∈ inv.items, isRelated resource componentType it = true → AsBilled resource componentType it) →
    (∀ it ∈ inv'.items, isRelated resource componentType it = true → AsBilled resource componentType it) ∧
      inv'.items.filter (isCost resource componentType) = inv.items.filter (isCost resource componentType)

theorem KeepsItems.trans {inv inv' inv'' : Invoice} (h : KeepsItems resource componentType inv inv')
    (h' : KeepsItems resource componentType inv' inv'') : KeepsItems resource componentType inv inv'' := by
  intro hb
  obtain ⟨hb', heq⟩ := h hb
  obtain ⟨hb'', heq'⟩ := h' hb'
  exact ⟨hb'', heq'.trans heq⟩

theorem KeepsBilling.of_update {id : ℕ} {f : Invoice → Invoice} {hf : ∀ inv, (f inv).id = inv.id}
    (h : db'.invoices = db.invoices.update id f hf)
    (hkeep : ∀ inv, KeepsItems resource componentType inv (f inv)) : KeepsBilling resource componentType db db' := by
  intro hb
  constructor
  · intro inv hinv
    rw [h] at hinv
    obtain ⟨inv₀, hinv₀, rfl⟩ := Table.mem_update.mp hinv
    split
    · exact (hkeep inv₀ (hb inv₀ hinv₀)).1
    · exact hb inv₀ hinv₀
  · unfold netBilled itemSum
    rw [h]
    show ((db.invoices.rows.map _).map _).sum = _
    rw [List.map_map]
    congr 1
    refine List.map_congr_left fun inv hinv => ?_
    rw [Function.comp_apply]
    split
    · rw [(hkeep inv (hb inv hinv)).2]
    · rfl

theorem items_bulkCreate (inv : Invoice) (new : List InvoiceItem) :
    (inv.bulkCreate new).items = inv.items ++ new ∨ (inv.bulkCreate new).items = inv.items := by
  unfold Invoice.bulkCreate
  split
  · exact Or.inl rfl
  · exact Or.inr rfl

/-- Creating lines that are no cost items. -/
theorem keepsItems_bulkCreate {inv : Invoice} {new : List InvoiceItem}
    (hnew : ∀ it ∈ new, isCost resource componentType it = false)
    (hbilled : ∀ it ∈ new, isRelated resource componentType it = true → AsBilled resource componentType it) :
    KeepsItems resource componentType inv (inv.bulkCreate new) := by
  intro hinv
  rcases items_bulkCreate inv new with hi | hi
  · rw [hi]
    constructor
    · intro it hit hr
      rcases List.mem_append.mp hit with hold | hnew'
      · exact hinv it hold hr
      · exact hbilled it hnew' hr
    · have hnil : new.filter (isCost resource componentType) = [] :=
        List.filter_eq_nil_iff.mpr fun it hit => by simp [hnew it hit]
      rw [List.filter_append, hnil, List.append_nil]
  · rw [hi]
    exact ⟨hinv, rfl⟩

/-- Deleting lines that are no cost items. -/
theorem keepsItems_deleteItems {inv : Invoice} {p : InvoiceItem → Bool}
    (hp : ∀ it, (isRelated resource componentType it = true → AsBilled resource componentType it) →
      isCost resource componentType it = true → p it = false) :
    KeepsItems resource componentType inv (inv.deleteItems p) := by
  intro hinv
  constructor
  · intro it hit hr
    exact hinv it (List.mem_of_mem_filter hit) hr
  · show (inv.items.filter (fun it => !p it)).filter _ = _
    rw [List.filter_filter]
    refine List.filter_congr fun it hit => ?_
    cases hc : isCost resource componentType it with
    | false => rfl
    | true => simp [hp it (hinv it hit) hc]

/-- A discount line is not counted at all. -/
theorem isRelated_of_isDiscount {it : InvoiceItem} (h : it.details.isDiscount = true) :
    isRelated resource componentType it = false := by
  simp [isRelated, h]

theorem isRelated_of_isCost {it : InvoiceItem} (h : isCost resource componentType it = true) :
    isRelated resource componentType it = true ∧ it.details.isCompensation = false := by
  simpa [isCost] using h

/-- **The discount pass** leaves the net billed quantity alone. -/
theorem keepsBilling_discounts (planComponents : ℕ → Option PlanComponent) (invoice : ℕ) :
    KeepsBilling resource componentType db (applyAggregatedVolumeDiscounts db planComponents invoice) := by
  refine @KeepsBilling.of_update resource componentType db _ invoice (discountInvoice planComponents db.nextUuid)
    (discountInvoice_id planComponents db.nextUuid) rfl fun inv => ?_
  have hdelete : KeepsItems resource componentType inv (inv.deleteItems (fun it => it.details.isDiscount)) := by
    refine keepsItems_deleteItems fun it _ hc => ?_
    cases hd : it.details.isDiscount with
    | false => rfl
    | true => rw [← (isRelated_of_isCost hc).1, isRelated_of_isDiscount hd]
  refine hdelete.trans (keepsItems_bulkCreate (fun it hit => ?_) (fun it hit hr => ?_))
  · unfold isCost
    rw [isRelated_of_isDiscount (discountLines_isDiscount hit), Bool.false_and]
  · rw [isRelated_of_isDiscount (discountLines_isDiscount hit)] at hr
    cases hr

/-! ## Compensation runs -/

/-- The compensations of a run are marked, and belong to a credit. -/
theorem isCompensation_of_calculate {mc : MonthlyCompensation} {today : Date} (hnone : mc.compensations = [])
    {c : InvoiceItem} (hc : c ∈ (mc.calculateCurrentCompensations db today).compensations) :
    c.details.isCompensation = true := by
  have hself : c ∉ mc.compensations := by
    rw [hnone]
    exact List.not_mem_nil
  unfold calculateCurrentCompensations at hc
  split at hc
  · exact absurd hc hself
  · split at hc
    · next credit inv _ _ =>
      split at hc
      · exact absurd hc hself
      · have hc' : c ∈ (compensate db inv credit.obj).compensations := hc
        obtain ⟨it, -, amount, -, hcomp⟩ := runAfter_compensate.item c hc'
        rw [hcomp]
        rfl
    · exact absurd hc hself

theorem keepsItems_compensations {inv : Invoice} {new : List InvoiceItem}
    (hnew : ∀ it ∈ new, it.details.isCompensation = true) :
    KeepsItems resource componentType inv (inv.bulkCreate new) := by
  have hcost : ∀ it ∈ new, isCost resource componentType it = false := by
    intro it hit
    simp [isCost, hnew it hit]
  refine keepsItems_bulkCreate hcost fun it hit _ => ⟨fun _ => hnew it hit, fun hc => ?_, fun hc => ?_⟩
  · rw [hcost it hit] at hc
    cases hc
  · rw [hcost it hit] at hc
    cases hc

/-- A save leaves the net billed quantity alone. -/
theorem keepsBilling_save {mc mc' : MonthlyCompensation} {today : Date} (hnone : mc.compensations = [])
    (h : mc.save db today = .ok (db', mc')) : KeepsBilling resource componentType db db' := by
  cases hmc : mc.credit with
  | none =>
    rw [save_of_no_credit hmc] at h
    obtain ⟨rfl, -⟩ := Prod.mk.inj (Except.ok.inj h)
    exact KeepsBilling.of_invoices rfl
  | some credit₀ =>
    have hsome : mc.credit ≠ none := by
      rw [hmc]
      exact Option.some_ne_none _
    obtain ⟨credit, hc⟩ := Option.ne_none_iff_exists'.mp (@credit_calculate_ne_none db today mc hsome)
    obtain ⟨db₁, h₁, rfl, -⟩ := (save_eq_ok hsome hc).mp h
    obtain ⟨-, rfl⟩ := (saveProjectCredits_eq_ok rfl _ _ _).mp h₁
    have hcreate : KeepsBilling resource componentType db
        ((mc.calculateCurrentCompensations db today).createItems db) := by
      cases hid : (mc.calculateCurrentCompensations db today).invoice with
      | none =>
        refine KeepsBilling.of_invoices ?_
        unfold createItems
        rw [hid]
      | some id =>
        exact KeepsBilling.of_update (createItems_invoices hid) fun inv =>
          keepsItems_compensations fun it hit => isCompensation_of_calculate hnone hit
    exact hcreate.trans (KeepsBilling.of_invoices (writeProjectCredits_invoices _ _))

theorem keepsBilling_writes (st : LedgerState) (credit : Loaded CustomerCredit) (fields fields' : UpdateFields)
    (L : List (Loaded ProjectCredit)) : KeepsBilling resource componentType db
      ((db.writeCustomerCredit st credit fields).writeProjectCredits st L fields') :=
  KeepsBilling.of_invoices (writeProjectCredits_invoices _ _)

theorem keepsBilling_delete (mc : MonthlyCompensation) (credit : CustomerCredit) :
    KeepsBilling resource componentType db (mc.deleteItems db credit) := by
  cases hid : mc.invoice with
  | none =>
    refine KeepsBilling.of_invoices ?_
    unfold deleteItems
    rw [hid]
  | some id =>
    refine KeepsBilling.of_update (deleteItems_invoices hid _) fun inv => keepsItems_deleteItems fun it hb hcost => ?_
    obtain ⟨hr, hcomp⟩ := isRelated_of_isCost hcost
    rw [beq_eq_false_iff_ne]
    intro hcredit
    have hmarked := (hb hr).credit (by rw [hcredit]; exact Option.some_ne_none _)
    rw [hcomp] at hmarked
    cases hmarked

/-- A roll-back deletes lines that belong to a credit. -/
theorem keepsBilling_clear {mc mc' : MonthlyCompensation} {today : Date} (hcalc : mc.calculated = false)
    (h : mc.clearCompensations db today = .ok (db', mc')) :
    KeepsBilling resource componentType db db' ∧ mc'.compensations = mc.compensations := by
  rcases clear_cases hcalc h with ⟨rfl, rfl⟩ | ⟨credit, inv, hc, -, h⟩
  · exact ⟨KeepsBilling.of_invoices rfl, rfl⟩
  · obtain ⟨db₁, h₁, rfl, rfl⟩ := rollBack_eq_ok.mp h
    obtain ⟨-, rfl⟩ := (saveProjectCredits_eq_ok rfl _ _ _).mp h₁
    exact ⟨(keepsBilling_writes _ _ _ _ _).trans (keepsBilling_delete mc credit.obj), rfl⟩

/-- **A compensation run** leaves the net billed quantity alone. -/
theorem keepsBilling_apply {mc' : MonthlyCompensation} {customer : ℕ} {invoice : Option ℕ} {today : Date}
    (h : (init db customer invoice).applyCompensations db today = .ok (db', mc')) :
    KeepsBilling resource componentType db db' := by
  obtain ⟨⟨db₁, mc₁⟩, h₁, h₂⟩ := bind_eq_ok.mp h
  obtain ⟨hclear, hcomp⟩ := keepsBilling_clear rfl h₁
  exact hclear.trans (keepsBilling_save hcomp h₂)

end

/-! ## Runs of the billing -/

/-- A `process_update` call for the component of a resource in state OK, its plan as it is then. -/
structure LimitUpdate (ref : Resource) (componentType : String) where
  resource : MarketplaceResource
  plan : Plan
  planComponent : PlanComponent
  invoice : ℕ
  quantity : ℚ
  now : Instant
  monthEnd : Instant
  ref_eq : resource.ref = ref
  state_ok : resource.state = .ok
  plan_eq : resource.plan = some plan
  component_eq : plan.component? componentType = some planComponent

/-- What happens to the invoices: limit updates of the component, discount passes and compensation runs. -/
inductive BillingOp (ref : Resource) (componentType : String)
  | processUpdate (update : LimitUpdate ref componentType)
  | applyDiscounts (planComponents : ℕ → Option PlanComponent) (invoice : ℕ)
  | applyCompensations (customer : ℕ) (invoice : Option ℕ) (today : Date)

section

variable {ref : Resource} {componentType : String}

/-- One operation; a compensation run that raises is rolled back. -/
def bill (db : Db) : BillingOp ref componentType → Db
  | .processUpdate u =>
    createInvoiceItemForTotalLimit db u.resource u.invoice componentType u.quantity u.now u.monthEnd
  | .applyDiscounts planComponents invoice => applyAggregatedVolumeDiscounts db planComponents invoice
  | .applyCompensations customer invoice today =>
    match (init db customer invoice).applyCompensations db today with
    | .ok (db', _) => db'
    | .error _ => db

/-- The update goes to an invoice of the customer of the resource. -/
def LimitUpdate.OnInvoice (u : LimitUpdate ref componentType) (db : Db) : Prop :=
  ∃ inv, db.invoices.get? u.invoice = some inv ∧ inv.customer = ref.project.customer

instance (u : LimitUpdate ref componentType) (db : Db) : Decidable (u.OnInvoice db) :=
  decidable_of_iff ((db.invoices.get? u.invoice).any (fun inv => decide (inv.customer = ref.project.customer)) = true)
    (by simp [LimitUpdate.OnInvoice, Option.any_eq_true])

/-- After an update the net billed quantity is the new limit. -/
def NetIsLimit (db : Db) : BillingOp ref componentType → Prop
  | .processUpdate u =>
    u.OnInvoice db → netBilled ref.id componentType (bill db (.processUpdate u)) = u.quantity
  | .applyDiscounts _ _ => True
  | .applyCompensations _ _ _ => True

/-- An update reads the billed total right. -/
def UpdateReadsRight (db : Db) : BillingOp ref componentType → Prop
  | .processUpdate u => u.OnInvoice db → ReadsRight ref.id componentType db
  | .applyDiscounts _ _ => True
  | .applyCompensations _ _ _ => True

instance (db : Db) : ∀ op : BillingOp ref componentType, Decidable (NetIsLimit db op)
  | .processUpdate _ => inferInstanceAs (Decidable (_ → _ = _))
  | .applyDiscounts _ _ => isTrue trivial
  | .applyCompensations _ _ _ => isTrue trivial

instance (db : Db) : ∀ op : BillingOp ref componentType, Decidable (UpdateReadsRight db op)
  | .processUpdate _ => inferInstanceAs (Decidable (_ → ReadsRight _ _ _))
  | .applyDiscounts _ _ => isTrue trivial
  | .applyCompensations _ _ _ => isTrue trivial

variable {db : Db} {u : LimitUpdate ref componentType}

theorem LimitUpdate.componentType_eq (u : LimitUpdate ref componentType) :
    u.planComponent.componentType = componentType := by
  have h := List.find?_some u.component_eq
  simpa using h

/-- What an update writes. -/
theorem bill_processUpdate (u : LimitUpdate ref componentType) :
    bill db (.processUpdate u) =
      let diff := u.quantity - billedTotal (relatedInvoiceItems db ref.id componentType)
      if diff = 0 then db
      else
        { db with
          invoices := db.invoices.update u.invoice
            (·.bulkCreate [differenceItem db.nextUuid ref u.plan u.planComponent diff u.now u.monthEnd])
            (fun inv => inv.bulkCreate_id _)
          nextUuid := db.nextUuid + 1 } := by
  have hstate : ¬ u.resource.state ≠ .ok := by simp [u.state_ok]
  show createInvoiceItemForTotalLimit db u.resource u.invoice componentType u.quantity u.now u.monthEnd = _
  unfold createInvoiceItemForTotalLimit
  rw [if_neg hstate, u.plan_eq]
  simp only [u.component_eq, u.ref_eq]

/-- The item of a difference is a cost item of that difference. -/
theorem differenceItem_spec (uuid : ℕ) {diff : ℚ} (hdiff : diff ≠ 0) (start stop : Instant) :
    let it := differenceItem uuid ref u.plan u.planComponent diff start stop
    isCost ref.id componentType it = true ∧ AsBilled ref.id componentType it ∧
      (if isDecrease it then -it.quantity else it.quantity) = diff := by
  have htype := u.componentType_eq
  have hprice := u.planComponent.price_nonneg
  rcases lt_or_gt_of_ne hdiff with hlt | hgt
  · have hdec : isDecrease (differenceItem uuid ref u.plan u.planComponent diff start stop) = true := by
      simpa [isDecrease, differenceItem] using hlt
    refine ⟨by simp [isCost, isRelated, differenceItem, htype], ⟨fun h => absurd rfl h, fun _ _ => ?_, fun _ h => ?_⟩,
      ?_⟩
    · show (if diff > 0 then u.planComponent.price else -u.planComponent.price) ≤ 0
      rw [if_neg hlt.not_gt]
      linarith
    · rw [hdec] at h
      cases h
    · rw [hdec, if_pos rfl]
      show -(if diff > 0 then diff else -diff) = diff
      rw [if_neg hlt.not_gt]
      ring
  · have hdec : isDecrease (differenceItem uuid ref u.plan u.planComponent diff start stop) = false := by
      simpa [isDecrease, differenceItem] using hgt.le
    refine ⟨by simp [isCost, isRelated, differenceItem, htype], ⟨fun h => absurd rfl h, fun _ h => ?_, fun _ _ => ?_⟩,
      ?_⟩
    · rw [hdec] at h
      cases h
    · show 0 ≤ (if diff > 0 then u.planComponent.price else -u.planComponent.price)
      rw [if_pos hgt]
      exact hprice
    · rw [hdec, if_neg Bool.false_ne_true]
      exact if_pos hgt

/-- An update keeps the items of the component as billing makes them. -/
theorem allAsBilled_processUpdate (u : LimitUpdate ref componentType) (hb : AllAsBilled ref.id componentType db) :
    AllAsBilled ref.id componentType (bill db (.processUpdate u)) := by
  rw [bill_processUpdate]
  dsimp only
  split
  · exact hb
  · next hdiff =>
    intro inv hinv it hit hr
    have hrow : inv ∈ (db.invoices.update u.invoice _ (fun inv => inv.bulkCreate_id _)).rows := hinv
    obtain ⟨inv₀, hinv₀, rfl⟩ := Table.mem_update.mp hrow
    split at hit
    · rcases items_bulkCreate inv₀ _ with hi | hi
      · rw [hi] at hit
        rcases List.mem_append.mp hit with hold | hnew
        · exact hb inv₀ hinv₀ it hold hr
        · rw [List.mem_singleton.mp hnew]
          exact (differenceItem_spec _ hdiff _ _).2.1
      · rw [hi] at hit
        exact hb inv₀ hinv₀ it hit hr
    · exact hb inv₀ hinv₀ it hit hr

/-- **One update** moves the net billed quantity by the difference that it sees. -/
theorem netBilled_processUpdate (hu : u.OnInvoice db) :
    netBilled ref.id componentType (bill db (.processUpdate u)) =
      netBilled ref.id componentType db +
        (u.quantity - billedTotal (relatedInvoiceItems db ref.id componentType)) := by
  obtain ⟨inv, hinv, hcust⟩ := hu
  rw [bill_processUpdate]
  dsimp only
  split
  · next hdiff => rw [hdiff, add_zero]
  · next hdiff =>
    obtain ⟨hcost, -, hvalue⟩ := @differenceItem_spec ref componentType u db.nextUuid _ hdiff u.now u.monthEnd
    have hattributed : ∀ it ∈ [differenceItem db.nextUuid ref u.plan u.planComponent
        (u.quantity - billedTotal (relatedInvoiceItems db ref.id componentType)) u.now u.monthEnd],
        it.WellAttributed inv.customer := by
      intro it hit r hr
      rw [List.mem_singleton.mp hit] at hr ⊢
      obtain rfl := Option.some.inj hr
      exact ⟨rfl, hcust.symm⟩
    refine (Table.sum_update db.invoices hinv _ (fun inv => inv.bulkCreate_id _)
      (fun inv => ((inv.items.filter (isCost ref.id componentType)).map
        (fun it => if isDecrease it then -it.quantity else it.quantity)).sum)).trans ?_
    have hitems : (inv.bulkCreate [differenceItem db.nextUuid ref u.plan u.planComponent
        (u.quantity - billedTotal (relatedInvoiceItems db ref.id componentType)) u.now u.monthEnd]).items =
        inv.items ++ [differenceItem db.nextUuid ref u.plan u.planComponent
          (u.quantity - billedTotal (relatedInvoiceItems db ref.id componentType)) u.now u.monthEnd] :=
      congrArg Invoice.items (dif_pos hattributed)
    rw [hitems, List.filter_append, List.filter_cons_of_pos hcost, List.filter_nil, List.map_append,
      List.sum_append, List.map_singleton, List.sum_singleton, hvalue]
    unfold netBilled itemSum
    ring

/-- **When an update reads the total right.** -/
theorem netIsLimit_iff (hb : AllAsBilled ref.id componentType db) (op : BillingOp ref componentType) :
    NetIsLimit db op ↔ UpdateReadsRight db op := by
  cases op with
  | processUpdate u =>
    refine forall_congr' fun hu => ?_
    rw [netBilled_processUpdate hu, billedTotal_eq_netBilled hb]
    unfold ReadsRight
    constructor
    · intro h
      linarith
    · intro h
      linarith
  | applyDiscounts planComponents invoice => exact Iff.rfl
  | applyCompensations customer invoice today => exact Iff.rfl

/-- Every operation keeps the items of the component as billing makes them. -/
theorem allAsBilled_bill (hb : AllAsBilled ref.id componentType db) (op : BillingOp ref componentType) :
    AllAsBilled ref.id componentType (bill db op) := by
  cases op with
  | processUpdate u => exact allAsBilled_processUpdate u hb
  | applyDiscounts planComponents invoice => exact (keepsBilling_discounts planComponents invoice hb).1
  | applyCompensations customer invoice today =>
    show AllAsBilled ref.id componentType (match (init db customer invoice).applyCompensations db today with
      | .ok (db', _) => db'
      | .error _ => db)
    split
    · next h => exact (keepsBilling_apply h hb).1
    · exact hb

theorem along_netIsLimit_iff (ops : List (BillingOp ref componentType)) (hb : AllAsBilled ref.id componentType db) :
    Along bill NetIsLimit db ops ↔ Along bill UpdateReadsRight db ops :=
  along_congr (fun _ op hb => netIsLimit_iff hb op) (fun _ op hb _ => allAsBilled_bill hb op) ops db hb

end

/-- **The net billed quantity of a TOTAL component** is its limit after every update of a run exactly if
every update reads the billed total right. -/
theorem netBilled_eq_limit_iff (ref : Resource) (componentType : String) (db : Db)
    (ops : List (BillingOp ref componentType)) (hb : AllAsBilled ref.id componentType db) :
    Along bill NetIsLimit db ops ↔ Along bill UpdateReadsRight db ops :=
  along_netIsLimit_iff ops hb

/-- A resource of project 10 of organization 1, its seats priced 10 with a tenth off from five on. -/
def seats : Resource := ⟨1, 1, ⟨10, 1⟩⟩

def seatsComponent : PlanComponent where
  id := 1
  componentType := "seats"
  price := 10
  discountFormula := some (fun usage => some (if 5 ≤ usage then 10 else 0))
  price_nonneg := ten_nonneg

def seatsPlan : Plan := { uuid := 1, unit := .perMonth, components := [seatsComponent] }

/-- A limit update on the open invoice. -/
def setSeats (quantity : ℚ) : BillingOp seats "seats" :=
  .processUpdate
    { resource := ⟨seats, "", .ok, some seatsPlan⟩
      plan := seatsPlan
      planComponent := seatsComponent
      invoice := 1
      quantity := quantity
      now := 0
      monthEnd := 0
      ref_eq := rfl
      state_ok := rfl
      plan_eq := rfl
      component_eq := by rfl }

/-- An organization with a credit of 100 and an empty invoice. -/
def seatsDb : Db := sampleDb { customer := 1, value := 100 } [] noAllocations (sampleInvoice 1 0 Invoice.untaxed [])

/-- Five seats are compensated; raised to eight, the line of the compensation counts as a seat given back,
and four seats are billed on top of five. -/
theorem compensated_seats_misread :
    ¬ Along bill NetIsLimit seatsDb [setSeats 5, .applyCompensations 1 (some 1) midJune, setSeats 8] := by
  decide +kernel

theorem seatsDb_allAsBilled : AllAsBilled seats.id "seats" seatsDb := by
  intro inv hinv it hit _
  rw [List.mem_singleton.mp hinv] at hit
  cases hit

/-- Discount lines and a compensation run after the last update do no harm. -/
theorem discounted_seats_net :
    Along bill NetIsLimit seatsDb
      [setSeats 5, .applyDiscounts (fun id => if id = 1 then some seatsComponent else none) 1, setSeats 3,
        .applyCompensations 1 (some 1) midJune] :=
  (netBilled_eq_limit_iff seats "seats" seatsDb _ seatsDb_allAsBilled).mpr (by decide +kernel)

end Waldur.Marketplace
