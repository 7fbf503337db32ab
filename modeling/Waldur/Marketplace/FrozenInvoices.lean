import Mathlib
import Waldur.Marketplace.BillingChanges

/-!
# Marketplace.FrozenInvoices — billing calls and issued invoices

An invoice that is no longer mutable keeps its items through a termination and through usage reports, which
look at its state.  A limit change and the registration of a plan change write to the invoice that they
find, whatever its state: the invoice that a component's change goes to (`updateTarget`) has to be open.
-/

namespace Waldur.Marketplace

open Calendar Clock Invoices Relational Runs

/-! ## Writes to one invoice -/

/-- The columns of an invoice that lookups and guards read. -/
def SameHeader (inv inv' : Invoice) : Prop :=
  inv'.id = inv.id ∧ inv'.customer = inv.customer ∧ inv'.year = inv.year ∧ inv'.month = inv.month ∧
    inv'.state = inv.state

/-- Only one invoice may have changed, in its items. -/
def WritesTo (invoice : ℕ) (db db' : Db) : Prop :=
  ∃ f : Invoice → Invoice, db'.invoices.rows = db.invoices.rows.map f ∧
    ∀ inv ∈ db.invoices.rows, SameHeader inv (f inv) ∧ (inv.id ≠ invoice → f inv = inv)

/-- The invoice, if it exists, accepts changes. -/
def IsOpen (invoice : ℕ) (db : Db) : Prop :=
  ∀ inv, db.invoices.get? invoice = some inv → inv.state.isMutable = true

/-- **The invoices that accept no changes are the same.** -/
def FrozenKept (db db' : Db) : Prop :=
  ∀ id inv, db.invoices.get? id = some inv → inv.state.isMutable = false → db'.invoices.get? id = some inv

section Writes

variable {invoice : ℕ} {db db' db'' : Db}

theorem SameHeader.refl (inv : Invoice) : SameHeader inv inv := ⟨rfl, rfl, rfl, rfl, rfl⟩

theorem FrozenKept.refl (db : Db) : FrozenKept db db := fun _ _ h _ => h

theorem FrozenKept.trans (h : FrozenKept db db') (h' : FrozenKept db' db'') : FrozenKept db db'' :=
  fun id inv hinv hfrozen => h' id inv (h id inv hinv hfrozen) hfrozen

theorem WritesTo.refl (invoice : ℕ) (db : Db) : WritesTo invoice db db :=
  ⟨id, (List.map_id _).symm, fun inv _ => ⟨SameHeader.refl inv, fun _ => rfl⟩⟩

/-- What a row has become. -/
theorem WritesTo.get? (h : WritesTo invoice db db') {id : ℕ} {inv' : Invoice} (hinv' : db'.invoices.get? id = some inv') :
    ∃ inv, db.invoices.get? id = some inv ∧ SameHeader inv inv' ∧ (id ≠ invoice → inv' = inv) := by
  obtain ⟨f, hrows, hf⟩ := h
  obtain ⟨hmem, hkey⟩ := Table.get?_eq_some.mp hinv'
  rw [hrows] at hmem
  obtain ⟨inv, hinv, rfl⟩ := List.mem_map.mp hmem
  obtain ⟨hheader, hother⟩ := hf inv hinv
  have hid : inv.id = id := hheader.1.symm.trans hkey
  exact ⟨inv, Table.get?_eq_some.mpr ⟨hinv, hid⟩, hheader, fun hne => hother (hid ▸ hne)⟩

theorem WritesTo.isOpen (h : WritesTo invoice db db') {id : ℕ} (hopen : IsOpen id db) : IsOpen id db' := by
  intro inv' hinv'
  obtain ⟨inv, hinv, hheader, -⟩ := h.get? hinv'
  rw [hheader.2.2.2.2]
  exact hopen inv hinv

/-- A write to an open invoice keeps the others. -/
theorem WritesTo.kept (h : WritesTo invoice db db') (hopen : IsOpen invoice db) : FrozenKept db db' := by
  intro id inv hinv hfrozen
  obtain ⟨f, hrows, hf⟩ := h
  obtain ⟨hmem, hkey⟩ := Table.get?_eq_some.mp hinv
  have hne : id ≠ invoice := by
    rintro rfl
    simp [hopen inv hinv] at hfrozen
  refine Table.get?_eq_some.mpr ⟨?_, hkey⟩
  rw [hrows]
  exact List.mem_map.mpr ⟨inv, hmem, (hf inv hmem).2 (hkey ▸ hne)⟩

/-- A row rewritten under its own header. -/
theorem writesTo_update {f : Invoice → Invoice} {hf : ∀ inv, (f inv).id = inv.id} {n : ℕ}
    (hheader : ∀ inv, db.invoices.get? invoice = some inv → SameHeader inv (f inv)) :
    WritesTo invoice db { db with invoices := db.invoices.update invoice f hf, nextUuid := n } := by
  refine ⟨fun inv => if inv.id = invoice then f inv else inv, rfl, fun inv hinv => ?_⟩
  dsimp only
  by_cases hid : inv.id = invoice
  · rw [if_pos hid]
    exact ⟨hheader inv (Table.get?_eq_some.mpr ⟨hinv, hid⟩), fun hne => absurd hid hne⟩
  · rw [if_neg hid]
    exact ⟨SameHeader.refl inv, fun _ => rfl⟩

theorem sameHeader_bulkCreate (inv : Invoice) (new : List InvoiceItem) : SameHeader inv (inv.bulkCreate new) := by
  unfold Invoice.bulkCreate
  split <;> exact ⟨rfl, rfl, rfl, rfl, rfl⟩

theorem createItem_writes (invoice : ℕ) (item : ℕ → InvoiceItem) (db : Db) :
    WritesTo invoice db (createItem invoice item db) :=
  writesTo_update fun inv _ => sameHeader_bulkCreate inv _

end Writes

/-! ## Components on an invoice -/

section Component

variable {org : Organization} {resource : BilledResource} {plan : Plan} {pc : PlanComponent} {inv : Invoice}
variable {effective : EffectiveComponent} {invoice : ℕ} {start stop : Instant} {orderType : Option OrderType}
variable {db db' : Db}

theorem createInvoiceItem_writes :
    WritesTo invoice db (createInvoiceItem resource plan pc effective invoice start stop db) := by
  unfold createInvoiceItem
  dsimp only
  split
  · exact WritesTo.refl _ _
  · split
    · exact WritesTo.refl _ _
    · split
      · next inv' hreopened =>
        refine writesTo_update fun inv₀ hinv₀ => ?_
        split at hreopened
        · cases hreopened
        · rw [hinv₀, Option.bind_some] at hreopened
          unfold reopenClosedItem at hreopened
          split at hreopened
          · cases hreopened
          · obtain rfl := Option.some.inj hreopened
            exact ⟨rfl, rfl, rfl, rfl, rfl⟩
      · exact createItem_writes _ _ _

theorem createInvoiceItem_of_no_limit (h : billableLimit resource pc.componentType = none) :
    createInvoiceItem resource plan pc effective invoice start stop db = db := by
  unfold createInvoiceItem
  rw [h]
  exact ite_self _

/-- **Where a component is charged** on an invoice that a resource is added to. -/
def componentCharges (resource : BilledResource) (plan : Plan) (start : Instant) (orderType : Option OrderType)
    (pc : PlanComponent) : Bool :=
  (resource.offeringComponent? pc.componentType).any (fun component =>
    let effective := resolveComponent component (some plan.billingMode)
    if effective.billingType = .limit then
      (if effective.limitPeriod = some .total then orderType == some .create
        else shouldProcessBilling effective.limitPeriod start resource.created) &&
          (billableLimit resource pc.componentType).isSome
    else isCharged effective orderType)

/-- One component writes to the invoice that it is billed on, and only if it is charged. -/
theorem processComponent_writes
    (hok : processComponent org resource plan inv start stop orderType db pc = .ok db') :
    WritesTo inv.id db db' ∧ (componentCharges resource plan start orderType pc = false → db' = db) := by
  unfold processComponent at hok
  unfold componentCharges
  cases hcomponent : resource.offeringComponent? pc.componentType with
  | none =>
    rw [hcomponent] at hok
    obtain rfl := Except.ok.inj hok
    exact ⟨WritesTo.refl _ _, fun _ => rfl⟩
  | some component =>
    rw [hcomponent] at hok
    dsimp only at hok
    rw [Option.any_some]
    have hlimit : ∀ {start stop : Instant} {effective : EffectiveComponent},
        (billableLimit resource pc.componentType).isSome = false →
          createInvoiceItem resource plan pc effective inv.id start stop db = db := fun h =>
      createInvoiceItem_of_no_limit (Option.isSome_eq_false_iff.mp h |> Option.isNone_iff_eq_none.mp)
    split at hok
    · next hbilling =>
      dsimp only
      rw [if_pos hbilling]
      unfold processCreation at hok
      split at hok
      · next htotal =>
        rw [if_pos htotal]
        obtain rfl := Except.ok.inj hok
        split
        · next hcreate =>
          refine ⟨createInvoiceItem_writes, fun h => hlimit ?_⟩
          simpa [hcreate] using h
        · exact ⟨WritesTo.refl _ _, fun _ => rfl⟩
      · next htotal =>
        rw [if_neg htotal]
        split at hok
        · obtain rfl := Except.ok.inj hok
          exact ⟨WritesTo.refl _ _, fun _ => rfl⟩
        · next hshould =>
          rw [Bool.not_eq_true', Bool.not_eq_false] at hshould
          rw [hshould, Bool.true_and]
          split at hok
          · obtain ⟨p, -, hok⟩ := bind_eq_ok.mp hok
            obtain rfl := Except.ok.inj hok
            exact ⟨createInvoiceItem_writes, hlimit⟩
          · obtain rfl := Except.ok.inj hok
            exact ⟨createInvoiceItem_writes, hlimit⟩
    · next hbilling =>
      dsimp only
      rw [if_neg hbilling]
      unfold processSimpleBillingComponent at hok
      split at hok
      · obtain rfl := Except.ok.inj hok
        exact ⟨WritesTo.refl _ _, fun _ => rfl⟩
      · next hcharged =>
        split at hok
        · cases hok
        · obtain rfl := Except.ok.inj hok
          exact ⟨createItem_writes _ _ _, fun h => by simp [h] at hcharged⟩

end Component

/-! ## Invoices -/

/-- A state that keeps the frozen invoices and leaves an open one open. -/
def KeepsOpen (invoice : ℕ) (db db' : Db) : Prop :=
  IsOpen invoice db → FrozenKept db db' ∧ IsOpen invoice db'

section Invoices

variable {org : Organization} {resource : BilledResource} {inv : Invoice} {invoice : ℕ} {start stop : Instant}
variable {orderType : Option OrderType} {db db' : Db}

theorem KeepsOpen.refl (invoice : ℕ) (db : Db) : KeepsOpen invoice db db := fun h => ⟨FrozenKept.refl db, h⟩

theorem KeepsOpen.trans {db'' : Db} (h : KeepsOpen invoice db db') (h' : KeepsOpen invoice db' db'') :
    KeepsOpen invoice db db'' := by
  intro hopen
  obtain ⟨hkept, hopen'⟩ := h hopen
  obtain ⟨hkept', hopen''⟩ := h' hopen'
  exact ⟨hkept.trans hkept', hopen''⟩

theorem WritesTo.keepsOpen (h : WritesTo invoice db db') : KeepsOpen invoice db db' :=
  fun hopen => ⟨h.kept hopen, h.isOpen hopen⟩

theorem alongUntil_true {σ ω ε : Type} {f : σ → ω → σ × Option ε} : ∀ (l : List ω) (s : σ),
    AlongUntil f (fun _ _ => True) s l
  | [], _ => trivial
  | _ :: l, _ => ⟨trivial, fun _ => alongUntil_true l _⟩

theorem leave_rel {ε : Type} {R : Db → Db → Prop} (hrefl : ∀ db, R db db) {r : Except ε Db}
    (h : ∀ db', r = .ok db' → R db db') : R db (leave db r).1 := by
  cases r with
  | ok db' => exact h db' rfl
  | error e => exact hrefl db

theorem processResourceUntil_keepsOpen :
    KeepsOpen inv.id db (org.processResourceUntil inv start stop orderType db resource).1 := by
  unfold Organization.processResourceUntil
  split
  · exact KeepsOpen.refl _ _
  · split
    · exact KeepsOpen.refl _ _
    · refine foldUntil_rel (KeepsOpen.refl inv.id) KeepsOpen.trans (fun db pc _ => ?_) (alongUntil_true _ _)
      exact leave_rel (KeepsOpen.refl inv.id) fun db' hok => (processComponent_writes hok).1.keepsOpen

/-- A new invoice is open, and the others stay as they are. -/
theorem insert_kept {inv : Invoice} (h : db.invoices.get? inv.id = none) (hopen : inv.state.isMutable = true) :
    FrozenKept db { db with invoices := db.invoices.insert inv h } ∧
      IsOpen inv.id { db with invoices := db.invoices.insert inv h } := by
  constructor
  · intro id inv' hinv' _
    have hne : id ≠ inv.id := by
      rintro rfl
      rw [h] at hinv'
      cases hinv'
    exact (Table.get?_insert db.invoices inv h id).trans ((if_neg hne).trans hinv')
  · intro inv' hinv'
    have hself := (Table.get?_insert db.invoices inv h inv.id).trans (if_pos rfl)
    obtain rfl := Option.some.inj (hself.symm.trans hinv')
    exact hopen

theorem findInvoice_mem {date : Instant} (h : org.findInvoice date db = some inv) : inv ∈ db.invoices.rows :=
  List.mem_of_find?_eq_some h

/-- The invoices other than the one of the month, and that one if it is issued, stay as they are; a new one is open. -/
theorem openInvoice_spec (date : Instant) : FrozenKept db (org.openInvoice date orderType db).1 ∧
    ∀ inv, (org.openInvoice date orderType db).2 = .ok inv →
      (∀ inv, org.findInvoice date db = some inv → inv.state.isMutable = true) →
        IsOpen inv.id (org.openInvoice date orderType db).1 := by
  unfold Organization.openInvoice
  cases hfind : org.findInvoice date db with
  | some inv₀ =>
    refine ⟨FrozenKept.refl db, fun inv hok hmutable inv' hinv' => ?_⟩
    obtain rfl := Except.ok.inj hok
    have hmem := findInvoice_mem hfind
    obtain ⟨hmem', hkey'⟩ := Table.get?_eq_some.mp hinv'
    rw [db.invoices.eq_of_key_eq hmem' hmem hkey']
    exact hmutable inv₀ rfl
  | none =>
    dsimp only
    have hnew : db.invoices.get? (org.newInvoice date db).id = none := get?_nextInvoice db
    obtain ⟨hkept, hopen⟩ := insert_kept hnew rfl
    have hstep : ∀ (db₀ : Db) (resource : BilledResource), True → KeepsOpen (org.newInvoice date db).id db₀
        (org.processResourceUntil (org.newInvoice date db) date (monthEnd date) orderType db₀ resource).1 :=
      fun _ _ _ => processResourceUntil_keepsOpen
    have hloop := foldUntil_rel (KeepsOpen.refl (org.newInvoice date db).id) KeepsOpen.trans hstep
      (alongUntil_true org.billedResources
        { db with invoices := db.invoices.insert (org.newInvoice date db) (get?_nextInvoice db) })
    obtain ⟨hkept', hopen'⟩ := hloop hopen
    have hdone := hkept.trans hkept'
    split
    · next heq =>
      rw [heq] at hdone hopen'
      refine ⟨hdone, fun inv hok _ => ?_⟩
      obtain rfl := Except.ok.inj hok
      exact hopen'
    · next heq =>
      rw [heq] at hdone
      exact ⟨hdone, fun inv hok => nomatch hok⟩

theorem openInvoice_kept (date : Instant) : FrozenKept db (org.openInvoice date orderType db).1 :=
  (openInvoice_spec date).1

theorem processResourceUntil_of_ok (hok : processResource org inv start stop orderType db resource = .ok db') :
    org.processResourceUntil inv start stop orderType db resource = (db', none) := by
  unfold processResource at hok
  unfold Organization.processResourceUntil
  cases hplan : resource.plan with
  | none =>
    rw [hplan] at hok
    obtain rfl := Except.ok.inj hok
    rfl
  | some plan =>
    rw [hplan] at hok
    dsimp only at hok ⊢
    split at hok
    · next hbillable =>
      obtain rfl := Except.ok.inj hok
      rw [if_pos hbillable]
    · next hbillable =>
      rw [if_neg hbillable]
      exact foldUntil_of_foldlM (fun db pc db' hpc => by rw [hpc]; rfl) hok

/-- Where creating an invoice raises nothing, it leaves the same with and without a transaction. -/
theorem openInvoice_of_ok {date : Instant} {flag : Bool}
    (hok : org.getOrCreateInvoice date orderType db = .ok (db', inv, flag)) :
    org.openInvoice date orderType db = (db', .ok inv) := by
  unfold Organization.getOrCreateInvoice at hok
  unfold Organization.openInvoice
  cases hfind : org.findInvoice date db with
  | some inv₀ =>
    rw [hfind] at hok
    cases hok
    rfl
  | none =>
    rw [hfind] at hok
    obtain ⟨billed, hloop, hok⟩ := bind_eq_ok.mp hok
    cases hok
    have huntil := foldUntil_of_foldlM
      (f := org.processResourceUntil (org.newInvoice date db) date (monthEnd date) orderType)
      (fun _ _ _ h => processResourceUntil_of_ok h) hloop
    dsimp only
    rw [huntil]

theorem getOrCreateInvoice_kept {date : Instant} {flag : Bool}
    (hok : org.getOrCreateInvoice date orderType db = .ok (db', inv, flag)) : FrozenKept db db' := by
  have h : FrozenKept db (org.openInvoice date orderType db).1 := openInvoice_kept date
  rw [openInvoice_of_ok hok] at h
  exact h

end Invoices

/-! ## Limit changes -/

section Limits

variable (resource : BilledResource)

/-- The item that an update finds has another limit. -/
def updateNeeded (plan : Plan) (componentType : String) (newQuantity : ℚ) (inv : Invoice) : Bool :=
  match inv.items.filter (isLimitItem resource.ref.id componentType plan.uuid) with
  | [item] => item.details.resourceLimitPeriods.getLast?.any (fun p =>
      decide (p.quantity ≠ convertQuantity newQuantity resource.offeringType componentType))
  | _ => false

/-- The invoice, if the update of its item is needed. -/
def updatedOn (invoice : ℕ) (plan : Plan) (componentType : String) (newQuantity : ℚ) (db : Db) : Option ℕ :=
  if (db.invoices.get? invoice).any (updateNeeded resource plan componentType newQuantity) then some invoice else none

/-- **The invoice that a component's limit change goes to**, if it changes anything: a TOTAL component to the
invoice of the month, for a difference; another one to the invoice of the month if it has an item there, or to
the one of its billing period if that has an item, for another limit; else a new item to the invoice of the month. -/
def updateTarget (org : Organization) (invoice : ℕ) (now : Instant) (db : Db) (limit : String × ℚ) : Option ℕ :=
  match resource.offeringComponent? limit.1, resource.plan with
  | some component, some plan =>
    let effective := resolveComponent component (some plan.billingMode)
    if effective.limitPeriod = some .total then
      if resource.state = .ok ∧ limit.2 - billedTotal (relatedInvoiceItems db resource.ref.id limit.1) ≠ 0 ∧
        (plan.component? limit.1).isSome then some invoice else none
    else if hasItem resource invoice component.type db then
      updatedOn resource invoice plan component.type limit.2 db
    else
      match plan.component? component.type, getBillingPeriod effective.limitPeriod now resource.created with
      | some pc, .ok billingPeriod =>
        match periodInvoice resource org invoice component.type effective.limitPeriod billingPeriod.1 db with
        | some inv => updatedOn resource inv.id plan component.type limit.2 db
        | none => if (billableLimit resource pc.componentType).isSome then some invoice else none
      | _, _ => none
  | _, _ => none

/-- Only the target was written to, and nothing without one. -/
def WritesTarget (target : Option ℕ) (db db' : Db) : Prop :=
  match target with
  | none => db' = db
  | some invoice => WritesTo invoice db db'

variable {resource} {org : Organization} {plan : Plan} {invoice : ℕ} {componentType : String} {now : Instant} {q : ℚ}
variable {inv inv' : Invoice} {db db' : Db}

theorem updateLimitItem_writes (hplan : resource.plan = some plan)
    (hok : updateLimitItem resource componentType now q inv = .ok inv') :
    SameHeader inv inv' ∧ (updateNeeded resource plan componentType q inv = false → inv' = inv) := by
  unfold updateLimitItem at hok
  rw [hplan] at hok
  dsimp only at hok
  split at hok
  · cases hok
  · cases hok
  · next item hfilter =>
    split at hok
    · cases hok
    · next oldPeriod hlast =>
      have hneeded : updateNeeded resource plan componentType q inv =
          decide (oldPeriod.quantity ≠ convertQuantity q resource.offeringType componentType) := by
        unfold updateNeeded
        rw [hfilter]
        dsimp only
        rw [hlast, Option.any_some]
      split at hok
      · obtain rfl := Except.ok.inj hok
        exact ⟨SameHeader.refl _, fun _ => rfl⟩
      · next hquantity =>
        refine ⟨?_, fun h => ?_⟩
        · split at hok
          · cases hok
          · split at hok
            · cases hok
            · split at hok
              · cases hok
              · obtain rfl := Except.ok.inj hok
                exact ⟨rfl, rfl, rfl, rfl, rfl⟩
        · rw [hneeded, decide_eq_false_iff_not, not_not] at h
          exact absurd h hquantity

theorem updateOnInvoice_writes (hplan : resource.plan = some plan)
    (hok : updateOnInvoice resource invoice componentType now q db = .ok db') :
    WritesTarget (updatedOn resource invoice plan componentType q db) db db' := by
  unfold updateOnInvoice at hok
  unfold updatedOn
  cases hinv : db.invoices.get? invoice with
  | none =>
    rw [hinv] at hok
    exact (Except.ok.inj hok).symm
  | some inv =>
    rw [hinv] at hok
    obtain ⟨inv', hupdate, hok⟩ := bind_eq_ok.mp hok
    obtain rfl := Except.ok.inj hok
    obtain ⟨hheader, hsame⟩ := updateLimitItem_writes hplan hupdate
    obtain ⟨hmem, hkey⟩ := Table.get?_eq_some.mp hinv
    rw [Option.any_some]
    cases hneeded : updateNeeded resource plan componentType q inv with
    | true =>
      show WritesTo invoice db _
      refine writesTo_update fun inv₀ hinv₀ => ?_
      obtain rfl := Option.some.inj (hinv.symm.trans hinv₀)
      exact ⟨rfl, hheader.2⟩
    | false =>
      -- The row is replaced by itself.
      have hrows : db.invoices.update invoice (fun inv₀ => { inv' with id := inv₀.id }) (fun _ => rfl) = db.invoices := by
        refine Table.ext ((List.map_congr_left fun i hi => ?_).trans (List.map_id _))
        split
        · next hid =>
          rw [db.invoices.eq_of_key_eq hi hmem (hid.trans hkey.symm), hsame hneeded]
          rfl
        · rfl
      show { db with invoices := _ } = db
      rw [hrows]

/-- **The spec of a limit change**: it writes to its target only. -/
theorem processUpdate_writes {limit : String × ℚ} (hok : processUpdate resource org invoice now db limit = .ok db') :
    WritesTarget (updateTarget resource org invoice now db limit) db db' := by
  unfold processUpdate at hok
  unfold updateTarget
  cases hcomponent : resource.offeringComponent? limit.1 with
  | none =>
    rw [hcomponent] at hok
    cases hok
  | some component =>
    have htype : component.type = limit.1 := by
      have h := List.find?_some hcomponent
      exact beq_iff_eq.mp h
    rw [hcomponent] at hok
    dsimp only at hok
    unfold resolved at hok
    cases hplan : resource.plan with
    | none =>
      have hplan' : resource.toMarketplaceResource.plan = none := hplan
      rw [hplan] at hok
      split at hok
      · obtain rfl := Except.ok.inj hok
        show createInvoiceItemForTotalLimit _ _ _ _ _ _ _ = db
        unfold createInvoiceItemForTotalLimit
        rw [hplan']
        exact ite_self _
      · unfold createOrUpdateInvoiceItem at hok
        rw [hplan] at hok
        exact (Except.ok.inj hok).symm
    | some plan =>
      have hplan' : resource.toMarketplaceResource.plan = some plan := hplan
      rw [hplan, Option.map_some] at hok
      dsimp only
      split at hok
      · next htotal =>
        rw [if_pos htotal]
        obtain rfl := Except.ok.inj hok
        unfold createInvoiceItemForTotalLimit
        rw [hplan']
        dsimp only
        by_cases hstate : resource.state = .ok
        · rw [if_neg (not_not.mpr hstate)]
          by_cases hdiff : limit.2 - billedTotal (relatedInvoiceItems db resource.ref.id limit.1) = 0
          · rw [if_pos hdiff, if_neg fun h => h.2.1 hdiff]
            rfl
          · rw [if_neg hdiff]
            cases hpc : plan.component? limit.1 with
            | none =>
              rw [if_neg (by simp)]
              rfl
            | some pc =>
              rw [if_pos ⟨hstate, hdiff, rfl⟩]
              exact createItem_writes invoice (fun uuid => differenceItem uuid resource.ref plan pc
                (limit.2 - billedTotal (relatedInvoiceItems db resource.ref.id limit.1)) now (monthEnd now)) db
        · rw [if_pos hstate, if_neg fun h => hstate h.1]
          rfl
      · next htotal =>
        rw [if_neg htotal]
        unfold createOrUpdateInvoiceItem at hok
        rw [hplan] at hok
        dsimp only at hok
        split at hok
        · next hitem =>
          rw [if_pos hitem]
          exact updateOnInvoice_writes hplan hok
        · next hitem =>
          rw [if_neg hitem]
          cases hpc : plan.component? component.type with
          | none =>
            rw [hpc] at hok
            exact (Except.ok.inj hok).symm
          | some pc =>
            rw [hpc] at hok
            obtain ⟨billingPeriod, hperiod, hok⟩ := bind_eq_ok.mp hok
            rw [hperiod]
            dsimp only
            cases hinv : periodInvoice resource org invoice component.type
                (resolveComponent component (some plan.billingMode)).limitPeriod billingPeriod.1 db with
            | some inv =>
              rw [hinv] at hok
              exact updateOnInvoice_writes hplan hok
            | none =>
              rw [hinv] at hok
              obtain rfl := Except.ok.inj hok
              cases hlimit : billableLimit resource pc.componentType with
              | none => exact createInvoiceItem_of_no_limit hlimit
              | some limit => exact createInvoiceItem_writes

theorem changePrepaidLimit_writes {oldLimits : List (String × ℚ)} {months : ℕ} {component : OfferingComponent}
    (hok : changePrepaidLimit resource invoice oldLimits months now db component = .ok db') :
    WritesTarget (if (prepaidDiff resource oldLimits component.type).isSome then some invoice else none) db db' := by
  unfold changePrepaidLimit at hok
  cases hdiff : prepaidDiff resource oldLimits component.type with
  | none =>
    rw [hdiff] at hok
    exact (Except.ok.inj hok).symm
  | some diff =>
    rw [hdiff] at hok
    dsimp only at hok
    split at hok
    · cases hok
    · split at hok
      · cases hok
      · obtain rfl := Except.ok.inj hok
        exact createItem_writes _ _ _

/-- A write to an open target keeps the frozen invoices. -/
theorem WritesTarget.kept {target : Option ℕ} (h : WritesTarget target db db')
    (hopen : ∀ invoice, target = some invoice → IsOpen invoice db) : FrozenKept db db' := by
  cases target with
  | none =>
    obtain rfl : db' = db := h
    exact FrozenKept.refl _
  | some invoice => exact WritesTo.kept h (hopen invoice rfl)

end Limits

/-! ## The calls -/

/-- **Where a limit change leaves the issued invoices alone**: each component's change, at the state that the
ones before it left, and each prepaid one, goes to an open invoice or changes nothing. -/
def LimitsChangeGuarded (org : Organization) (resource : BilledResource) (old : OldLimits) (now : Instant) (db : Db) :
    Prop :=
  match org.openInvoice (monthStart now) none db with
  | (_, .error _) => True
  | (db, .ok invoice) =>
    match old.read with
    | none => True
    | some oldLimits =>
      AlongUntil (fun db limit => leave db (processUpdate resource org invoice.id now db limit))
        (fun db limit => ∀ target, updateTarget resource org invoice.id now db limit = some target → IsOpen target db)
        db (billedLimits resource) ∧
      match foldUntil (fun db limit => leave db (processUpdate resource org invoice.id now db limit)) db
          (billedLimits resource) with
      | (_, some _) => True
      | (db, none) =>
        remainingMonths resource now ≠ 0 → (∃ component ∈ prepaidComponents resource,
          (prepaidDiff resource oldLimits component.type).isSome) → IsOpen invoice.id db

/-- **Where a plan change leaves the issued invoices alone**: after the termination the invoice of the month is
open, or the resource has nothing to be charged for under its plan. -/
def PlanChangeGuarded (planComponents : ℕ → Option PlanComponentLink) (org : Organization) (resource : BilledResource)
    (now : Instant) (db : Db) : Prop :=
  ∀ db', org.terminate planComponents resource now db = .ok db' → ∀ inv, org.findInvoice now db' = some inv →
    IsOpen inv.id db' ∨ ∀ plan, resource.plan = some plan → resource.billable = true →
      ∀ pc ∈ plan.components, componentCharges resource plan now (some .update) pc = false

section Calls

variable {planComponents : ℕ → Option PlanComponentLink} {org : Organization} {resource : BilledResource}
variable {now : Instant} {db db' : Db}

theorem handlePrepaidLimitsChange_kept {invoice : ℕ} {oldLimits : List (String × ℚ)}
    (h : remainingMonths resource now ≠ 0 → (∃ component ∈ prepaidComponents resource,
      (prepaidDiff resource oldLimits component.type).isSome) → IsOpen invoice db) :
    FrozenKept db (handlePrepaidLimitsChange resource invoice oldLimits now db).1 := by
  unfold handlePrepaidLimitsChange
  split
  · exact FrozenKept.refl db
  · next hmonths =>
    by_cases hchanged : ∃ component ∈ prepaidComponents resource, (prepaidDiff resource oldLimits component.type).isSome
    · have hstep : ∀ (db₀ : Db) (component : OfferingComponent), True → KeepsOpen invoice db₀
          (leave db₀ (changePrepaidLimit resource invoice oldLimits (remainingMonths resource now) now db₀ component)).1 := by
        refine fun db₀ component _ => leave_rel (KeepsOpen.refl invoice) fun db' hok => ?_
        have hwrites := changePrepaidLimit_writes hok
        split at hwrites
        · exact WritesTo.keepsOpen hwrites
        · obtain rfl : db' = db₀ := hwrites
          exact KeepsOpen.refl _ _
      have hloop := foldUntil_rel (KeepsOpen.refl invoice) KeepsOpen.trans hstep
        (alongUntil_true (prepaidComponents resource) db)
      exact (hloop (h hmonths hchanged)).1
    · -- No component has changed, so every step leaves the state as it is.
      have hstay : ∀ l : List OfferingComponent, (∀ component ∈ l, component ∈ prepaidComponents resource) →
          (foldUntil (fun db component => leave db
            (changePrepaidLimit resource invoice oldLimits (remainingMonths resource now) now db component)) db l).1 = db := by
        intro l
        induction l with
        | nil => exact fun _ => rfl
        | cons component l ih =>
          intro hl
          have hnone : prepaidDiff resource oldLimits component.type = none := by
            rw [← Option.isNone_iff_eq_none, ← Option.isSome_eq_false_iff, Bool.eq_false_iff]
            exact fun hsome => hchanged ⟨component, hl component List.mem_cons_self, hsome⟩
          have hfirst : changePrepaidLimit resource invoice oldLimits (remainingMonths resource now) now db component =
              .ok db := by
            unfold changePrepaidLimit
            rw [hnone]
          unfold foldUntil
          rw [hfirst]
          exact ih fun c hc => hl c (List.mem_cons_of_mem _ hc)
      rw [hstay _ fun _ h => h]
      exact FrozenKept.refl db

theorem handleLimitsChange_kept {old : OldLimits} (h : LimitsChangeGuarded org resource old now db) :
    FrozenKept db (org.handleLimitsChange resource old now db).1 := by
  have hopened : FrozenKept db (org.openInvoice (monthStart now) none db).1 := openInvoice_kept (monthStart now)
  unfold LimitsChangeGuarded at h
  unfold Organization.handleLimitsChange
  rcases hopen : org.openInvoice (monthStart now) none db with ⟨db₁, e | invoice⟩
  · rw [hopen] at hopened
    exact hopened
  · rw [hopen] at h hopened
    dsimp only at h ⊢
    rcases hold : old.read with _ | oldLimits
    · exact hopened
    · rw [hold] at h
      obtain ⟨hloop, hprepaid⟩ := h
      have hupdates := foldUntil_rel FrozenKept.refl FrozenKept.trans
        (fun db limit hguard => leave_rel FrozenKept.refl fun db' hok => (processUpdate_writes hok).kept hguard) hloop
      dsimp only at hprepaid hupdates ⊢
      rcases hfold : foldUntil (fun db limit => leave db (processUpdate resource org invoice.id now db limit)) db₁
        (billedLimits resource) with ⟨db₂, _ | e⟩
      · rw [hfold] at hprepaid hupdates
        exact (hopened.trans hupdates).trans (handlePrepaidLimitsChange_kept hprepaid)
      · rw [hfold] at hupdates
        exact hopened.trans hupdates

theorem terminateItems_kept (resource : Resource) : FrozenKept db (Organization.terminateItems planComponents resource now db) := by
  intro id inv hinv hfrozen
  obtain ⟨hmem, hkey⟩ := Table.get?_eq_some.mp hinv
  refine Table.get?_eq_some.mpr ⟨List.mem_map.mpr ⟨inv, hmem, ?_⟩, hkey⟩
  unfold Invoice.terminateResource Invoice.isTerminable
  rw [hfrozen, if_neg (by simp)]

theorem terminate_kept (hok : org.terminate planComponents resource now db = .ok db') : FrozenKept db db' := by
  obtain ⟨⟨db₁, inv, flag⟩, hopened, hok⟩ := bind_eq_ok.mp hok
  obtain rfl := Except.ok.inj hok
  exact (getOrCreateInvoice_kept hopened).trans (terminateItems_kept resource.ref)

/-- A termination never touches an issued invoice. -/
theorem handleResourceTermination_kept :
    FrozenKept db (org.handleResourceTermination planComponents resource now db).1 :=
  leave_rel FrozenKept.refl fun _ hok => terminate_kept hok

theorem processResource_kept {inv : Invoice} {start stop : Instant} {orderType : Option OrderType}
    (h : IsOpen inv.id db ∨ ∀ plan, resource.plan = some plan → resource.billable = true →
      ∀ pc ∈ plan.components, componentCharges resource plan start orderType pc = false)
    (hok : processResource org inv start stop orderType db resource = .ok db') : FrozenKept db db' := by
  rcases h with hopen | hidle
  · have hkeeps : KeepsOpen inv.id db (org.processResourceUntil inv start stop orderType db resource).1 :=
      processResourceUntil_keepsOpen
    rw [processResourceUntil_of_ok hok] at hkeeps
    exact (hkeeps hopen).1
  · unfold processResource at hok
    split at hok
    · obtain rfl := Except.ok.inj hok
      exact FrozenKept.refl _
    · next plan hplan =>
      split at hok
      · obtain rfl := Except.ok.inj hok
        exact FrozenKept.refl _
      · next hbillable =>
        have hnothing := hidle plan hplan (by simpa using hbillable)
        have hstay : ∀ (l : List PlanComponent), (∀ pc ∈ l, pc ∈ plan.components) →
            l.foldlM (processComponent org resource plan inv start stop orderType) db = .ok db' → db' = db := by
          intro l
          induction l with
          | nil => exact fun _ hok => (Except.ok.inj hok).symm
          | cons pc l ih =>
            intro hl hok
            rw [List.foldlM_cons] at hok
            obtain ⟨db₁, hok₁, hok₂⟩ := bind_eq_ok.mp hok
            obtain rfl := (processComponent_writes hok₁).2 (hnothing pc (hl pc List.mem_cons_self))
            exact ih (fun c hc => hl c (List.mem_cons_of_mem _ hc)) hok₂
        obtain rfl := hstay _ (fun _ h => h) hok
        exact FrozenKept.refl _

theorem register_kept (h : ∀ inv, org.findInvoice now db = some inv → IsOpen inv.id db ∨
      ∀ plan, resource.plan = some plan → resource.billable = true →
        ∀ pc ∈ plan.components, componentCharges resource plan now (some .update) pc = false)
    (hok : org.register resource now .update db = .ok db') : FrozenKept db db' := by
  unfold Organization.register at hok
  obtain ⟨⟨db₁, inv, flag⟩, hopened, hok⟩ := bind_eq_ok.mp hok
  have hkept := getOrCreateInvoice_kept hopened
  dsimp only at hok
  split at hok
  · obtain rfl := Except.ok.inj hok
    exact hkept
  · next hflag =>
    cases hfind : org.findInvoice now db with
    | none =>
      unfold Organization.getOrCreateInvoice at hopened
      rw [hfind] at hopened
      obtain ⟨billed, -, hopened⟩ := bind_eq_ok.mp hopened
      cases hopened
      exact absurd rfl hflag
    | some inv₀ =>
      unfold Organization.getOrCreateInvoice at hopened
      rw [hfind] at hopened
      cases hopened
      exact processResource_kept (h inv hfind) hok

theorem handlePlanChange_kept (h : PlanChangeGuarded planComponents org resource now db) :
    FrozenKept db (org.handlePlanChange planComponents resource now db).1 := by
  unfold Organization.handlePlanChange
  cases hterminate : org.terminate planComponents resource now db with
  | error e => exact FrozenKept.refl db
  | ok db' =>
    have hregister : FrozenKept db' (leave db' (org.register resource now .update db')).1 :=
      leave_rel FrozenKept.refl fun _ hok => register_kept (h db' hterminate) hok
    exact (terminate_kept hterminate).trans hregister

/-- A usage report looks at the state of the invoice. -/
theorem createOrUpdateUsageInvoiceItem_kept {ctx : UsageContext} {component : OfferingComponent} {usage : ℚ}
    {isOverage : Bool} : FrozenKept db (org.createOrUpdateUsageInvoiceItem ctx component usage isOverage db).1 := by
  have hopened : FrozenKept db (org.openInvoice (ctx.month.firstDay * dayLength) none db).1 :=
    openInvoice_kept (ctx.month.firstDay * dayLength)
  unfold Organization.createOrUpdateUsageInvoiceItem
  split
  · next heq =>
    rw [heq] at hopened
    exact hopened
  · next db₁ invoice heq =>
    rw [heq] at hopened
    refine hopened.trans fun id inv hinv hfrozen => ?_
    have hsame : ctx.createOrUpdate component usage isOverage db₁.nextUuid inv = inv := by
      unfold UsageContext.createOrUpdate
      rw [hfrozen]
      rfl
    obtain ⟨hmem, hkey⟩ := Table.get?_eq_some.mp hinv
    refine Table.get?_eq_some.mpr ⟨List.mem_map.mpr ⟨inv, hmem, ?_⟩, hkey⟩
    show (if inv.id = invoice.id then
      { ctx.createOrUpdate component usage isOverage db₁.nextUuid inv with id := inv.id } else inv) = inv
    rw [hsame]
    exact ite_self inv

/-! ## Monthly and one-time limits -/

/-- A change of a component that is not billed by the quarter or the year goes to the invoice of the month. -/
theorem updateTarget_current {invoice target : ℕ} {limit : String × ℚ}
    (hperiod : ∀ component ∈ resource.offeringComponents, (resolved resource component).limitPeriod ≠ some .quarterly ∧
      (resolved resource component).limitPeriod ≠ some .annual)
    (h : updateTarget resource org invoice now db limit = some target) : target = invoice := by
  have hupdated : ∀ {plan : Plan} {componentType : String} {q : ℚ},
      updatedOn resource invoice plan componentType q db = some target → target = invoice := by
    intro plan componentType q hupdated
    unfold updatedOn at hupdated
    split at hupdated
    · exact (Option.some.inj hupdated).symm
    · cases hupdated
  unfold updateTarget at h
  split at h
  · next component plan hcomponent hplan =>
    have hnever := hperiod component (List.mem_of_find?_eq_some hcomponent)
    unfold resolved at hnever
    rw [hplan, Option.map_some] at hnever
    dsimp only at h
    split at h
    · split at h
      · exact (Option.some.inj h).symm
      · cases h
    · split at h
      · exact hupdated h
      · split at h
        · have hnone : ∀ start, periodInvoice resource org invoice component.type
              (resolveComponent component (some plan.billingMode)).limitPeriod start db = none := fun start =>
            if_neg (not_or.mpr hnever)
          rw [hnone] at h
          dsimp only at h
          split at h
          · exact (Option.some.inj h).symm
          · cases h
        · cases h
  · cases h

/-- **A limit change on an open invoice** is safe for such components. -/
theorem limitsChangeGuarded_of_open {old : OldLimits}
    (hperiod : ∀ component ∈ resource.offeringComponents, (resolved resource component).limitPeriod ≠ some .quarterly ∧
      (resolved resource component).limitPeriod ≠ some .annual)
    (hmutable : ∀ inv, org.findInvoice (monthStart now) db = some inv → inv.state.isMutable = true) :
    LimitsChangeGuarded org resource old now db := by
  unfold LimitsChangeGuarded
  split
  · exact trivial
  · next db₁ invoice heq =>
    have hspec : ∀ inv, (org.openInvoice (monthStart now) none db).2 = .ok inv → _ :=
      (openInvoice_spec (monthStart now)).2
    have hstart := hspec invoice (by rw [heq]) hmutable
    rw [heq] at hstart
    split
    · exact trivial
    · next oldLimits hold =>
      have hstep : ∀ (db₀ : Db) (limit : String × ℚ), IsOpen invoice.id db₀ →
          (∀ target, updateTarget resource org invoice.id now db₀ limit = some target → IsOpen target db₀) ∧
            IsOpen invoice.id (leave db₀ (processUpdate resource org invoice.id now db₀ limit)).1 := by
        intro db₀ limit hopen₀
        refine ⟨fun target htarget => updateTarget_current hperiod htarget ▸ hopen₀, ?_⟩
        cases hok : processUpdate resource org invoice.id now db₀ limit with
        | error e => exact hopen₀
        | ok db' =>
          have hwrites := processUpdate_writes hok
          cases htarget : updateTarget resource org invoice.id now db₀ limit with
          | none =>
            rw [htarget] at hwrites
            obtain rfl : db' = db₀ := hwrites
            exact hopen₀
          | some target =>
            rw [htarget] at hwrites
            exact WritesTo.isOpen hwrites hopen₀
      have hloop := alongUntil_of_invariant (l := billedLimits resource)
        (fun db₀ limit _ hopen₀ => hstep db₀ limit hopen₀) hstart
      refine ⟨hloop, ?_⟩
      have hend := foldUntil_rel (R := fun db₀ db' => IsOpen invoice.id db₀ → IsOpen invoice.id db') (fun _ h => h)
        (fun h h' h₀ => h' (h h₀)) (fun db₀ limit _ hopen₀ => (hstep db₀ limit hopen₀).2)
        (alongUntil_true (billedLimits resource) db₁)
      split
      · exact trivial
      · next heq' =>
        rw [heq'] at hend
        exact fun _ _ => hend hstart

end Calls

/-! ## Runs -/

/-- A billing call of a resource or a usage report, or an invoice that is issued, paid or canceled. -/
inductive BillingCall
  | limitsChange (resource : BilledResource) (old : OldLimits) (now : Instant)
  | planChange (resource : BilledResource) (now : Instant)
  | termination (resource : BilledResource) (now : Instant)
  | usage (ctx : UsageContext) (component : OfferingComponent) (usage : ℚ) (isOverage : Bool)
  | setState (invoice : ℕ) (state : InvoiceState)

section Runs

variable (planComponents : ℕ → Option PlanComponentLink)

/-- A call, with the organization as it is at the time. -/
def billingStep (db : Db) (step : Organization × BillingCall) : Db :=
  match step.2 with
  | .limitsChange resource old now => (step.1.handleLimitsChange resource old now db).1
  | .planChange resource now => (step.1.handlePlanChange planComponents resource now db).1
  | .termination resource now => (step.1.handleResourceTermination planComponents resource now db).1
  | .usage ctx component usage isOverage => (step.1.createOrUpdateUsageInvoiceItem ctx component usage isOverage db).1
  | .setState invoice state =>
    { db with invoices := db.invoices.update invoice (fun inv => { inv with state := state }) (fun _ => rfl) }

/-- **Where a call is safe**: a termination and a usage report always are. -/
def Guarded (db : Db) (step : Organization × BillingCall) : Prop :=
  match step.2 with
  | .limitsChange resource old now => LimitsChangeGuarded step.1 resource old now db
  | .planChange resource now => PlanChangeGuarded planComponents step.1 resource now db
  | .termination _ _ | .usage _ _ _ _ | .setState _ _ => True

/-- **Issued invoices keep their items** in a step. -/
def IssuedItemsKept (db : Db) (step : Organization × BillingCall) : Prop :=
  ∀ id inv, db.invoices.get? id = some inv → inv.state.isMutable = false →
    ∃ inv', (billingStep planComponents db step).invoices.get? id = some inv' ∧ inv'.items = inv.items

variable {planComponents}

/-- One step. -/
theorem issuedItemsKept_of_guarded {db : Db} {step : Organization × BillingCall}
    (h : Guarded planComponents db step) : IssuedItemsKept planComponents db step := by
  have hkept : FrozenKept db (billingStep planComponents db step) → IssuedItemsKept planComponents db step :=
    fun hkept id inv hinv hfrozen => ⟨inv, hkept id inv hinv hfrozen, rfl⟩
  obtain ⟨org, call⟩ := step
  cases call with
  | limitsChange resource old now => exact hkept (handleLimitsChange_kept h)
  | planChange resource now => exact hkept (handlePlanChange_kept h)
  | termination resource now => exact hkept handleResourceTermination_kept
  | usage ctx component usage isOverage => exact hkept createOrUpdateUsageInvoiceItem_kept
  | setState invoice state =>
    intro id inv hinv _
    obtain ⟨hmem, hkey⟩ := Table.get?_eq_some.mp hinv
    by_cases hid : id = invoice
    · refine ⟨{ inv with state := state }, Table.get?_eq_some.mpr ⟨List.mem_map.mpr ⟨inv, hmem, ?_⟩, hkey⟩, rfl⟩
      exact if_pos (hkey.trans hid)
    · refine ⟨inv, Table.get?_eq_some.mpr ⟨List.mem_map.mpr ⟨inv, hmem, ?_⟩, hkey⟩, rfl⟩
      exact if_neg fun h => hid (hkey.symm.trans h)

/-- **Issued invoices are immutable to billing** along every run of safe calls, from any state. -/
theorem issuedItemsKept_run (db : Db) (steps : List (Organization × BillingCall))
    (h : Along (billingStep planComponents) (Guarded planComponents) db steps) :
    Along (billingStep planComponents) (IssuedItemsKept planComponents) db steps :=
  have hstep : ∀ db call, True → Guarded planComponents db call → True ∧ IssuedItemsKept planComponents db call :=
    fun _ _ _ hguard => ⟨trivial, issuedItemsKept_of_guarded hguard⟩
  along_of_invariant hstep steps db trivial h

end Runs

/-! ## A limit change in February -/

/-- Cores billed by a limit period. -/
def coresBy (limitPeriod : LimitPeriods) : OfferingComponent where
  id := 1
  type := "cores"
  billingType := .limit
  limitPeriod := some limitPeriod

def quarterPlan : Plan where
  uuid := 1
  unit := .perMonth
  components := [⟨1, "cores", 10, 0, none, .perCustomer, ten_nonneg⟩]

/-- An instant of the year 2025. -/
def dayOf2025 (d : ℤ) : Instant := (20088 + d) * dayLength + 36000000000

/-- A resource with a limit on cores. -/
def coresResource (limitPeriod : LimitPeriods) (limit : ℚ) : BilledResource where
  ref := ⟨1, 1, ⟨10, 1⟩⟩
  offeringType := "Marketplace.Basic"
  state := .ok
  plan := some quarterPlan
  offeringComponents := [coresBy limitPeriod]
  limits := [("cores", limit)]
  created := dayOf2025 1

def coresOrganization (limitPeriod : LimitPeriods) (limit : ℚ) : Organization where
  id := 1
  taxPercent := 0
  resources := [coresResource limitPeriod limit]
  discountedUnitPrice := fun _ _ _ price => some price
  tax_nonneg := Invoice.untaxed
  owned := by simp [coresResource]
  distinct := by simp
  pricedOnce := by simp [coresResource, quarterPlan]

/-- The invoice of January is made, an instant later the limit is 8, and then the invoice is issued. -/
def coresRaised (limitPeriod : LimitPeriods) (raised : Instant) : Organization × BillingCall :=
  (coresOrganization limitPeriod 8,
    .limitsChange (coresResource limitPeriod 8) { createOrder := [("cores", 4)] } raised)

def januaryOpened (limitPeriod : LimitPeriods) : Organization × BillingCall :=
  (coresOrganization limitPeriod 4, .limitsChange (coresResource limitPeriod 4) {} (dayOf2025 10))

def januaryIssued (limitPeriod : LimitPeriods) : Organization × BillingCall :=
  (coresOrganization limitPeriod 4, .setState 1 .created)

/-- The quarter is billed on the January invoice, which is issued; the limit is raised in February. -/
theorem issued_quarter_rewritten : ¬ Along (billingStep fun _ => none) (IssuedItemsKept fun _ => none) Db.empty
    [januaryOpened .quarterly, januaryIssued .quarterly, coresRaised .quarterly (dayOf2025 41)] := by
  rintro ⟨-, -, hkept, -⟩
  generalize hdb : billingStep (fun _ => none) (billingStep (fun _ => none) Db.empty (januaryOpened .quarterly))
    (januaryIssued .quarterly) = db at hkept
  have hstate : (db.invoices.get? 1).map (fun inv => (inv.state, inv.items.map (·.quantity))) =
      some (.created, [4]) := by
    rw [← hdb]
    decide +kernel
  have hchanged : ((billingStep (fun _ => none) db (coresRaised .quarterly (dayOf2025 41))).invoices.get? 1).map
      (fun inv => inv.items.map (·.quantity)) ≠ some [4] := by
    rw [← hdb]
    decide +kernel
  obtain ⟨inv, hinv, heq⟩ := Option.map_eq_some_iff.mp hstate
  obtain ⟨hstate, hitems⟩ := Prod.mk.inj heq
  obtain ⟨inv', hinv', hsame⟩ := hkept 1 inv hinv (by rw [hstate]; rfl)
  refine hchanged ?_
  rw [hinv', Option.map_some, hsame, hitems]

/-- Monthly cores, raised in January while the invoice is open; in February the resource is terminated. -/
theorem issued_month_kept : Along (billingStep fun _ => none) (IssuedItemsKept fun _ => none) Db.empty
    [januaryOpened .month, coresRaised .month (dayOf2025 20), januaryIssued .month,
      (coresOrganization .month 8, .termination (coresResource .month 8) (dayOf2025 41))] := by
  have hperiod : ∀ limit, ∀ component ∈ (coresResource .month limit).offeringComponents,
      (resolved (coresResource .month limit) component).limitPeriod ≠ some .quarterly ∧
        (resolved (coresResource .month limit) component).limitPeriod ≠ some .annual := by
    intro limit component hcomponent
    obtain rfl : component = coresBy .month := List.mem_singleton.mp hcomponent
    exact ⟨nofun, nofun⟩
  refine issuedItemsKept_run Db.empty _ ⟨?_, ?_, trivial, trivial, trivial⟩
  · show LimitsChangeGuarded (coresOrganization .month 4) (coresResource .month 4) {} (dayOf2025 10) Db.empty
    refine limitsChangeGuarded_of_open (hperiod 4) fun inv hinv => ?_
    exact absurd (findInvoice_mem hinv) List.not_mem_nil
  · show LimitsChangeGuarded (coresOrganization .month 8) (coresResource .month 8) { createOrder := [("cores", 4)] }
      (dayOf2025 20) (billingStep (fun _ => none) Db.empty (januaryOpened .month))
    refine limitsChangeGuarded_of_open (hperiod 8) fun inv hinv => ?_
    have hstate : ((coresOrganization .month 8).findInvoice (monthStart (dayOf2025 20))
        (billingStep (fun _ => none) Db.empty (januaryOpened .month))).map (·.state) = some .pending := by
      decide +kernel
    rw [hinv] at hstate
    have hpending : inv.state = .pending := Option.some.inj hstate
    rw [hpending]
    rfl

end Waldur.Marketplace
