import Waldur.Marketplace.Models

/-!
# Promotions.Campaigns — discounts for the first resources of an offering

A campaign is applied to resources in three places: when it is activated, to the resources that are OK and to the items of
pending invoices, and when a resource becomes active.  All of them ask `check_resource_on_conditions_of_campaign`, which
counts the rows of a campaign with a stock by a call that Python refuses.
-/

namespace Waldur.Promotions

open Calendar Invoices Marketplace

/-! ## Campaigns -/

inductive CampaignState
  | draft
  | active
  | terminated
deriving DecidableEq

inductive DiscountType
  | discount
  | specialPrice
deriving DecidableEq

structure Campaign where
  id : ℕ
  startDate : Date
  endDate : Date
  coupon : String := ""
  discountType : DiscountType := .discount
  discount : ℤ
  offerings : List ℕ
  requiredOfferings : List ℕ := []
  stock : Option ℕ := none
  autoApply : Bool := true
  state : CampaignState := .draft

/-- `get_discount_price`. -/
def Campaign.getDiscountPrice (c : Campaign) (unitPrice : ℚ) : ℚ :=
  match c.discountType with
  | .discount => unitPrice * (100 - c.discount) / 100
  | .specialPrice => c.discount

/-- A resource, with the coupon of its creation order if it has one. -/
structure Resource where
  id : ℕ
  offering : ℕ
  customer : ℕ
  state : ResourceState
  created : Date
  coupon : Option String
deriving DecidableEq

/-- An item with the state and month of its invoice, and `unit_price` and `campaign_uuid` of its details. -/
structure InvoiceItem where
  id : ℕ
  resource : Option Resource
  invoiceState : InvoiceState
  year : ℕ
  month : ℕ
  unitPrice : ℚ
  fullPrice : Option ℚ := none
  campaign : Option ℕ := none

/-- The rows; those of `DiscountedResource` are pairs of campaign and resource. -/
structure Db where
  campaigns : List Campaign
  resources : List Resource
  items : List InvoiceItem
  discounted : List (ℕ × ℕ) := []

inductive Failure
  /-- `None` has no customer. -/
  | attributeError
  /-- A manager is not callable. -/
  | typeError
  | multipleObjectsReturned
  | transitionNotAllowed
deriving DecidableEq

/-! ## Conditions -/

/-- The offering is one of the campaign's, and the customer has all that are required. -/
def Campaign.matches (c : Campaign) (resources : List Resource) (r : Resource) : Bool :=
  let otherOfferings := (resources.filter fun o => decide (o.state ≠ .terminated) && o.customer == r.customer).map
    (·.offering)
  c.offerings.contains r.offering && (c.requiredOfferings.isEmpty || c.requiredOfferings.all otherOfferings.contains)

/-- `check_resource_on_conditions_of_campaign`: `not self.stock`, or a call of `DiscountedResource.objects`. -/
def checkResource (resources : List Resource) (c : Campaign) : Option Resource → Except Failure Bool
  | none => .error .attributeError
  | some r =>
    if c.matches resources r then
      match c.stock with
      | none | some 0 => .ok true
      | some _ => .error .typeError
    else .ok false

/-! ## Activation of a campaign -/

/-- A turn of the loop over resources. -/
def discountResource (c : Campaign) (db : Db) (r : Resource) : Except Failure Db := do
  if ← checkResource db.resources c (some r) then
    return { db with discounted := db.discounted ++ [(c.id, r.id)] }
  else return db

/-- The filter of the items: invoices that are mutable, of the month in which the campaign starts. -/
def pending (c : Campaign) (i : InvoiceItem) : Bool :=
  i.invoiceState.isMutable && i.year == c.startDate.year && i.month == c.startDate.month

/-- The price of an item before any discount. -/
def InvoiceItem.basePrice (i : InvoiceItem) : ℚ := i.fullPrice.getD i.unitPrice

/-- A turn of the loop over items. -/
def discountItem (resources : List Resource) (c : Campaign) (i : InvoiceItem) : Except Failure InvoiceItem := do
  if ← checkResource resources c i.resource then
    if c.getDiscountPrice i.basePrice < i.unitPrice then
      return { i with unitPrice := c.getDiscountPrice i.basePrice, campaign := some c.id, fullPrice := some i.basePrice }
    else return i
  else return i

/-- `apply_campaign_to_pending_invoices` of a campaign whose state has changed. -/
def applyCampaignToPendingInvoices (db : Db) (c : Campaign) : Except Failure Db :=
  if c.state ≠ .active then .ok db
  else if !c.autoApply then .ok db
  else do
    let db ← (db.resources.filter fun r => decide (r.state = .ok)).foldlM (discountResource c) db
    let items ← db.items.mapM fun i => if pending c i then discountItem db.resources c i else .ok i
    return { db with items := items }

def Db.setCampaign (db : Db) (c : Campaign) : Db :=
  { db with campaigns := db.campaigns.map fun c' => if c'.id = c.id then c else c' }

/-- `activate` and `save`. -/
def activate (db : Db) (id : ℕ) : Except Failure Db :=
  match db.campaigns.find? fun c => c.id == id with
  | none => .error .transitionNotAllowed
  | some c =>
    if c.state = .draft then
      let c := { c with state := .active }
      applyCampaignToPendingInvoices (db.setCampaign c) c
    else .error .transitionNotAllowed

/-! ## Activation of a resource -/

/-- The campaigns that could apply: active, on the day of the resource, without coupon or with its own. -/
def applicable (r : Resource) (couponCode : String) (c : Campaign) : Bool :=
  decide (c.state = .active) && !decide (r.created < c.startDate) && !decide (c.endDate < r.created) &&
    (c.coupon == "" || c.coupon == couponCode)

/-- `DiscountedResource.objects.get_or_create`. -/
def getOrCreate (db : Db) (row : ℕ × ℕ) : Except Failure Db :=
  match db.discounted.count row with
  | 0 => .ok { db with discounted := db.discounted ++ [row] }
  | 1 => .ok db
  | _ => .error .multipleObjectsReturned

/-- A turn of the loop over campaigns. -/
def linkCampaign (r : Resource) (db : Db) (c : Campaign) : Except Failure Db := do
  if ← checkResource db.resources c (some r) then getOrCreate db (c.id, r.id) else return db

/-- `create_discounted_resource_on_activation`. -/
def createDiscountedResourceOnActivation (db : Db) (r : Resource) : Except Failure Db :=
  match r.coupon with
  | none => .ok db
  | some couponCode => (db.campaigns.filter (applicable r couponCode)).foldlM (linkCampaign r) db

/-! ## Runs -/

/-- What happens: a resource is created, and becomes active, and a campaign is activated. -/
inductive Operation
  | create (r : Resource)
  | activate (id : ℕ)

/-- The database with a resource, if it is new. -/
def Db.addResource (db : Db) (r : Resource) : Db :=
  if db.resources.any fun o => o.id == r.id then db else { db with resources := db.resources ++ [r] }

def Operation.apply (db : Db) : Operation → Except Failure Db
  | create r => createDiscountedResourceOnActivation (db.addResource r) r
  | activate id => Promotions.activate db id

/-- How many resources have the discount of a campaign. -/
def Db.rows (db : Db) (c : Campaign) : ℕ := db.discounted.countP fun row => row.1 == c.id

/-- No campaign exceeds its stock, and its discount is given to resources in it only. -/
def Safe (db : Db) : Prop :=
  ∀ c ∈ db.campaigns, ∀ n, c.stock = some n → db.rows c ≤ n ∧
    ∀ i ∈ db.items, i.campaign = some c.id → ∃ r, i.resource = some r ∧ (c.id, r.id) ∈ db.discounted

/-- Every operation goes through, and all states are safe. -/
def Holds : Db → List Operation → Prop
  | db, [] => Safe db
  | db, op :: ops => Safe db ∧ ∃ db', op.apply db = .ok db' ∧ Holds db' ops

/-- What a campaign with a stock may not meet, where it is applied. -/
def Clear (resources : List Resource) (c : Campaign) (r : Resource) : Prop :=
  c.stock ≠ none → c.matches resources r = false

/-- An operation that counts no stock and looks at no item without resource; only drafts are activated. -/
def Operation.Spares (db : Db) : Operation → Prop
  | create r => ∀ couponCode, r.coupon = some couponCode →
    ∀ c ∈ db.campaigns, applicable r couponCode c = true → Clear (db.addResource r).resources c r
  | activate id => ∃ c ∈ db.campaigns, c.id = id ∧ c.state = .draft ∧ (c.autoApply = true →
    (∀ r ∈ db.resources, r.state = .ok → Clear db.resources c r) ∧
      ∀ i ∈ db.items, pending c i = true → ∃ r, i.resource = some r ∧ Clear db.resources c r)

/-- All operations of a run do. -/
def Spared : Db → List Operation → Prop
  | _, [] => True
  | db, op :: ops => op.Spares db ∧ ∀ db', op.apply db = .ok db' → Spared db' ops

/-- What rows always are: campaigns and resources have ids of their own, a resource is discounted once by a campaign, and
by a draft not at all. -/
structure Consistent (db : Db) : Prop where
  campaigns : (db.campaigns.map (·.id)).Nodup
  resources : (db.resources.map (·.id)).Nodup
  discounted : db.discounted.Nodup
  drafts : ∀ c ∈ db.campaigns, c.state = .draft → db.rows c = 0
  safe : Safe db

variable {db : Db} {c : Campaign} {r : Resource}

/-! ## Checks that are clear -/

/-- A clear check goes through, and accepts for a campaign without stock only. -/
theorem checkResource_of_clear {resources : List Resource} (h : Clear resources c r) :
    ∃ b, checkResource resources c (some r) = .ok b ∧ (b = true → c.stock = none) := by
  cases hmatches : c.matches resources r with
  | false => exact ⟨false, by simp [checkResource, hmatches], fun hfalse => by cases hfalse⟩
  | true =>
    have hstock : c.stock = none := by
      by_contra hstock
      rw [h hstock] at hmatches
      cases hmatches
    exact ⟨true, by simp [checkResource, hmatches, hstock], fun _ => hstock⟩

/-- The loop over campaigns: rows of campaigns without stock, each once. -/
theorem linkCampaign_run {l : List Campaign} (hclear : ∀ c ∈ l, Clear db.resources c r)
    (hnodup : db.discounted.Nodup) : ∃ rows, l.foldlM (linkCampaign r) db =
      .ok { db with discounted := db.discounted ++ rows } ∧ (db.discounted ++ rows).Nodup ∧
        ∀ row ∈ rows, ∃ c ∈ l, c.stock = none ∧ row.1 = c.id := by
  induction l generalizing db with
  | nil =>
    refine ⟨[], ?_, by rwa [List.append_nil], fun row hrow => absurd hrow List.not_mem_nil⟩
    rw [List.append_nil]
    rfl
  | cons c l ih =>
    have hrest : ∀ c ∈ l, Clear db.resources c r := fun c' hc' => hclear c' (List.mem_cons_of_mem _ hc')
    obtain ⟨b, hcheck, hstock⟩ := checkResource_of_clear (hclear c List.mem_cons_self)
    have hskip : linkCampaign r db c = .ok db → ∃ rows, (c :: l).foldlM (linkCampaign r) db =
        .ok { db with discounted := db.discounted ++ rows } ∧ (db.discounted ++ rows).Nodup ∧
          ∀ row ∈ rows, ∃ c' ∈ c :: l, c'.stock = none ∧ row.1 = c'.id := by
      intro hlink
      obtain ⟨rows, hrun, hrows, hall⟩ := ih hrest hnodup
      refine ⟨rows, ?_, hrows, fun row hrow => ?_⟩
      · rw [List.foldlM_cons, hlink]
        exact hrun
      · obtain ⟨c', hc', hrow'⟩ := hall row hrow
        exact ⟨c', List.mem_cons_of_mem _ hc', hrow'⟩
    cases b with
    | false =>
      refine hskip ?_
      unfold linkCampaign
      rw [hcheck]
      rfl
    | true =>
      have hlink : linkCampaign r db c = getOrCreate db (c.id, r.id) := by
        unfold linkCampaign
        rw [hcheck]
        rfl
      by_cases hmem : (c.id, r.id) ∈ db.discounted
      · refine hskip (hlink.trans ?_)
        unfold getOrCreate
        rw [List.count_eq_one_of_mem hnodup hmem]
        rfl
      · have hcreate : linkCampaign r db c = .ok { db with discounted := db.discounted ++ [(c.id, r.id)] } := by
          rw [hlink, getOrCreate, List.count_eq_zero.mpr hmem]
          rfl
        have hnew : (db.discounted ++ [(c.id, r.id)]).Nodup := by
          rw [List.nodup_append]
          refine ⟨hnodup, List.nodup_singleton _, ?_⟩
          rintro row hrow row' hrow' rfl
          exact hmem (List.mem_singleton.mp hrow' ▸ hrow)
        obtain ⟨rows, hrun, hrows, hall⟩ :=
          @ih { db with discounted := db.discounted ++ [(c.id, r.id)] } hrest hnew
        refine ⟨(c.id, r.id) :: rows, ?_, ?_, ?_⟩
        · rw [List.foldlM_cons, hcreate]
          show List.foldlM (linkCampaign r) _ l = _
          rw [hrun, List.append_assoc]
          rfl
        · rwa [List.append_assoc] at hrows
        · intro row hrow
          rcases List.mem_cons.mp hrow with rfl | hrow
          · exact ⟨c, List.mem_cons_self, hstock rfl, rfl⟩
          · obtain ⟨c', hc', hrow'⟩ := hall row hrow
            exact ⟨c', List.mem_cons_of_mem _ hc', hrow'⟩

/-- The loop over resources: a row for each that matches, if the campaign has no stock. -/
theorem discountResource_run {l : List Resource} (hclear : ∀ r ∈ l, Clear db.resources c r) :
    ∃ matching, List.Sublist matching l ∧ l.foldlM (discountResource c) db =
      .ok { db with discounted := db.discounted ++ matching.map fun r => (c.id, r.id) } ∧
        (matching ≠ [] → c.stock = none) := by
  induction l generalizing db with
  | nil =>
    refine ⟨[], List.Sublist.refl _, ?_, fun h => absurd rfl h⟩
    rw [List.map_nil, List.append_nil]
    rfl
  | cons r l ih =>
    have hrest : ∀ r ∈ l, Clear db.resources c r := fun r' hr' => hclear r' (List.mem_cons_of_mem _ hr')
    obtain ⟨b, hcheck, hstock⟩ := checkResource_of_clear (hclear r List.mem_cons_self)
    cases b with
    | false =>
      obtain ⟨matching, hsub, hrun, hnone⟩ := ih hrest
      refine ⟨matching, hsub.cons r, ?_, hnone⟩
      rw [List.foldlM_cons, discountResource, hcheck]
      exact hrun
    | true =>
      obtain ⟨matching, hsub, hrun, -⟩ := @ih { db with discounted := db.discounted ++ [(c.id, r.id)] } hrest
      refine ⟨r :: matching, hsub.cons_cons r, ?_, fun _ => hstock rfl⟩
      rw [List.foldlM_cons, discountResource, hcheck]
      show List.foldlM (discountResource c) _ l = _
      rw [hrun, List.append_assoc]
      rfl

/-- The loop over items: those that are discounted are discounted by a campaign without stock. -/
theorem discountItem_run {resources : List Resource} {l : List InvoiceItem}
    (hclear : ∀ i ∈ l, pending c i = true → ∃ r, i.resource = some r ∧ Clear resources c r) :
    ∃ items, (l.mapM fun i => if pending c i then discountItem resources c i else .ok i) = .ok items ∧
      ∀ i ∈ items, i ∈ l ∨ (c.stock = none ∧ i.campaign = some c.id) := by
  induction l with
  | nil => exact ⟨[], rfl, fun i hi => absurd hi List.not_mem_nil⟩
  | cons i l ih =>
    obtain ⟨items, hrun, hitems⟩ := ih fun i' hi' => hclear i' (List.mem_cons_of_mem _ hi')
    obtain ⟨i', hturn, hi'⟩ : ∃ i', (if pending c i then discountItem resources c i else .ok i) = .ok i' ∧
        (i' = i ∨ (c.stock = none ∧ i'.campaign = some c.id)) := by
      by_cases hpending : pending c i = true
      · obtain ⟨r, hr, hclear⟩ := hclear i List.mem_cons_self hpending
        obtain ⟨b, hcheck, hstock⟩ := checkResource_of_clear hclear
        rw [if_pos hpending, discountItem, hr, hcheck]
        cases b with
        | false => exact ⟨i, rfl, .inl rfl⟩
        | true =>
          by_cases hprice : c.getDiscountPrice i.basePrice < i.unitPrice
          · exact ⟨_, if_pos hprice, .inr ⟨hstock rfl, rfl⟩⟩
          · exact ⟨i, if_neg hprice, .inl rfl⟩
      · exact ⟨i, if_neg hpending, .inl rfl⟩
    refine ⟨i' :: items, ?_, fun j hj => ?_⟩
    · rw [List.mapM_cons, hturn, hrun]
      rfl
    · rcases List.mem_cons.mp hj with rfl | hj
      · rcases hi' with rfl | hdiscounted
        · exact .inl List.mem_cons_self
        · exact .inr hdiscounted
      · rcases hitems j hj with hmem | hdiscounted
        · exact .inl (List.mem_cons_of_mem _ hmem)
        · exact .inr hdiscounted

/-! ## What the operations keep -/

theorem eq_of_id {c' : Campaign} (h : Consistent db) (hc : c ∈ db.campaigns) (hc' : c' ∈ db.campaigns)
    (hid : c.id = c'.id) : c = c' := List.inj_on_of_nodup_map h.campaigns hc hc' hid

/-- Rows of campaigns that are active and have no stock. -/
theorem Consistent.addRows (h : Consistent db) {rows : List (ℕ × ℕ)} (hnodup : (db.discounted ++ rows).Nodup)
    (hrows : ∀ row ∈ rows, ∃ c ∈ db.campaigns, c.stock = none ∧ c.state = .active ∧ row.1 = c.id) :
    Consistent { db with discounted := db.discounted ++ rows } := by
  have hother : ∀ c ∈ db.campaigns, c.stock ≠ none ∨ c.state = .draft →
      Db.rows { db with discounted := db.discounted ++ rows } c = db.rows c := by
    intro c hc hkind
    have hnone : rows.countP (fun row => row.1 == c.id) = 0 := by
      rw [List.countP_eq_zero]
      intro row hrow hid
      obtain ⟨c', hc', hstock, hactive, hrow'⟩ := hrows row hrow
      obtain rfl := eq_of_id h hc hc' ((beq_iff_eq.mp hid).symm.trans hrow')
      rcases hkind with hstocked | hdraft
      · exact hstocked hstock
      · rw [hactive] at hdraft
        cases hdraft
    unfold Db.rows
    rw [List.countP_append, hnone, add_zero]
  refine ⟨h.campaigns, h.resources, hnodup, fun c hc hdraft => ?_, fun c hc n hn => ?_⟩
  · rw [hother c hc (.inr hdraft)]
    exact h.drafts c hc hdraft
  · obtain ⟨hle, hitems⟩ := h.safe c hc n hn
    refine ⟨?_, fun i hi hcampaign => ?_⟩
    · rw [hother c hc (.inl (by rw [hn]; exact Option.some_ne_none n))]
      exact hle
    · obtain ⟨r, hr, hrow⟩ := hitems i hi hcampaign
      exact ⟨r, hr, List.mem_append_left _ hrow⟩

theorem Consistent.addResource (h : Consistent db) (r : Resource) : Consistent (db.addResource r) := by
  unfold Db.addResource
  split_ifs with hany
  · exact h
  · refine ⟨h.campaigns, ?_, h.discounted, h.drafts, h.safe⟩
    rw [List.map_append, List.nodup_append]
    refine ⟨h.resources, List.nodup_singleton _, ?_⟩
    rintro id hid id' hid' rfl
    obtain ⟨o, ho, rfl⟩ := List.mem_map.mp hid
    rw [List.map_singleton, List.mem_singleton] at hid'
    exact hany (List.any_eq_true.mpr ⟨o, ho, beq_iff_eq.mpr hid'⟩)

/-- A draft becomes active. -/
theorem Consistent.setActive (h : Consistent db) (hc : c ∈ db.campaigns) :
    Consistent (db.setCampaign { c with state := .active }) := by
  have hmem : ∀ c' ∈ (db.setCampaign { c with state := .active }).campaigns,
      c' = { c with state := .active } ∨ c' ∈ db.campaigns := by
    intro c' hc'
    obtain ⟨c₀, hc₀, rfl⟩ := List.mem_map.mp hc'
    split_ifs
    · exact .inl rfl
    · exact .inr hc₀
  refine ⟨?_, h.resources, h.discounted, fun c' hc' hdraft => ?_, fun c' hc' n hn => ?_⟩
  · have hids : (db.campaigns.map fun c' => if c'.id = c.id then { c with state := .active } else c').map (·.id) =
        db.campaigns.map (·.id) := by
      rw [List.map_map]
      refine List.map_congr_left fun c' _ => ?_
      show (if c'.id = c.id then { c with state := .active } else c' : Campaign).id = c'.id
      split_ifs with hid
      · exact hid.symm
      · rfl
    show ((db.campaigns.map fun c' => if c'.id = c.id then { c with state := .active } else c').map (·.id)).Nodup
    rw [hids]
    exact h.campaigns
  · rcases hmem c' hc' with rfl | hc'
    · cases hdraft
    · exact h.drafts c' hc' hdraft
  · rcases hmem c' hc' with rfl | hc'
    · exact h.safe c hc n hn
    · exact h.safe c' hc' n hn

/-- Items that a campaign without stock has discounted. -/
theorem Consistent.setItems (h : Consistent db) (hc : c ∈ db.campaigns) {items : List InvoiceItem}
    (hitems : ∀ i ∈ items, i ∈ db.items ∨ (c.stock = none ∧ i.campaign = some c.id)) :
    Consistent { db with items := items } := by
  refine ⟨h.campaigns, h.resources, h.discounted, h.drafts, fun c' hc' n hn => ?_⟩
  obtain ⟨hle, hsafe⟩ := h.safe c' hc' n hn
  refine ⟨hle, fun i hi hcampaign => ?_⟩
  rcases hitems i hi with hmem | ⟨hstock, hid⟩
  · exact hsafe i hmem hcampaign
  · rw [hcampaign] at hid
    obtain rfl := eq_of_id h hc' hc (Option.some.inj hid)
    rw [hn] at hstock
    cases hstock

theorem find_campaign (h : Consistent db) (hc : c ∈ db.campaigns) :
    (db.campaigns.find? fun c' => c'.id == c.id) = some c := by
  obtain ⟨c', hfind⟩ : ∃ c', (db.campaigns.find? fun c' => c'.id == c.id) = some c' := by
    rw [← Option.isSome_iff_exists, List.find?_isSome]
    exact ⟨c, hc, beq_self_eq_true _⟩
  have hid := List.find?_some hfind
  rw [hfind, eq_of_id h (List.mem_of_find?_eq_some hfind) hc (beq_iff_eq.mp hid)]

/-- Rows of a draft that has become active: it had none. -/
theorem discounted_append_nodup (h : Consistent db) (hc : c ∈ db.campaigns) (hdraft : c.state = .draft)
    {matching : List Resource} (hmatching : List.Sublist matching db.resources) :
    (db.discounted ++ matching.map fun r => (c.id, r.id)).Nodup := by
  rw [List.nodup_append]
  refine ⟨h.discounted, ?_, ?_⟩
  · have hids : (matching.map (·.id)).Nodup := h.resources.sublist (hmatching.map _)
    have hpairs : matching.map (fun r => (c.id, r.id)) = (matching.map (·.id)).map fun id => (c.id, id) := by
      rw [List.map_map]
      rfl
    rw [hpairs]
    exact hids.map fun id id' heq => (Prod.mk.inj heq).2
  · rintro row hrow row' hrow' rfl
    obtain ⟨r, -, rfl⟩ := List.mem_map.mp hrow'
    have hnone := List.countP_eq_zero.mp (h.drafts c hc hdraft) (c.id, r.id) hrow
    exact hnone (beq_self_eq_true _)

/-- **A draft whose activation meets nothing goes active.** -/
theorem activate_consistent (h : Consistent db) (hc : c ∈ db.campaigns) (hdraft : c.state = .draft)
    (hclear : c.autoApply = true → (∀ r ∈ db.resources, r.state = .ok → Clear db.resources c r) ∧
      ∀ i ∈ db.items, pending c i = true → ∃ r, i.resource = some r ∧ Clear db.resources c r) :
    ∃ db', activate db c.id = .ok db' ∧ Consistent db' := by
  set active : Campaign := { c with state := .active } with hactive
  have hset : Consistent (db.setCampaign active) := h.setActive hc
  have hmem : active ∈ (db.setCampaign active).campaigns := List.mem_map.mpr ⟨c, hc, if_pos rfl⟩
  have hactivate : activate db c.id = applyCampaignToPendingInvoices (db.setCampaign active) active := by
    rw [activate, find_campaign h hc]
    exact if_pos hdraft
  rw [hactivate, applyCampaignToPendingInvoices, if_neg (by rw [hactive]; exact fun hne => hne rfl)]
  cases hauto : c.autoApply with
  | false =>
    exact ⟨db.setCampaign active, if_pos rfl, hset⟩
  | true =>
    obtain ⟨hresources, hitems⟩ := hclear hauto
    rw [if_neg (by decide)]
    have hloop : ∀ r ∈ (db.setCampaign active).resources.filter fun r => decide (r.state = .ok),
        Clear (db.setCampaign active).resources active r := by
      intro r hr
      obtain ⟨hmem, hok⟩ := List.mem_filter.mp hr
      exact hresources r hmem (of_decide_eq_true hok)
    obtain ⟨matching, hsub, hrun, hstock⟩ := discountResource_run hloop
    have hrows := hset.addRows (discounted_append_nodup h hc hdraft (hsub.trans List.filter_sublist))
      fun row hrow => by
        obtain ⟨r, hr, rfl⟩ := List.mem_map.mp hrow
        exact ⟨active, hmem, hstock (List.ne_nil_of_mem hr), rfl, rfl⟩
    obtain ⟨items, hmap, hall⟩ := @discountItem_run active db.resources db.items hitems
    refine ⟨_, ?_, hrows.setItems hmem hall⟩
    show ((db.setCampaign active).resources.filter fun r => decide (r.state = .ok)).foldlM (discountResource active)
      (db.setCampaign active) >>= _ = _
    rw [hrun]
    show (db.items.mapM fun i => if pending active i then discountItem db.resources active i else .ok i) >>= _ = _
    rw [hmap]
    rfl

/-- **An operation that is spared goes through**, and leaves the database consistent. -/
theorem Operation.apply_consistent (h : Consistent db) {op : Operation} (hop : op.Spares db) :
    ∃ db', op.apply db = .ok db' ∧ Consistent db' := by
  cases op with
  | create r =>
    have hadded := h.addResource r
    have hcampaigns : (db.addResource r).campaigns = db.campaigns := by
      unfold Db.addResource
      split_ifs <;> rfl
    cases hcoupon : r.coupon with
    | none =>
      refine ⟨db.addResource r, ?_, hadded⟩
      rw [Operation.apply, createDiscountedResourceOnActivation, hcoupon]
    | some couponCode =>
      have hclear : ∀ c ∈ (db.addResource r).campaigns.filter (applicable r couponCode),
          Clear (db.addResource r).resources c r := by
        intro c hc
        obtain ⟨hmem, happlicable⟩ := List.mem_filter.mp hc
        exact hop couponCode hcoupon c (hcampaigns ▸ hmem) happlicable
      obtain ⟨rows, hrun, hnodup, hrows⟩ := linkCampaign_run hclear hadded.discounted
      refine ⟨_, ?_, hadded.addRows hnodup fun row hrow => ?_⟩
      · rw [Operation.apply, createDiscountedResourceOnActivation, hcoupon]
        exact hrun
      · obtain ⟨c, hc, hstock, hid⟩ := hrows row hrow
        obtain ⟨hmem, happlicable⟩ := List.mem_filter.mp hc
        have hactive : c.state = .active := by
          simp only [applicable, Bool.and_eq_true, decide_eq_true_eq] at happlicable
          exact happlicable.1.1.1
        exact ⟨c, hmem, hstock, hactive, hid⟩
  | activate id =>
    obtain ⟨c, hc, rfl, hdraft, hclear⟩ := hop
    exact activate_consistent h hc hdraft hclear

/-- **A run that is spared never exceeds a stock and never fails.** -/
theorem stock_kept {ops : List Operation} (h : Consistent db) (hspared : Spared db ops) : Holds db ops := by
  induction ops generalizing db with
  | nil => exact h.safe
  | cons op ops ih =>
    obtain ⟨hop, hrest⟩ := hspared
    obtain ⟨db', happly, hconsistent⟩ := op.apply_consistent h hop
    exact ⟨h.safe, db', happly, ih hconsistent (hrest db' happly)⟩

/-! ### A campaign of a shop -/

def firstOfJune : Date := ⟨2026, 6, 1, by decide, by decide⟩

def lastOfJune : Date := ⟨2026, 6, 30, by decide, by decide⟩

def summerSale (stock : Option ℕ) (autoApply : Bool) : Campaign :=
  { id := 1, startDate := firstOfJune, endDate := lastOfJune, discount := 10, offerings := [7], stock := stock,
    autoApply := autoApply }

/-- A resource that is created in June. -/
def juneResource (id offering : ℕ) : Resource :=
  { id := id, offering := offering, customer := 1, state := .ok, created := firstOfJune, coupon := some "" }

/-- An item of June without resource. -/
def manualItem : InvoiceItem :=
  { id := 1, resource := none, invoiceState := .pending, year := 2026, month := 6, unitPrice := 100 }

def shop (stock : Option ℕ) (autoApply : Bool) (items : List InvoiceItem) : Db :=
  { campaigns := [summerSale stock autoApply], resources := [], items := items }

theorem shop_consistent (stock : Option ℕ) (autoApply : Bool) :
    Consistent (shop stock autoApply [manualItem]) := by
  refine ⟨List.nodup_singleton 1, List.nodup_nil, List.nodup_nil, fun c _ _ => rfl, fun c _ n _ => ⟨Nat.zero_le n, ?_⟩⟩
  intro i hi hcampaign
  rw [List.mem_singleton.mp hi] at hcampaign
  cases hcampaign

/-- A campaign of five is activated by hand, and a resource of another offering is created. -/
theorem stock_kept_elsewhere :
    Holds (shop (some 5) false [manualItem]) [.activate 1, .create (juneResource 1 8)] := by
  refine stock_kept (shop_consistent (some 5) false) ⟨⟨_, List.mem_cons_self, rfl, rfl, fun h => by cases h⟩, ?_⟩
  intro db' hdb'
  obtain rfl := Except.ok.inj hdb'
  refine ⟨?_, fun _ _ => trivial⟩
  intro couponCode _ c hc _ _
  rw [List.mem_singleton.mp hc]
  rfl

/-- The first resource of the offering already fails, as does the activation over an item without resource. -/
theorem first_resource_fails :
    (Consistent (shop (some 5) false [manualItem]) ∧
      ¬ Holds (shop (some 5) false [manualItem]) [.activate 1, .create (juneResource 1 7)]) ∧
    Consistent (shop (some 0) true [manualItem]) ∧ ¬ Holds (shop (some 0) true [manualItem]) [.activate 1] := by
  refine ⟨⟨shop_consistent _ _, ?_⟩, shop_consistent _ _, ?_⟩
  · rintro ⟨-, db₁, hfirst, -, db₂, hsecond, -⟩
    obtain rfl := Except.ok.inj hfirst
    have hfails : (.error .typeError : Except Failure Db) = .ok db₂ := hsecond
    cases hfails
  · rintro ⟨-, db₁, hfirst, -⟩
    have hfails : (.error .attributeError : Except Failure Db) = .ok db₁ := hfirst
    cases hfails

end Waldur.Promotions
