import Mathlib
import Waldur.Marketplace.Models

/-!
# Marketplace.BillingDiscount — volume discounts of an invoice

`apply_aggregated_volume_discounts` deletes the discount lines of an invoice and rebuilds them: the main
items are bucketed by plan component, each bucket or each resource of it is discounted on its summed
`discount_usage`, and every item of it with a positive discount gets a line of its own.  An item is in one
bucket and one group (`OnePerItem`), and a rounded share of a price is at most the rounded price
(`WithinPrice`).
-/

namespace Waldur.Marketplace

open Invoices Relational

/-- `_evaluate_percent`. -/
def evaluatePercent (formula : ℚ → Option ℚ) (usage : ℚ) : Option ℚ :=
  (formula usage).map (fun percent => max 0 (min 100 percent))

/-- `discount_amount` of `_create_discount_item`; `none` where no line is created. -/
def discountAmount (percent : ℚ) (item : InvoiceItem) : Option ℚ :=
  let amount := quantizePrice (item.unitPrice * item.quantity * percent / 100)
  if amount ≤ 0 then none else some amount

/-- `_create_discount_item`. -/
def discountItem (uuid : ℕ) (componentType : String) (mainItem : InvoiceItem) (amount : ℚ) : InvoiceItem where
  uuid := uuid
  unitPrice := -amount
  quantity := 1
  unit := .quantity
  resource := mainItem.resource
  planComponent := mainItem.planComponent
  project := mainItem.project
  start := mainItem.start
  stop := mainItem.stop
  details :=
    { isDiscount := true
      discountOfItem := some mainItem.uuid
      offeringComponentType := some componentType }

/-- Items that share a key, in the order of their first items: a `defaultdict(list)` filled in a loop. -/
def bucketsBy {κ : Type} [DecidableEq κ] (key : InvoiceItem → κ) (items : List InvoiceItem) :
    List (List InvoiceItem) :=
  (items.map key).eraseDups.map (fun k => items.filter (fun it => decide (key it = k)))

/-- The items that take part, each with its plan component. -/
def mainItems (planComponents : ℕ → Option PlanComponent) (items : List InvoiceItem) : List InvoiceItem :=
  items.filter (fun it =>
    (it.planComponent.bind planComponents).isSome && it.resource.isSome && it.details.discountUsage.isSome)

/-- The lines of one group: main item, component type and amount. -/
def groupLines (pc : PlanComponent) (formula : ℚ → Option ℚ) (group : List InvoiceItem) :
    List (InvoiceItem × String × ℚ) :=
  match evaluatePercent formula (group.map (fun it => it.details.discountUsage.getD 0)).sum with
  | none => []
  | some percent =>
    if percent ≤ 0 then []
    else group.filterMap (fun it => (discountAmount percent it).map (fun amount => (it, pc.componentType, amount)))

/-- The lines of the items of one plan component. -/
def bucketLines (planComponents : ℕ → Option PlanComponent) (bucket : List InvoiceItem) :
    List (InvoiceItem × String × ℚ) :=
  match (bucket.head?.bind (·.planComponent)).bind planComponents with
  | none => []
  | some pc =>
    match pc.discountFormula with
    | none => []
    | some formula =>
      let groups := match pc.discountAggregation with
        | .perResource => bucketsBy (fun it => it.resource.map Resource.id) bucket
        | .perCustomer => [bucket]
      groups.flatMap (groupLines pc formula)

/-- The lines that the pass creates on these items. -/
def discountLines (planComponents : ℕ → Option PlanComponent) (nextUuid : ℕ) (items : List InvoiceItem) :
    List InvoiceItem :=
  (((bucketsBy (·.planComponent) (mainItems planComponents items)).flatMap
    (bucketLines planComponents)).zipIdx nextUuid).map (fun line =>
      discountItem line.2 line.1.2.1 line.1.1 line.1.2.2)

/-- `apply_aggregated_volume_discounts` on an invoice. -/
def discountInvoice (planComponents : ℕ → Option PlanComponent) (nextUuid : ℕ) (inv : Invoice) : Invoice :=
  let inv := inv.deleteItems (fun it => it.details.isDiscount)
  inv.bulkCreate (discountLines planComponents nextUuid inv.items)

theorem discountInvoice_id (planComponents : ℕ → Option PlanComponent) (nextUuid : ℕ) (inv : Invoice) :
    (discountInvoice planComponents nextUuid inv).id = inv.id := by
  unfold discountInvoice
  exact Invoice.bulkCreate_id _ _

/-- The pass in the database. -/
def applyAggregatedVolumeDiscounts (db : Db) (planComponents : ℕ → Option PlanComponent) (invoice : ℕ) : Db :=
  { db with
    invoices := db.invoices.update invoice (discountInvoice planComponents db.nextUuid)
      (discountInvoice_id planComponents db.nextUuid)
    nextUuid := db.nextUuid +
      ((db.invoices.get? invoice).map (fun inv =>
        (discountLines planComponents db.nextUuid
          (inv.deleteItems (fun it => it.details.isDiscount)).items).length)).getD 0 }

/-- What the pass creates are discount lines. -/
theorem discountLines_isDiscount {planComponents : ℕ → Option PlanComponent} {n : ℕ} {items : List InvoiceItem}
    {it : InvoiceItem} (h : it ∈ discountLines planComponents n items) : it.details.isDiscount = true := by
  obtain ⟨line, -, rfl⟩ := List.mem_map.mp h
  rfl

/-! ## Lines and the items they discount -/

theorem nodup_eraseDups {α : Type} [DecidableEq α] : ∀ l : List α, l.eraseDups.Nodup
  | [] => List.nodup_nil
  | a :: l => by
    rw [List.eraseDups_cons]
    refine List.nodup_cons.mpr ⟨fun h => ?_, nodup_eraseDups _⟩
    obtain ⟨-, hne⟩ := List.mem_filter.mp (List.mem_eraseDups.mp h)
    simp at hne
termination_by l => l.length
decreasing_by exact Nat.lt_succ_of_le (List.length_filter_le _ _)

/-- A pass over items discounts each at most once: its lines are for distinct items of the list. -/
def OnePerItem (f : List InvoiceItem → List (InvoiceItem × String × ℚ)) : Prop :=
  ∀ items : List InvoiceItem, (∀ line ∈ f items, line.1 ∈ items) ∧
    ((items.map (·.uuid)).Nodup → ((f items).map (·.1.uuid)).Nodup)

/-- Bucket by bucket, items are still discounted at most once. -/
theorem onePerItem_flatMap_bucketsBy {κ : Type} [DecidableEq κ] (key : InvoiceItem → κ)
    {f : List InvoiceItem → List (InvoiceItem × String × ℚ)} (hf : OnePerItem f) :
    OnePerItem (fun items => (bucketsBy key items).flatMap f) := by
  intro items
  have hmem : ∀ k, ∀ line ∈ f (items.filter (fun it => decide (key it = k))), line.1 ∈ items ∧ key line.1 = k := by
    intro k line hline
    obtain ⟨hit, hk⟩ := List.mem_filter.mp ((hf _).1 line hline)
    exact ⟨hit, of_decide_eq_true hk⟩
  constructor
  · intro line hline
    obtain ⟨bucket, hbucket, hline⟩ := List.mem_flatMap.mp hline
    obtain ⟨k, -, rfl⟩ := List.mem_map.mp hbucket
    exact (hmem k line hline).1
  · intro hnodup
    show (((items.map key).eraseDups.map _).flatMap f |>.map _).Nodup
    rw [List.flatMap_map, List.map_flatMap]
    refine List.nodup_flatMap.mpr ⟨fun k _ => ?_, ?_⟩
    · exact (hf _).2 (hnodup.sublist (List.filter_sublist.map _))
    · refine (nodup_eraseDups (items.map key)).imp fun {k k'} hne => ?_
      intro uuid h h'
      obtain ⟨line, hline, rfl⟩ := List.mem_map.mp h
      obtain ⟨line', hline', heq⟩ := List.mem_map.mp h'
      obtain ⟨hit, hk⟩ := hmem k line hline
      obtain ⟨hit', hk'⟩ := hmem k' line' hline'
      have hsame : line'.1 = line.1 := List.inj_on_of_nodup_map hnodup hit' hit heq
      exact hne (hk.symm.trans ((congrArg key hsame).symm.trans hk'))

theorem noLines (items : List InvoiceItem) : (∀ line ∈ ([] : List (InvoiceItem × String × ℚ)), line.1 ∈ items) ∧
    ((items.map (·.uuid)).Nodup → (([] : List (InvoiceItem × String × ℚ)).map (·.1.uuid)).Nodup) :=
  ⟨fun _ h => absurd h List.not_mem_nil, fun _ => List.nodup_nil⟩

/-- The items of a group that get a line, in their order. -/
theorem groupLines_sublist (percent : ℚ) (componentType : String) : ∀ items : List InvoiceItem,
    ((items.filterMap (fun it => (discountAmount percent it).map (fun amount => (it, componentType, amount)))).map
      (·.1.uuid)).Sublist (items.map (·.uuid))
  | [] => List.Sublist.refl _
  | it :: items => by
    cases h : discountAmount percent it with
    | none =>
      rw [List.filterMap_cons_none (by rw [h]; rfl)]
      exact (groupLines_sublist percent componentType items).cons _
    | some amount =>
      rw [List.filterMap_cons_some (b := (it, componentType, amount)) (by rw [h]; rfl)]
      exact (groupLines_sublist percent componentType items).cons_cons _

theorem onePerItem_groupLines (pc : PlanComponent) (formula : ℚ → Option ℚ) :
    OnePerItem (groupLines pc formula) := by
  intro items
  unfold groupLines
  split
  · exact noLines items
  · next percent _ =>
    split
    · exact noLines items
    · constructor
      · intro line hline
        obtain ⟨it, hit, h⟩ := List.mem_filterMap.mp hline
        obtain ⟨amount, -, rfl⟩ := Option.map_eq_some_iff.mp h
        exact hit
      · exact fun hnodup => hnodup.sublist (groupLines_sublist percent pc.componentType items)

theorem onePerItem_bucketLines (planComponents : ℕ → Option PlanComponent) :
    OnePerItem (bucketLines planComponents) := by
  intro items
  unfold bucketLines
  split
  · exact noLines items
  · next pc _ =>
    split
    · exact noLines items
    · next formula _ =>
      cases pc.discountAggregation with
      | perResource =>
        exact onePerItem_flatMap_bucketsBy (fun it => it.resource.map Resource.id)
          (onePerItem_groupLines pc formula) items
      | perCustomer =>
        show _ ∧ _
        simp only [List.flatMap_cons, List.flatMap_nil, List.append_nil]
        exact onePerItem_groupLines pc formula items

/-! ## What a line takes off -/

theorem evaluatePercent_le {formula : ℚ → Option ℚ} {usage percent : ℚ}
    (h : evaluatePercent formula usage = some percent) : percent ≤ 100 := by
  obtain ⟨x, -, rfl⟩ := Option.map_eq_some_iff.mp h
  exact max_le (by norm_num) (min_le_left 100 x)

/-- A line takes something off, and at most the price. -/
def WithinPrice (line : InvoiceItem × String × ℚ) : Prop :=
  0 ≤ line.1.unitPrice * line.1.quantity → quantizePrice line.2.2 = line.2.2 ∧ 0 < line.2.2 ∧ line.2.2 ≤ line.1.price

theorem discountAmount_withinPrice {percent amount : ℚ} {it : InvoiceItem} {componentType : String}
    (h₀ : 0 < percent) (h₁ : percent ≤ 100) (h : discountAmount percent it = some amount) :
    WithinPrice (it, componentType, amount) := by
  intro hcost
  unfold discountAmount at h
  dsimp only at h
  split at h
  · cases h
  · next hpos =>
    obtain rfl := Option.some.inj h
    refine ⟨Decimal.quantizeUp_quantizeUp 2 _, not_le.mp hpos, ?_⟩
    have hshare : it.unitPrice * it.quantity * percent / 100 ≤ it.unitPrice * it.quantity := by
      rw [div_le_iff₀ (by norm_num)]
      exact mul_le_mul_of_nonneg_left h₁ hcost
    refine Decimal.quantizeUp_mono ?_ hshare
    positivity

theorem groupLines_withinPrice {pc : PlanComponent} {formula : ℚ → Option ℚ} {items : List InvoiceItem}
    {line : InvoiceItem × String × ℚ} (h : line ∈ groupLines pc formula items) : WithinPrice line := by
  unfold groupLines at h
  split at h
  · cases h
  · next percent hpercent =>
    split at h
    · cases h
    · next hpos =>
      obtain ⟨it, -, hline⟩ := List.mem_filterMap.mp h
      obtain ⟨amount, hamount, rfl⟩ := Option.map_eq_some_iff.mp hline
      exact discountAmount_withinPrice (not_le.mp hpos) (evaluatePercent_le hpercent) hamount

theorem bucketLines_withinPrice {planComponents : ℕ → Option PlanComponent} {items : List InvoiceItem}
    {line : InvoiceItem × String × ℚ} (h : line ∈ bucketLines planComponents items) : WithinPrice line := by
  unfold bucketLines at h
  split at h
  · cases h
  · split at h
    · cases h
    · obtain ⟨group, -, hline⟩ := List.mem_flatMap.mp h
      exact groupLines_withinPrice hline

/-! ## The pass on an invoice -/

/-- What the pass charges off: main item, component type and amount. -/
def passLines (planComponents : ℕ → Option PlanComponent) (items : List InvoiceItem) :
    List (InvoiceItem × String × ℚ) :=
  (bucketsBy (·.planComponent) (mainItems planComponents items)).flatMap (bucketLines planComponents)

/-- A line without its key. -/
def contentOf (line : InvoiceItem) : InvoiceItem := { line with uuid := 0 }

/-- The discount lines paired with an item. -/
def discountsOf (it : InvoiceItem) (inv : Invoice) : List InvoiceItem :=
  (inv.items.filter (·.details.isDiscount)).filter (fun line => line.details.discountOfItem == some it.uuid)

section Pass

variable {planComponents : ℕ → Option PlanComponent} {n : ℕ} {inv : Invoice} {items : List InvoiceItem}

theorem discountLines_eq : discountLines planComponents n items =
    ((passLines planComponents items).zipIdx n).map (fun line =>
      discountItem line.2 line.1.2.1 line.1.1 line.1.2.2) := rfl

theorem onePerItem_passLines : OnePerItem (passLines planComponents) := by
  intro items
  obtain ⟨hmem, hnodup⟩ := onePerItem_flatMap_bucketsBy (·.planComponent) (onePerItem_bucketLines planComponents)
    (mainItems planComponents items)
  exact ⟨fun line hline => List.mem_of_mem_filter (hmem line hline),
    fun h => hnodup (h.sublist (List.filter_sublist.map _))⟩

theorem passLines_withinPrice {line : InvoiceItem × String × ℚ} (h : line ∈ passLines planComponents items) :
    WithinPrice line := by
  obtain ⟨bucket, -, hline⟩ := List.mem_flatMap.mp h
  exact bucketLines_withinPrice hline

/-- The keys of the lines are all that depends on where they are numbered from. -/
theorem discountLines_content (n : ℕ) : (discountLines planComponents n items).map contentOf =
    (passLines planComponents items).map (fun line => contentOf (discountItem 0 line.2.1 line.1 line.2.2)) := by
  have hfst := List.zipIdx_map_fst n (passLines planComponents items)
  calc (discountLines planComponents n items).map contentOf
      = (((passLines planComponents items).zipIdx n).map Prod.fst).map
          (fun line => contentOf (discountItem 0 line.2.1 line.1 line.2.2)) := by
        rw [discountLines_eq, List.map_map, List.map_map]
        rfl
    _ = _ := by rw [hfst]

theorem discountInvoice_items : (discountInvoice planComponents n inv).items =
    inv.items.filter (fun it => !it.details.isDiscount) ++
      discountLines planComponents n (inv.items.filter (fun it => !it.details.isDiscount)) := by
  have hattributed : ∀ line ∈ discountLines planComponents n (inv.items.filter (fun it => !it.details.isDiscount)),
      line.WellAttributed inv.customer := by
    intro line hline
    obtain ⟨x, hx, rfl⟩ := List.mem_map.mp hline
    have hmain := (onePerItem_passLines _).1 x.1 (List.fst_mem_of_mem_zipIdx hx)
    exact inv.attributed x.1.1 (List.mem_of_mem_filter hmain)
  unfold discountInvoice Invoice.bulkCreate
  exact congrArg Invoice.items (dif_pos hattributed)

/-- After the pass, the discount lines are those that it created. -/
theorem filter_isDiscount : (discountInvoice planComponents n inv).items.filter (·.details.isDiscount) =
    discountLines planComponents n (inv.items.filter (fun it => !it.details.isDiscount)) := by
  rw [discountInvoice_items, List.filter_append, List.filter_filter,
    List.filter_eq_nil_iff.mpr (by simp), List.nil_append]
  exact List.filter_eq_self.mpr fun it hit => discountLines_isDiscount hit

theorem filter_not_isDiscount :
    (discountInvoice planComponents n inv).items.filter (fun it => !it.details.isDiscount) =
      inv.items.filter (fun it => !it.details.isDiscount) := by
  have hnone : (discountLines planComponents n (inv.items.filter (fun it => !it.details.isDiscount))).filter
      (fun it => !it.details.isDiscount) = [] :=
    List.filter_eq_nil_iff.mpr fun it hit => by simp [discountLines_isDiscount hit]
  rw [discountInvoice_items, List.filter_append, hnone, List.append_nil, List.filter_filter]
  simp

/-- At most one row has a key. -/
theorem filter_key {α : Type} {l : List α} {f : α → ℕ} (hnodup : (l.map f).Nodup) (k : ℕ) :
    l.filter (fun x => f x == k) = [] ∨ ∃ x ∈ l, f x = k ∧ l.filter (fun x => f x == k) = [x] := by
  have hkeys : ((l.filter (fun x => f x == k)).map f).Nodup := hnodup.sublist (List.filter_sublist.map f)
  have hmem : ∀ x ∈ l.filter (fun x => f x == k), x ∈ l ∧ f x = k := fun x hx =>
    ⟨List.mem_of_mem_filter hx, by simpa using List.of_mem_filter hx⟩
  match h : l.filter (fun x => f x == k) with
  | [] => exact Or.inl rfl
  | [x] =>
    obtain ⟨hx, hk⟩ := hmem x (by rw [h]; exact List.mem_cons_self)
    exact Or.inr ⟨x, hx, hk, rfl⟩
  | x :: y :: rest =>
    exfalso
    have hxk := (hmem x (by rw [h]; exact List.mem_cons_self)).2
    have hyk := (hmem y (by rw [h]; exact List.mem_cons_of_mem x List.mem_cons_self)).2
    rw [h, List.map_cons, List.map_cons, hxk, hyk] at hkeys
    exact (List.nodup_cons.mp hkeys).1 List.mem_cons_self

/-- The lines paired with an item are those that the pass created for its key. -/
theorem discountsOf_discountInvoice (it : InvoiceItem) : discountsOf it (discountInvoice planComponents n inv) =
    (((passLines planComponents (inv.items.filter (fun it => !it.details.isDiscount))).zipIdx n).filter
      (fun line => line.1.1.uuid == it.uuid)).map (fun line => discountItem line.2 line.1.2.1 line.1.1 line.1.2.2) := by
  unfold discountsOf
  rw [filter_isDiscount, discountLines_eq, List.filter_map]
  refine congrArg (List.map _) (List.filter_congr fun line _ => ?_)
  show (some line.1.1.uuid == some it.uuid) = (line.1.1.uuid == it.uuid)
  rfl

/-- **One pass**: an item that does not cost less than nothing is paired with no line, or with one that takes
something off and at most the price. -/
theorem discountsOf_cases (hnodup : (inv.items.map (·.uuid)).Nodup) {it : InvoiceItem} (hit : it ∈ inv.items)
    (hd : it.details.isDiscount = false) (hcost : 0 ≤ it.unitPrice * it.quantity) :
    discountsOf it (discountInvoice planComponents n inv) = [] ∨
      ∃ line, discountsOf it (discountInvoice planComponents n inv) = [line] ∧
        0 < -line.price ∧ -line.price ≤ it.price := by
  have hkept : it ∈ inv.items.filter (fun it => !it.details.isDiscount) := List.mem_filter.mpr ⟨hit, by rw [hd]; rfl⟩
  have hnodup' : ((inv.items.filter (fun it => !it.details.isDiscount)).map (·.uuid)).Nodup :=
    hnodup.sublist (List.filter_sublist.map _)
  obtain ⟨hmem, hlines⟩ := @onePerItem_passLines planComponents
    (inv.items.filter (fun it => !it.details.isDiscount))
  have hkeys : (((passLines planComponents (inv.items.filter (fun it => !it.details.isDiscount))).zipIdx n).map
      (fun line => line.1.1.uuid)).Nodup := by
    have hfst := List.zipIdx_map_fst n
      (passLines planComponents (inv.items.filter (fun it => !it.details.isDiscount)))
    rw [← hfst, List.map_map] at hlines
    exact hlines hnodup'
  rw [discountsOf_discountInvoice]
  rcases filter_key hkeys it.uuid with hnone | ⟨line, hline, hkey, hone⟩
  · exact Or.inl (by rw [hnone]; rfl)
  · have hpass := List.fst_mem_of_mem_zipIdx hline
    have hmain : line.1.1 = it := List.inj_on_of_nodup_map hnodup' (hmem line.1 hpass) hkept hkey
    obtain ⟨hcent, hpos, hle⟩ := passLines_withinPrice hpass (by rw [hmain]; exact hcost)
    have hprice : (discountItem line.2 line.1.2.1 line.1.1 line.1.2.2).price = -line.1.2.2 := by
      show quantizePrice (-line.1.2.2 * 1) = _
      rw [mul_one]
      exact (Decimal.quantizeUp_neg_eq 2 _).trans (congrArg Neg.neg hcent)
    refine Or.inr ⟨_, by rw [hone]; rfl, ?_⟩
    rw [hprice, neg_neg, ← hmain]
    exact ⟨hpos, hle⟩

/-- **The volume-discount pass** run twice makes the same lines as run once, and pairs each main item with at
most one line, which takes something off and leaves the net price between nothing and the price. -/
theorem discountPass_idempotent_bounded (planComponents : ℕ → Option PlanComponent) (n n' : ℕ) (inv : Invoice)
    (hnodup : (inv.items.map (·.uuid)).Nodup) :
    ((discountInvoice planComponents n' (discountInvoice planComponents n inv)).items.filter
        (·.details.isDiscount)).map contentOf =
      ((discountInvoice planComponents n inv).items.filter (·.details.isDiscount)).map contentOf ∧
    ∀ it ∈ inv.items, it.details.isDiscount = false → 0 ≤ it.unitPrice → 0 ≤ it.quantity →
      (discountsOf it (discountInvoice planComponents n inv)).length ≤ 1 ∧
        (∀ line ∈ discountsOf it (discountInvoice planComponents n inv),
          0 < -line.price ∧ -line.price ≤ it.price) ∧
        0 ≤ it.price + ((discountsOf it (discountInvoice planComponents n inv)).map InvoiceItem.price).sum ∧
        it.price + ((discountsOf it (discountInvoice planComponents n inv)).map InvoiceItem.price).sum ≤ it.price := by
  constructor
  · rw [filter_isDiscount, filter_isDiscount, filter_not_isDiscount, discountLines_content, discountLines_content]
  · intro it hit hd hprice hquantity
    have hcost : 0 ≤ it.unitPrice * it.quantity := mul_nonneg hprice hquantity
    have hgross : 0 ≤ it.price := Decimal.quantizeUp_nonneg hcost
    rcases @discountsOf_cases planComponents n inv hnodup it hit hd hcost with
      hnone | ⟨line, hone, hpos, hle⟩
    · rw [hnone]
      refine ⟨Nat.zero_le 1, fun line hline => absurd hline List.not_mem_nil, ?_, ?_⟩
      · rw [List.map_nil, List.sum_nil, add_zero]
        exact hgross
      · rw [List.map_nil, List.sum_nil, add_zero]
    · rw [hone]
      refine ⟨le_refl 1, ?_, ?_, ?_⟩
      · intro line' hline'
        obtain rfl := List.mem_singleton.mp hline'
        exact ⟨hpos, hle⟩
      · rw [List.map_singleton, List.sum_singleton]
        linarith
      · rw [List.map_singleton, List.sum_singleton]
        linarith

end Pass

/-- Storage of two resources at 0.05 a unit, a third off from 100 units on. -/
def storageComponent : PlanComponent where
  id := 1
  componentType := "storage"
  price := 1 / 20
  discountFormula := some (fun usage => if 100 ≤ usage then some (100 / 3) else none)
  price_nonneg := by norm_num

def storageItem (uuid resource : ℕ) (quantity : ℚ) : InvoiceItem where
  uuid := uuid
  unitPrice := 1 / 20
  quantity := quantity
  unit := .perMonth
  resource := some ⟨resource, 1, ⟨10, 1⟩⟩
  planComponent := some 1
  project := some ⟨10, 1⟩
  details := { offeringComponentType := some "storage", discountUsage := some quantity }

def storageInvoice : Invoice where
  id := 1
  customer := 1
  year := 2024
  month := 6
  taxPercent := 0
  items := [storageItem 1 1 70, storageItem 2 2 31]
  month_valid := Calendar.june_valid
  tax_nonneg := Invoice.untaxed
  attributed := by
    intro it hit r hr
    rcases List.mem_pair.mp hit with rfl | rfl <;> obtain rfl := Option.some.inj hr <;> exact ⟨rfl, rfl⟩

/-- The two lines take 1.17 off 3.50 and 0.52 off 1.55, and a second pass makes them again. -/
theorem storage_discounted_twice :
    ((discountInvoice (fun _ => some storageComponent) 7
        (discountInvoice (fun _ => some storageComponent) 3 storageInvoice)).items.filter
        (·.details.isDiscount)).map contentOf =
      ((discountInvoice (fun _ => some storageComponent) 3 storageInvoice).items.filter
        (·.details.isDiscount)).map contentOf ∧
    (discountsOf (storageItem 1 1 70) (discountInvoice (fun _ => some storageComponent) 3 storageInvoice)).map
      InvoiceItem.price = [-(117 / 100)] :=
  ⟨(discountPass_idempotent_bounded (fun _ => some storageComponent) 3 7 storageInvoice (by decide)).1,
    by decide +kernel⟩

end Waldur.Marketplace
