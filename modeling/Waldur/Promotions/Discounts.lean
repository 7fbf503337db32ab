import Mathlib
import Waldur.Lib.Runs
import Waldur.Promotions.Campaigns

/-!
# Promotions.Discounts — the campaign that prices an item

`Campaign.get_discount_for_resource` walks the rows of `DiscountedResource` of a resource.  It takes the price of
each running campaign from the price that the one before it left, and computes the end of a campaign as a month of
the year in which it was linked.
-/

namespace Waldur.Promotions

open Calendar Runs

/-! ## The loop -/

/-- A campaign with its `months`, 0 for indefinitely. -/
structure PromotedCampaign extends Campaign where
  months : ℕ := 1

structure DiscountedResource where
  campaign : PromotedCampaign
  created : Date

inductive DateError
  /-- `datetime.date` with a month that is none. -/
  | valueError
deriving DecidableEq

/-- `datetime.date(year=year, month=month, day=1)`. -/
def firstOfMonth (year month : ℕ) : Except DateError Date :=
  if h : 1 ≤ month ∧ month ≤ 12 then .ok ⟨year, month, 1, h, ⟨le_refl 1, one_le_monthDays _ _⟩⟩
  else .error .valueError

/-- `discount_end`. -/
def DiscountedResource.discountEnd (dr : DiscountedResource) : Except DateError Date :=
  firstOfMonth dr.created.year (dr.created.month + dr.campaign.months - 1)

/-- The variables of the loop: `unit_price`, and the two parts of `discount`. -/
structure DiscountLoop where
  unitPrice : ℚ
  campaign : Option PromotedCampaign
  price : ℚ

/-- What a campaign that is not over does. -/
def DiscountLoop.apply (st : DiscountLoop) (campaign : PromotedCampaign) : DiscountLoop :=
  let unitPrice := campaign.getDiscountPrice st.unitPrice
  if st.campaign.isNone || decide (unitPrice < st.price) then ⟨unitPrice, some campaign, unitPrice⟩
  else { st with unitPrice := unitPrice }

/-- A turn of the loop. -/
def DiscountLoop.turn (invoiceDate : Date) (st : DiscountLoop) (dr : DiscountedResource) :
    Except DateError DiscountLoop := do
  let discountEnd ← dr.discountEnd
  return if discountEnd < invoiceDate then st else st.apply dr.campaign

/-- `get_discount_for_resource`, of the rows of the resource and the month of an invoice. -/
def getDiscountForResource (rows : List DiscountedResource) (invoice : Date) (unitPrice : ℚ) :
    Except DateError (Option PromotedCampaign × ℚ) := do
  let st ← rows.foldlM (DiscountLoop.turn invoice.replaceDayOne) ⟨unitPrice, none, unitPrice⟩
  return (st.campaign, st.price)

/-! ## What it is for -/

/-- The months since year 0. -/
def monthIndex (d : Date) : ℕ := d.year * 12 + d.month

/-- A campaign runs indefinitely, or for its months from the one in which it was linked. -/
def DiscountedResource.runs (dr : DiscountedResource) (invoiceDate : Date) : Bool :=
  decide (monthIndex dr.created ≤ monthIndex invoiceDate) &&
    (dr.campaign.months == 0 || decide (monthIndex invoiceDate < monthIndex dr.created + dr.campaign.months))

/-- The campaigns that run. -/
def running (rows : List DiscountedResource) (invoiceDate : Date) : List PromotedCampaign :=
  (rows.filter fun dr => dr.runs invoiceDate).map (·.campaign)

/-- The lowest of the base price and of the prices of campaigns, each alone. -/
def lowestAlone (unitPrice : ℚ) (campaigns : List PromotedCampaign) : ℚ :=
  (campaigns.map fun c => c.getDiscountPrice unitPrice).foldr min unitPrice

/-- The result is the lowest price, with a campaign that gives it. -/
structure Cheapest (campaigns : List PromotedCampaign) (unitPrice : ℚ) (result : Option PromotedCampaign × ℚ) : Prop where
  price : result.2 = lowestAlone unitPrice campaigns
  base : result.1 = none → result.2 = unitPrice
  attained : ∀ c ∈ result.1, c ∈ campaigns ∧ c.getDiscountPrice unitPrice = result.2

/-- The discount is found, and it is the cheapest. -/
def FindsCheapest (rows : List DiscountedResource) (invoiceDate : Date) (unitPrice : ℚ) : Prop :=
  ∃ result, getDiscountForResource rows invoiceDate unitPrice = .ok result ∧
    Cheapest (running rows invoiceDate) unitPrice result

/-! ### The lowest price -/

section Lowest

variable {unitPrice : ℚ} {campaigns : List PromotedCampaign}

theorem lowestAlone_le_base : lowestAlone unitPrice campaigns ≤ unitPrice := by
  unfold lowestAlone
  induction campaigns with
  | nil => exact le_refl unitPrice
  | cons c campaigns ih => exact (min_le_right _ _).trans ih

theorem lowestAlone_le {c : PromotedCampaign} (h : c ∈ campaigns) :
    lowestAlone unitPrice campaigns ≤ c.getDiscountPrice unitPrice := by
  unfold lowestAlone
  induction campaigns with
  | nil => cases h
  | cons c' campaigns ih =>
    rcases List.mem_cons.mp h with rfl | h
    · exact min_le_left _ _
    · exact (min_le_right _ _).trans (ih h)

theorem lowestAlone_eq (unitPrice : ℚ) (campaigns : List PromotedCampaign) :
    lowestAlone unitPrice campaigns = unitPrice ∨
      ∃ c ∈ campaigns, c.getDiscountPrice unitPrice = lowestAlone unitPrice campaigns := by
  unfold lowestAlone
  induction campaigns with
  | nil => exact Or.inl rfl
  | cons c campaigns ih =>
    rw [List.map_cons, List.foldr_cons]
    rcases min_choice (c.getDiscountPrice unitPrice)
      ((campaigns.map fun c => c.getDiscountPrice unitPrice).foldr min unitPrice) with h | h
    · exact Or.inr ⟨c, List.mem_cons_self, h.symm⟩
    · rw [h]
      exact ih.imp id fun ⟨c', hc', heq⟩ => ⟨c', List.mem_cons_of_mem c hc', heq⟩

/-- The lowest price does not depend on the order of the campaigns. -/
theorem lowestAlone_perm {campaigns' : List PromotedCampaign} (h : campaigns.Perm campaigns') :
    lowestAlone unitPrice campaigns = lowestAlone unitPrice campaigns' :=
  (h.map _).foldr_eq' (fun a _ b _ c => min_left_comm b a c) unitPrice

end Lowest

/-! ### The ends of campaigns -/

/-- `discount_end` exists: the last month is in the year in which the campaign was linked. -/
def DiscountedResource.EndsInYear (dr : DiscountedResource) : Prop :=
  1 ≤ dr.created.month + dr.campaign.months - 1 ∧ dr.created.month + dr.campaign.months - 1 ≤ 12

instance (dr : DiscountedResource) : Decidable dr.EndsInYear :=
  inferInstanceAs (Decidable (_ ∧ _))

theorem firstOfMonth_lt {a b : Date} (ha : a.day = 1) (hb : b.day = 1) : a < b ↔ monthIndex a < monthIndex b := by
  have hma := a.month_valid
  have hmb := b.month_valid
  unfold monthIndex
  show (a.year < b.year ∨ _) ↔ _
  rw [ha, hb]
  omega

/-- A campaign that the code takes into account. -/
def DiscountedResource.counts (dr : DiscountedResource) (invoiceDate : Date) : Bool :=
  dr.campaign.months != 0 && dr.runs invoiceDate

/-- The campaigns that the code applies, one after another. -/
def counted (rows : List DiscountedResource) (invoiceDate : Date) : List PromotedCampaign :=
  (rows.filter fun dr => dr.counts invoiceDate).map (·.campaign)

section Turn

variable {invoiceDate : Date} {dr : DiscountedResource}

theorem discountEnd_of_endsInYear (h : dr.EndsInYear) : ∃ d, dr.discountEnd = .ok d ∧ d.day = 1 ∧
    monthIndex d = dr.created.year * 12 + (dr.created.month + dr.campaign.months - 1) := by
  have hvalid : 1 ≤ dr.created.month + dr.campaign.months - 1 ∧ dr.created.month + dr.campaign.months - 1 ≤ 12 := h
  unfold DiscountedResource.discountEnd firstOfMonth
  rw [dif_pos hvalid]
  exact ⟨_, rfl, rfl, rfl⟩

theorem discountEnd_of_not_endsInYear (h : ¬ dr.EndsInYear) : dr.discountEnd = .error .valueError := by
  unfold DiscountedResource.discountEnd firstOfMonth
  exact dif_neg h

/-- **A turn** applies a campaign that runs for some months; an indefinite one has ended in the month before it was
linked. -/
theorem turn_of_endsInYear (h : dr.EndsInYear) (hday : invoiceDate.day = 1)
    (hlater : monthIndex dr.created ≤ monthIndex invoiceDate) (st : DiscountLoop) :
    st.turn invoiceDate dr = .ok (if dr.counts invoiceDate then st.apply dr.campaign else st) := by
  obtain ⟨d, hd, hone, hindex⟩ := discountEnd_of_endsInYear h
  have hmonth := dr.created.month_valid
  have hcounts : dr.counts invoiceDate = true ↔ ¬ d < invoiceDate := by
    rw [firstOfMonth_lt hone hday, hindex]
    unfold DiscountedResource.counts DiscountedResource.runs
    simp only [Bool.and_eq_true, bne_iff_ne, decide_eq_true_eq, Bool.or_eq_true, beq_iff_eq]
    unfold monthIndex at hlater ⊢
    omega
  unfold DiscountLoop.turn
  rw [hd]
  by_cases hover : d < invoiceDate
  · have hnot : ¬ dr.counts invoiceDate = true := fun hc => hcounts.mp hc hover
    rw [if_neg hnot]
    show Except.ok (if d < invoiceDate then st else _) = _
    rw [if_pos hover]
  · rw [if_pos (hcounts.mpr hover)]
    show Except.ok (if d < invoiceDate then st else _) = _
    rw [if_neg hover]

theorem turn_of_not_endsInYear (h : ¬ dr.EndsInYear) (st : DiscountLoop) :
    st.turn invoiceDate dr = .error .valueError := by
  unfold DiscountLoop.turn
  rw [discountEnd_of_not_endsInYear h]
  rfl

end Turn

section Loop

variable {invoiceDate : Date} {rows : List DiscountedResource} {st st' : DiscountLoop}

/-- The loop comes to its end exactly if all ends are in their years, and then it applies the counted campaigns. -/
theorem foldlM_turn (hday : invoiceDate.day = 1) (hlater : ∀ dr ∈ rows, monthIndex dr.created ≤ monthIndex invoiceDate) :
    rows.foldlM (DiscountLoop.turn invoiceDate) st = .ok st' ↔
      (∀ dr ∈ rows, dr.EndsInYear) ∧ st' = (counted rows invoiceDate).foldl DiscountLoop.apply st := by
  induction rows generalizing st with
  | nil =>
    rw [List.foldlM_nil]
    exact ⟨fun h => ⟨fun _ hdr => absurd hdr List.not_mem_nil, (Except.ok.inj h).symm⟩, fun h => congrArg _ h.2.symm⟩
  | cons dr rows ih =>
    have hrest := fun dr' hdr' => hlater dr' (List.mem_cons_of_mem dr hdr')
    rw [List.foldlM_cons]
    by_cases hends : dr.EndsInYear
    · rw [turn_of_endsInYear hends hday (hlater dr List.mem_cons_self)]
      show rows.foldlM (DiscountLoop.turn invoiceDate) _ = .ok st' ↔ _
      rw [ih hrest, List.forall_mem_cons, and_iff_right hends]
      unfold counted
      cases hc : dr.counts invoiceDate with
      | true => simp only [List.filter_cons, hc, if_true, List.map_cons, List.foldl_cons]
      | false => simp only [List.filter_cons, hc, Bool.false_eq_true, if_false]
    · rw [turn_of_not_endsInYear hends]
      exact iff_of_false nofun fun h => hends (h.1 dr List.mem_cons_self)

end Loop

/-! ### Prices taken one after another -/

/-- The price that campaigns leave, one after another. -/
def priceAfter (unitPrice : ℚ) (campaigns : List PromotedCampaign) : ℚ :=
  campaigns.foldl (fun price c => c.getDiscountPrice price) unitPrice

/-- The campaigns with their prices, each on the price left by those before it. -/
def inTurn (unitPrice : ℚ) : List PromotedCampaign → List (PromotedCampaign × ℚ)
  | [] => []
  | c :: campaigns => (c, c.getDiscountPrice unitPrice) :: inTurn (c.getDiscountPrice unitPrice) campaigns

theorem inTurn_concat (unitPrice : ℚ) (campaigns : List PromotedCampaign) (c : PromotedCampaign) :
    inTurn unitPrice (campaigns ++ [c]) =
      inTurn unitPrice campaigns ++ [(c, c.getDiscountPrice (priceAfter unitPrice campaigns))] := by
  induction campaigns generalizing unitPrice with
  | nil => rfl
  | cons c' campaigns ih =>
    rw [List.cons_append, inTurn, ih]
    rfl

theorem mem_of_mem_inTurn {unitPrice : ℚ} {campaigns : List PromotedCampaign} {x : PromotedCampaign × ℚ}
    (h : x ∈ inTurn unitPrice campaigns) : x.1 ∈ campaigns := by
  induction campaigns generalizing unitPrice with
  | nil => cases h
  | cons c campaigns ih =>
    rcases List.mem_cons.mp h with rfl | h
    · exact List.mem_cons_self
    · exact List.mem_cons_of_mem c (ih h)

/-- The variables of the loop after some campaigns: the price left, and the first of the lowest prices. -/
theorem foldl_apply (unitPrice : ℚ) (campaigns : List PromotedCampaign) :
    campaigns.foldl DiscountLoop.apply ⟨unitPrice, none, unitPrice⟩ =
      match (inTurn unitPrice campaigns).argmin (·.2) with
      | none => ⟨priceAfter unitPrice campaigns, none, unitPrice⟩
      | some x => ⟨priceAfter unitPrice campaigns, some x.1, x.2⟩ := by
  induction campaigns using List.reverseRecOn with
  | nil => rfl
  | append_singleton campaigns c ih =>
    have hafter : priceAfter unitPrice (campaigns ++ [c]) = c.getDiscountPrice (priceAfter unitPrice campaigns) := by
      unfold priceAfter
      rw [List.foldl_append]
      rfl
    rw [List.foldl_append, ih, inTurn_concat, List.argmin_concat, hafter]
    cases (inTurn unitPrice campaigns).argmin (·.2) with
    | none => rfl
    | some x =>
      show DiscountLoop.apply _ c = _
      unfold DiscountLoop.apply
      by_cases hlt : c.getDiscountPrice (priceAfter unitPrice campaigns) < x.2
      · simp [hlt]
      · simp [hlt]

/-- The first of the lowest entries splits the list. -/
theorem argmin_eq_some_iff {l : List (PromotedCampaign × ℚ)} {x : PromotedCampaign × ℚ} :
    l.argmin (·.2) = some x ↔ ∃ l₁ l₂, l = l₁ ++ x :: l₂ ∧ (∀ y ∈ l₁, x.2 < y.2) ∧ ∀ y ∈ l₂, x.2 ≤ y.2 := by
  constructor
  · intro h
    induction l with
    | nil => cases h
    | cons a l ih =>
      rw [List.argmin_cons] at h
      cases hl : l.argmin (·.2) with
      | none =>
        rw [hl] at h
        obtain rfl := Option.some.inj h
        obtain rfl := List.argmin_eq_none.mp hl
        exact ⟨[], [], rfl, fun _ hy => absurd hy List.not_mem_nil, fun _ hy => absurd hy List.not_mem_nil⟩
      | some c =>
        rw [hl] at h
        dsimp only at h
        split_ifs at h with hlt
        · obtain rfl := Option.some.inj h
          obtain ⟨l₁, l₂, rfl, hbefore, hafter⟩ := ih hl
          exact ⟨a :: l₁, l₂, rfl, List.forall_mem_cons.mpr ⟨hlt, hbefore⟩, hafter⟩
        · obtain rfl := Option.some.inj h
          refine ⟨[], l, rfl, fun _ hy => absurd hy List.not_mem_nil, fun y hy => ?_⟩
          exact (not_lt.mp hlt).trans (List.le_of_mem_argmin hy hl)
  · rintro ⟨l₁, l₂, rfl, hbefore, hafter⟩
    induction l₁ with
    | nil =>
      rw [List.nil_append, List.argmin_cons]
      cases hl : l₂.argmin (·.2) with
      | none => rfl
      | some c => exact if_neg (not_lt.mpr (hafter c (List.argmin_mem hl)))
    | cons a l₁ ih =>
      obtain ⟨hlt, hbefore⟩ := List.forall_mem_cons.mp hbefore
      rw [List.cons_append, List.argmin_cons, ih hbefore]
      exact if_pos hlt

/-! ## When the cheapest campaign is found -/

section Found

variable {rows : List DiscountedResource} {invoice : Date} {unitPrice : ℚ}

theorem getDiscount_eq_ok (hlater : ∀ dr ∈ rows, monthIndex dr.created ≤ monthIndex invoice)
    {result : Option PromotedCampaign × ℚ} : getDiscountForResource rows invoice unitPrice = .ok result ↔
      (∀ dr ∈ rows, dr.EndsInYear) ∧
        result = match (inTurn unitPrice (counted rows invoice)).argmin (·.2) with
          | none => (none, unitPrice)
          | some x => (some x.1, x.2) := by
  have hcounted : counted rows invoice.replaceDayOne = counted rows invoice := rfl
  have hresult : ∀ st : DiscountLoop, st = (counted rows invoice).foldl DiscountLoop.apply ⟨unitPrice, none, unitPrice⟩ →
      (st.campaign, st.price) = match (inTurn unitPrice (counted rows invoice)).argmin (·.2) with
        | none => (none, unitPrice)
        | some x => (some x.1, x.2) := by
    rintro st rfl
    rw [foldl_apply]
    cases (inTurn unitPrice (counted rows invoice)).argmin (·.2) <;> rfl
  unfold getDiscountForResource
  rw [bind_eq_ok]
  constructor
  · rintro ⟨st, hloop, hreturn⟩
    obtain ⟨hends, hst⟩ := (@foldlM_turn invoice.replaceDayOne rows _ st rfl hlater).mp hloop
    exact ⟨hends, (Except.ok.inj hreturn).symm.trans (hresult st hst)⟩
  · rintro ⟨hends, rfl⟩
    exact ⟨_, (@foldlM_turn invoice.replaceDayOne rows _ _ rfl hlater).mpr ⟨hends, rfl⟩,
      congrArg Except.ok (hresult _ rfl)⟩

/-- No campaign counts and none is cheaper than the base price; or, taken one after another, the first of those that
reach the lowest price reaches the lowest price of all alone, and has this price alone as well. -/
def Undisturbed (rows : List DiscountedResource) (invoice : Date) (unitPrice : ℚ) : Prop :=
  (counted rows invoice = [] ∧ lowestAlone unitPrice (running rows invoice) = unitPrice) ∨
    ∃ before c after, inTurn unitPrice (counted rows invoice) =
        before ++ (c, lowestAlone unitPrice (running rows invoice)) :: after ∧
      (∀ y ∈ before, lowestAlone unitPrice (running rows invoice) < y.2) ∧
      (∀ y ∈ after, lowestAlone unitPrice (running rows invoice) ≤ y.2) ∧
      c.getDiscountPrice unitPrice = lowestAlone unitPrice (running rows invoice)

theorem counted_subset {c : PromotedCampaign} (h : c ∈ counted rows invoice) : c ∈ running rows invoice := by
  obtain ⟨dr, hdr, rfl⟩ := List.mem_map.mp h
  obtain ⟨hmem, hcounts⟩ := List.mem_filter.mp hdr
  exact List.mem_map_of_mem (List.mem_filter.mpr ⟨hmem, (Bool.and_eq_true_iff.mp hcounts).2⟩)

theorem inTurn_eq_nil {campaigns : List PromotedCampaign} : inTurn unitPrice campaigns = [] ↔ campaigns = [] := by
  cases campaigns with
  | nil => exact iff_of_true rfl rfl
  | cons c campaigns => exact iff_of_false nofun nofun

theorem inTurn_special {campaigns : List PromotedCampaign} (h : ∀ c ∈ campaigns, c.discountType = .specialPrice)
    (price : ℚ) : inTurn price campaigns = campaigns.map fun c => (c, c.getDiscountPrice unitPrice) := by
  induction campaigns generalizing price with
  | nil => rfl
  | cons c campaigns ih =>
    obtain ⟨hc, hrest⟩ := List.forall_mem_cons.mp h
    have hprice : c.getDiscountPrice price = c.getDiscountPrice unitPrice := by
      unfold Campaign.getDiscountPrice
      rw [hc]
    rw [inTurn, ih hrest, List.map_cons, hprice]

/-- Where no percentage is taken off another campaign's price, one of the counted campaigns has to be the cheapest. -/
theorem undisturbed_of_special {c : PromotedCampaign} {campaigns : List PromotedCampaign}
    (hcounted : counted rows invoice = c :: campaigns) (h : ∀ c ∈ campaigns, c.discountType = .specialPrice) :
    Undisturbed rows invoice unitPrice ↔
      ∃ c ∈ counted rows invoice, c.getDiscountPrice unitPrice = lowestAlone unitPrice (running rows invoice) := by
  have hturn : inTurn unitPrice (counted rows invoice) =
      (counted rows invoice).map fun c => (c, c.getDiscountPrice unitPrice) := by
    rw [hcounted, inTurn, inTurn_special h, List.map_cons]
  unfold Undisturbed
  rw [hturn]
  constructor
  · rintro (⟨hnil, -⟩ | ⟨before, c', after, hsplit, -, -, halone⟩)
    · rw [hcounted] at hnil
      cases hnil
    · have hmem : (c', lowestAlone unitPrice (running rows invoice)) ∈
          (counted rows invoice).map fun c => (c, c.getDiscountPrice unitPrice) := by
        rw [hsplit]
        exact List.mem_append_right _ List.mem_cons_self
      obtain ⟨c'', hc'', heq⟩ := List.mem_map.mp hmem
      obtain ⟨rfl, hprice⟩ := Prod.mk.inj heq
      exact ⟨_, hc'', hprice⟩
  · rintro ⟨c', hc', halone⟩
    right
    cases hmin : ((counted rows invoice).map fun c => (c, c.getDiscountPrice unitPrice)).argmin (·.2) with
    | none =>
      rw [List.argmin_eq_none, List.map_eq_nil_iff, hcounted] at hmin
      cases hmin
    | some x =>
      obtain ⟨first, hfirst, rfl⟩ := List.mem_map.mp (List.argmin_mem hmin)
      have hlowest : first.getDiscountPrice unitPrice = lowestAlone unitPrice (running rows invoice) := by
        refine le_antisymm ?_ (lowestAlone_le (counted_subset hfirst))
        rw [← halone]
        exact List.le_of_mem_argmin
          (List.mem_map_of_mem (f := fun c : PromotedCampaign => (c, c.getDiscountPrice unitPrice)) hc') hmin
      obtain ⟨before, after, hsplit, hbefore, hafter⟩ := argmin_eq_some_iff.mp hmin
      dsimp only at hsplit hbefore hafter
      rw [hlowest] at hsplit hbefore hafter
      exact ⟨before, first, after, hsplit, hbefore, hafter, hlowest⟩

/-- **When the cheapest campaign is found.** -/
theorem findsCheapest_iff (hlater : ∀ dr ∈ rows, monthIndex dr.created ≤ monthIndex invoice) :
    FindsCheapest rows invoice unitPrice ↔ (∀ dr ∈ rows, dr.EndsInYear) ∧ Undisturbed rows invoice unitPrice := by
  unfold FindsCheapest Undisturbed
  constructor
  · rintro ⟨result, hok, hcheapest⟩
    obtain ⟨hends, hresult⟩ := (getDiscount_eq_ok hlater).mp hok
    refine ⟨hends, ?_⟩
    cases hmin : (inTurn unitPrice (counted rows invoice)).argmin (·.2) with
    | none =>
      rw [hmin] at hresult
      subst hresult
      exact Or.inl ⟨inTurn_eq_nil.mp (List.argmin_eq_none.mp hmin), hcheapest.price.symm⟩
    | some x =>
      rw [hmin] at hresult
      subst hresult
      obtain ⟨c, price⟩ := x
      have hprice : price = lowestAlone unitPrice (running rows invoice) := hcheapest.price
      obtain ⟨before, after, hsplit, hbefore, hafter⟩ := argmin_eq_some_iff.mp hmin
      subst hprice
      exact Or.inr ⟨before, c, after, hsplit, hbefore, hafter, (hcheapest.attained c rfl).2⟩
  · rintro ⟨hends, ⟨hnone, hbase⟩ | ⟨before, c, after, hsplit, hbefore, hafter, halone⟩⟩
    · refine ⟨(none, unitPrice), (getDiscount_eq_ok hlater).mpr ⟨hends, ?_⟩, hbase.symm, fun _ => rfl, nofun⟩
      rw [hnone]
      rfl
    · have hmin := argmin_eq_some_iff.mpr ⟨before, after, hsplit, hbefore, hafter⟩
      refine ⟨(some c, lowestAlone unitPrice (running rows invoice)), (getDiscount_eq_ok hlater).mpr ⟨hends, ?_⟩, rfl,
        nofun, fun c' hc' => ?_⟩
      · rw [hmin]
      · obtain rfl := Option.some.inj hc'
        have hmem : (c, lowestAlone unitPrice (running rows invoice)) ∈ inTurn unitPrice (counted rows invoice) := by
          rw [hsplit]
          exact List.mem_append_right _ List.mem_cons_self
        exact ⟨counted_subset (mem_of_mem_inTurn hmem), halone⟩

end Found

/-! ### Campaigns of June -/

theorem june_first : 1 ≤ 1 ∧ 1 ≤ monthDays 2024 6 := by decide

theorem june_fifteenth : 1 ≤ 15 ∧ 15 ≤ monthDays 2024 6 := by decide

theorem june_last : 1 ≤ 30 ∧ 30 ≤ monthDays 2024 6 := by decide

/-- A campaign for a month with a discount in percent. -/
def percentOff (id : ℕ) (discount : ℤ) : PromotedCampaign where
  id := id
  startDate := ⟨2024, 6, 1, june_valid, june_first⟩
  endDate := ⟨2024, 6, 30, june_valid, june_last⟩
  discount := discount
  offerings := [1]

/-- 15 June 2024. -/
def linked : Date := ⟨2024, 6, 15, june_valid, june_fifteenth⟩

theorem linked_later (c : PromotedCampaign) : ∀ dr ∈ [(⟨c, linked⟩ : DiscountedResource)],
    monthIndex dr.created ≤ monthIndex linked := by
  intro dr hdr
  rw [List.mem_singleton.mp hdr]

/-- A single campaign of ten percent gives 90 for 100. -/
theorem findsCheapest_single : FindsCheapest [⟨percentOff 1 10, linked⟩] linked 100 := by
  have hlowest : lowestAlone 100 (running [⟨percentOff 1 10, linked⟩] linked) =
      (percentOff 1 10).getDiscountPrice 100 := by
    decide +kernel
  refine (findsCheapest_iff (linked_later _)).mpr ⟨by decide, Or.inr ⟨[], percentOff 1 10, [], ?_, ?_, ?_, hlowest.symm⟩⟩
  · rw [hlowest]
    rfl
  · exact fun _ hy => absurd hy List.not_mem_nil
  · exact fun _ hy => absurd hy List.not_mem_nil

/-- Two campaigns of fifty percent give 25 for 100, and neither of them gives less than 50. -/
theorem compounded_not_cheapest :
    ¬ FindsCheapest [⟨percentOff 1 50, linked⟩, ⟨percentOff 2 50, linked⟩] linked 100 := by
  rintro ⟨result, hok, hcheapest⟩
  have hprice : (getDiscountForResource [⟨percentOff 1 50, linked⟩, ⟨percentOff 2 50, linked⟩] linked 100).map (·.2) =
      .ok 25 := by decide +kernel
  have hlowest : lowestAlone 100 (running [⟨percentOff 1 50, linked⟩, ⟨percentOff 2 50, linked⟩] linked) = 50 := by
    decide +kernel
  rw [hok] at hprice
  have hfound : result.2 = 25 := Except.ok.inj hprice
  have hresult := hcheapest.price
  rw [hfound, hlowest] at hresult
  exact absurd hresult (by norm_num)

end Waldur.Promotions
