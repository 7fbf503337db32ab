import Mathlib
import Waldur.Policies.Preflight

/-!
# Policies.Agreement — where the check before a creation agrees with the policy

Both evaluations sum the same items with the same tax over the same months.  They differ in the credit,
which the check takes off in full although a part of it is written among the items already, in the join
over the groups of an offering policy, and in the policies that the check skips.
-/

namespace Waldur.Policies

open Invoices Relational

/-! ### The two sums -/

section Sums

/-- The rounding in the database is that of `quantize_price`. -/
theorem sqlQuantizedPrice_eq (raw : ℚ) : sqlQuantizedPrice raw = quantizePrice raw := by
  unfold sqlQuantizedPrice quantizePrice Decimal.quantizeUp
  rcases lt_trichotomy raw 0 with hneg | rfl | hpos
  · rw [if_pos hneg, if_neg (not_le.mpr hneg), abs_of_neg hneg]
    norm_num
    ring
  · simp
  · rw [if_neg (not_lt.mpr hpos.le), if_neg hpos.ne', if_pos hpos.le, abs_of_pos hpos]
    norm_num

/-- The sum by tax rates is the sum of the totals. -/
theorem scopedCost_eq (items : List (Invoice × InvoiceItem)) : scopedCost items = (items.map itemTotal).sum := by
  unfold scopedCost
  rw [sum_groups (fun row : Invoice × InvoiceItem => row.1.taxPercent) _ (fun t => 1 + t / 100) items]
  refine congrArg List.sum (List.map_congr_left fun row _ => ?_)
  rw [sqlQuantizedPrice_eq, itemTotal, InvoiceItem.price]
  ring

/-- What the query of `_scoped_cost` reads of an item: any price, any quantity, any tax percent. -/
structure PricedRow where
  taxPercent : ℚ
  unitPrice : ℚ
  quantity : ℚ

/-- `InvoiceItem.total` of the columns. -/
def PricedRow.total (row : PricedRow) : ℚ :=
  quantizePrice (row.unitPrice * row.quantity) + quantizePrice (row.unitPrice * row.quantity) * row.taxPercent / 100

/-- `row["subtotal"] or 0` of a group. -/
def groupSubtotal (rows : List PricedRow) (taxPercent : ℚ) : ℚ :=
  (aggregateSum ((rows.filter fun row => row.taxPercent == taxPercent).map
    fun row => sqlQuantizedPrice (row.unitPrice * row.quantity))).getD 0

/-- The loop of `_scoped_cost` over the groups. -/
def groupedCost (rows : List PricedRow) : ℚ :=
  ((rows.map (·.taxPercent)).dedup.map fun taxPercent =>
    groupSubtotal rows taxPercent * (1 + taxPercent / 100)).sum

def pricedRow (row : Invoice × InvoiceItem) : PricedRow := ⟨row.1.taxPercent, row.2.unitPrice, row.2.quantity⟩

theorem aggregateSum_getD (values : List ℚ) : (aggregateSum values).getD 0 = values.sum := by
  unfold aggregateSum
  by_cases h : values = []
  · rw [if_pos h, h]
    rfl
  · rw [if_neg h]
    rfl

theorem groupedCost_eq (rows : List PricedRow) : groupedCost rows = (rows.map PricedRow.total).sum := by
  unfold groupedCost groupSubtotal
  simp only [aggregateSum_getD]
  rw [sum_groups PricedRow.taxPercent _ (fun t => 1 + t / 100) rows]
  refine congrArg List.sum (List.map_congr_left fun row _ => ?_)
  rw [sqlQuantizedPrice_eq, PricedRow.total]
  ring

/-- The query over the items of invoices is the query over their columns. -/
theorem scopedCost_eq_groupedCost (items : List (Invoice × InvoiceItem)) :
    scopedCost items = groupedCost (items.map pricedRow) := by
  rw [groupedCost_eq, scopedCost_eq, List.map_map]
  rfl

/-- **The sum in the database is the sum in Python**, for any rows and for the items of the invoices. -/
theorem scopedCost_reproduces (rows : List PricedRow) (items : List (Invoice × InvoiceItem)) :
    groupedCost rows = (rows.map PricedRow.total).sum ∧ scopedCost items = groupedCost (items.map pricedRow) ∧
      scopedCost items = (items.map itemTotal).sum :=
  ⟨groupedCost_eq rows, scopedCost_eq_groupedCost items, scopedCost_eq items⟩

theorem periodMonths_eq (p : EstimatedCostPolicy) : periodMonths p = p.period.months := by
  unfold periodMonths
  cases p.period <;> rfl

/-- The items that count for a policy: eligible, and in its months. -/
def World.counted (w : World) (p : EstimatedCostPolicy) (row : Invoice × InvoiceItem) : Bool :=
  w.activeCustomer row.1.customer && row.1.state != .canceled && monthsFilter w.today p.period.months row

theorem existingTotal_eq (w : World) (items : List (Invoice × InvoiceItem)) (p : EstimatedCostPolicy) :
    existingTotal w items p = ((items.filter (w.counted p)).map itemTotal).sum := by
  unfold existingTotal
  rw [periodMonths_eq, List.filter_filter, List.filter_filter]
  refine congrArg (fun l => (List.map itemTotal l).sum) (List.filter_congr fun row _ => ?_)
  unfold World.counted
  cases w.activeCustomer row.1.customer <;> cases (row.1.state != .canceled) <;>
    cases monthsFilter w.today p.period.months row <;> rfl

/-- What the policy evaluates is what the check sums, less the deduction. -/
theorem evaluatedCost_eq (w : World) (items : List (Invoice × InvoiceItem)) (p : EstimatedCostPolicy)
    (compensation : ℚ) : p.evaluatedCost w items compensation = existingTotal w items p - compensation := by
  rw [EstimatedCostPolicy.evaluatedCost, scopedCost_eq, existingTotal_eq, World.eligibleItems, List.filter_filter]
  refine congrArg (fun l => (List.map itemTotal l).sum - compensation) (List.filter_congr fun row _ => ?_)
  unfold World.counted
  cases w.activeCustomer row.1.customer <;> cases (row.1.state != .canceled) <;>
    cases monthsFilter w.today p.period.months row <;> rfl

end Sums

/-! ### The credit that is taken off twice -/

section Credit

variable (w : World) (items : List (Invoice × InvoiceItem)) (projected : ℚ)

/-- The part of the projected compensation that the policy does not deduct any more. -/
def World.deductedTwice : ℚ := projected - w.pendingCompensation items projected

/-- The compensation written for the current month, as the items show it. -/
def World.appliedCompensation : ℚ :=
  -((items.filter fun row =>
    row.1.year == w.today.year && row.1.month == w.today.month && row.2.credit.isSome).map itemTotal).sum

/-- It is what is written already, at most the projection. -/
theorem deductedTwice_eq (h : 0 < projected) :
    w.deductedTwice items projected = min projected (w.appliedCompensation items) := by
  have hmin : ∀ applied : ℚ, projected - max 0 (projected - applied) = min projected applied := by
    intro applied
    rcases le_total projected applied with hle | hle
    · rw [max_eq_left (sub_nonpos.mpr hle), min_eq_left hle, sub_zero]
    · rw [max_eq_right (sub_nonneg.mpr hle), min_eq_right hle, sub_sub_cancel]
  unfold World.deductedTwice World.pendingCompensation World.appliedCompensation
  rw [if_neg (not_le.mpr h)]
  simp only [scopedCost_eq]
  exact hmin _

end Credit

/-! ### The copies of a join -/

section Join

variable (w : World) (p : OfferingEstimatedCostPolicy)

/-- What the check sums beyond the policy: the items of a customer in several groups of the policy, once for
each further group. -/
def OfferingEstimatedCostPolicy.extraCopies : ℚ :=
  if p.applyToAll then 0
  else ((((p.items w).filter (w.counted p.toEstimatedCostPolicy)).map fun row =>
    (((w.joinedGroups p.organizationGroups row.1.customer).length : ℚ) - 1) * itemTotal row)).sum

theorem inGroups_iff (w : World) (groups : List ℕ) (customer : ℕ) :
    w.inGroups groups customer = true ↔ w.joinedGroups groups customer ≠ [] := by
  unfold World.inGroups World.joinedGroups
  cases w.customers.get? customer with
  | none => simp
  | some c =>
    rw [Option.any_some, Option.map_some, Option.getD_some, Ne, List.filter_eq_nil_iff, List.any_eq_true]
    push Not
    exact Iff.rfl

/-- The join sums what the policy sums and the copies. -/
theorem existingTotal_join (h : p.applyToAll = false) :
    existingTotal w ((p.offeringItems w).flatMap fun row =>
      (w.joinedGroups p.organizationGroups row.1.customer).map fun _ => row) p.toEstimatedCostPolicy =
      existingTotal w (p.items w) p.toEstimatedCostPolicy + p.extraCopies w := by
  have hitems : (p.items w).filter (w.counted p.toEstimatedCostPolicy) =
      ((p.offeringItems w).filter (w.counted p.toEstimatedCostPolicy)).filter
        fun row => w.inGroups p.organizationGroups row.1.customer := by
    unfold OfferingEstimatedCostPolicy.items
    rw [if_neg (by rw [h]; exact Bool.false_ne_true), List.filter_filter, List.filter_filter]
    refine List.filter_congr fun row _ => ?_
    unfold World.counted
    cases w.activeCustomer row.1.customer <;> cases w.inGroups p.organizationGroups row.1.customer <;> simp
  rw [existingTotal_eq, existingTotal_eq, sum_join, OfferingEstimatedCostPolicy.extraCopies,
    if_neg (by rw [h]; exact Bool.false_ne_true), hitems, ← List.sum_map_add,
    Table.sum_filter_eq _ (fun row : Invoice × InvoiceItem => w.inGroups p.organizationGroups row.1.customer)]
  refine congrArg List.sum (List.map_congr_left fun row _ => ?_)
  by_cases hin : w.inGroups p.organizationGroups row.1.customer = true
  · rw [if_pos hin]
    ring
  · have hnone : w.joinedGroups p.organizationGroups row.1.customer = [] := by
      by_contra hne
      exact hin ((inGroups_iff w _ _).mpr hne)
    rw [if_neg hin, hnone]
    simp

end Join

/-! ### One policy -/

section Check

/-- The policy is one that the check of this resource considers. -/
def Governs (resource : NewResource) : CostPolicy → Prop
  | .project p => p.scope = resource.project ∧ .blockCreationOfNewResources ∈ p.actions ∧ p.resource = none
  | .customer p => p.scope = resource.project.customer ∧ .blockCreationOfNewResources ∈ p.actions
  | .offering p => p.scope = resource.offering ∧ .blockCreationOfNewResources ∈ p.actions

/-- A credit larger than the limit holds the policy back. -/
def CostPolicy.heldBack (w : World) : CostPolicy → Bool
  | .project p => p.useCredit &&
      match w.db.projectCredit? p.scope with
      | some credit => decide ((p.limitCost : ℚ) < credit.value)
      | none => (w.db.customerCredit? p.scope.customer).any fun credit => decide ((p.limitCost : ℚ) < credit.value)
  | .customer p => (w.db.customerCredit? p.scope).any fun credit => decide ((p.limitCost : ℚ) < credit.value)
  | .offering _ => false

/-- Taking `shift` off the cost carries it over the limit, in one direction or the other. -/
def Crosses (limit cost shift : ℚ) : Prop := (limit < cost ∧ cost - shift ≤ limit) ∨ (cost ≤ limit ∧ limit < cost - shift)

instance (limit cost shift : ℚ) : Decidable (Crosses limit cost shift) :=
  inferInstanceAs (Decidable ((limit < cost ∧ cost - shift ≤ limit) ∨ (cost ≤ limit ∧ limit < cost - shift)))

theorem not_crosses_iff {limit cost shift : ℚ} :
    ¬ Crosses limit cost shift ↔ (limit < cost - shift ↔ limit < cost) := by
  unfold Crosses
  constructor
  · intro h
    push Not at h
    exact ⟨fun hlt => not_le.mp fun hle => absurd hlt (not_lt.mpr (h.2 hle)), h.1⟩
  · rintro h (⟨hlt, hle⟩ | ⟨hle, hlt⟩)
    · exact absurd (h.mpr hlt) (not_lt.mpr hle)
    · exact absurd (h.mp hlt) (not_lt.mpr hle)

variable {w : World} {resource : NewResource} {cost : ℚ}

/-- A loop of checks raises where one of them does. -/
theorem forM_error_iff {α : Type} {f : α → Except PolicyException Unit} : ∀ {l : List α},
    (∃ e, l.forM f = .error e) ↔ ∃ a ∈ l, ∃ e, f a = .error e
  | [] => ⟨fun ⟨_, h⟩ => (nomatch h), fun ⟨_, h, _⟩ => absurd h List.not_mem_nil⟩
  | a :: l => by
    have hcons : (a :: l).forM f = (f a >>= fun _ => l.forM f) := rfl
    rw [hcons]
    cases hfa : f a with
    | error e => exact iff_of_true ⟨e, rfl⟩ ⟨a, List.mem_cons_self, e, hfa⟩
    | ok u =>
      refine forM_error_iff.trans ⟨fun ⟨b, hb, h⟩ => ⟨b, List.mem_cons_of_mem a hb, h⟩, ?_⟩
      rintro ⟨b, hb, e, he⟩
      rcases List.mem_cons.mp hb with rfl | hb
      · rw [hfa] at he
        cases he
      · exact ⟨b, hb, e, he⟩

/-- The body of the loop over the policies of its kind raises. -/
def BodyRaises (w : World) (resource : NewResource) (cost : ℚ) : CostPolicy → Prop
  | .project p => ∃ e, checkProjectPolicy w resource.project cost p = .error e
  | .customer p => ∃ e, checkCustomerPolicy w resource.project.customer cost p = .error e
  | .offering p => ∃ e, checkOfferingPolicy w resource cost p = .error e

/-- A loop over the policies of one kind that govern the resource raises where its body does for one of them. -/
theorem forM_governing_error {π : Type} {policies : List CostPolicy} {select : CostPolicy → Option π}
    {kind : π → CostPolicy} {body : π → Except PolicyException Unit}
    (hselect : ∀ policy p, select policy = some p ↔ policy = kind p ∧ Governs resource policy) :
    (∃ e, (policies.filterMap select).forM body = .error e) ↔
      ∃ p, kind p ∈ policies ∧ Governs resource (kind p) ∧ ∃ e, body p = .error e := by
  rw [forM_error_iff]
  constructor
  · rintro ⟨p, hp, h⟩
    obtain ⟨policy, hmem, hselected⟩ := List.mem_filterMap.mp hp
    obtain ⟨rfl, hgoverns⟩ := (hselect policy p).mp hselected
    exact ⟨p, hmem, hgoverns, h⟩
  · rintro ⟨p, hmem, hgoverns, h⟩
    exact ⟨p, List.mem_filterMap.mpr ⟨_, hmem, (hselect _ p).mpr ⟨rfl, hgoverns⟩⟩, h⟩

theorem checkProjectPolicies_error : (∃ e, checkProjectPolicies w resource cost = .error e) ↔
    ∃ p, .project p ∈ w.policies ∧ Governs resource (.project p) ∧ BodyRaises w resource cost (.project p) := by
  unfold checkProjectPolicies
  refine forM_governing_error fun policy p => ?_
  cases policy with
  | project p' =>
    show (if _ then some p' else none) = some p ↔ CostPolicy.project p' = .project p ∧ Governs resource (.project p')
    rw [Option.ite_none_right_eq_some, Option.some.injEq, CostPolicy.project.injEq, and_comm]
    rfl
  | _ => exact iff_of_false (fun h => by cases h) (fun h => by cases h.1)

theorem checkCustomerPolicies_error : (∃ e, checkCustomerPolicies w resource cost = .error e) ↔
    ∃ p, .customer p ∈ w.policies ∧ Governs resource (.customer p) ∧ BodyRaises w resource cost (.customer p) := by
  unfold checkCustomerPolicies
  refine forM_governing_error fun policy p => ?_
  cases policy with
  | customer p' =>
    show (if _ then some p' else none) = some p ↔ CostPolicy.customer p' = .customer p ∧ Governs resource (.customer p')
    rw [Option.ite_none_right_eq_some, Option.some.injEq, CostPolicy.customer.injEq, and_comm]
    rfl
  | _ => exact iff_of_false (fun h => by cases h) (fun h => by cases h.1)

theorem checkOfferingPolicies_error : (∃ e, checkOfferingPolicies w resource cost = .error e) ↔
    ∃ p, .offering p ∈ w.policies ∧ Governs resource (.offering p) ∧ BodyRaises w resource cost (.offering p) := by
  unfold checkOfferingPolicies
  refine forM_governing_error fun policy p => ?_
  cases policy with
  | offering p' =>
    show (if _ then some p' else none) = some p ↔ CostPolicy.offering p' = .offering p ∧ Governs resource (.offering p')
    rw [Option.ite_none_right_eq_some, Option.some.injEq, CostPolicy.offering.injEq, and_comm]
    rfl
  | _ => exact iff_of_false (fun h => by cases h) (fun h => by cases h.1)

/-- The check raises where the body of one of the loops does, for a policy that governs the resource. -/
theorem validateResourceCreation_error : (∃ e, validateResourceCreation w resource cost = .error e) ↔
    ∃ policy ∈ w.policies, Governs resource policy ∧ BodyRaises w resource cost policy := by
  have hsplit : (∃ e, validateResourceCreation w resource cost = .error e) ↔
      (∃ e, checkProjectPolicies w resource cost = .error e) ∨
        (∃ e, checkCustomerPolicies w resource cost = .error e) ∨
          ∃ e, checkOfferingPolicies w resource cost = .error e := by
    unfold validateResourceCreation
    cases checkProjectPolicies w resource cost with
    | error e => exact iff_of_true ⟨e, rfl⟩ (.inl ⟨e, rfl⟩)
    | ok _ =>
      cases checkCustomerPolicies w resource cost with
      | error e => exact iff_of_true ⟨e, rfl⟩ (.inr (.inl ⟨e, rfl⟩))
      | ok _ =>
        refine ⟨fun h => .inr (.inr h), ?_⟩
        rintro (⟨_, h⟩ | ⟨_, h⟩ | h)
        · cases h
        · cases h
        · exact h
  rw [hsplit, checkProjectPolicies_error, checkCustomerPolicies_error, checkOfferingPolicies_error]
  constructor
  · rintro (⟨p, hp, h⟩ | ⟨p, hp, h⟩ | ⟨p, hp, h⟩)
    · exact ⟨_, hp, h⟩
    · exact ⟨_, hp, h⟩
    · exact ⟨_, hp, h⟩
  · rintro ⟨policy, hp, h⟩
    cases policy with
    | project p => exact .inl ⟨p, hp, h⟩
    | customer p => exact .inr (.inl ⟨p, hp, h⟩)
    | offering p => exact .inr (.inr ⟨p, hp, h⟩)

theorem raisesBecauseOf_iff {policy : CostPolicy} :
    RaisesBecauseOf w resource cost policy ↔ Governs resource policy ∧ BodyRaises w resource cost policy := by
  have hbody : BodyRaises { w with policies := [policy] } resource cost policy ↔ BodyRaises w resource cost policy := by
    cases policy <;> exact Iff.rfl
  refine validateResourceCreation_error.trans ?_
  simp only [List.mem_singleton, exists_eq_left, hbody]

/-- The check raises where it raises because of one of the policies. -/
theorem validateResourceCreation_error_iff : (∃ e, validateResourceCreation w resource cost = .error e) ↔
    ∃ policy ∈ w.policies, RaisesBecauseOf w resource cost policy := by
  simp only [validateResourceCreation_error, raisesBecauseOf_iff]

/-- A check raises above the limit, unless a credit holds the policy back. -/
theorem error_iff {limit x : ℚ} {covered : Bool} {e : PolicyException} :
    (∃ e', (if x ≤ limit then .ok () else if covered then .ok () else .error e : Except PolicyException Unit) = .error e') ↔
      limit < x ∧ covered = false := by
  split_ifs with hle hcovered
  · exact iff_of_false (fun ⟨_, h⟩ => nomatch h) (fun h => absurd h.1 (not_lt.mpr hle))
  · exact iff_of_false (fun ⟨_, h⟩ => nomatch h) (fun h => by rw [hcovered] at h; cases h.2)
  · exact iff_of_true ⟨e, rfl⟩ ⟨not_le.mp hle, Bool.eq_false_iff.mpr hcovered⟩

/-- The project check takes the whole projected compensation off. -/
theorem checkProjectPolicy_error {p : ProjectEstimatedCostPolicy} (hresource : p.resource = none) :
    (∃ e, checkProjectPolicy w p.scope cost p = .error e) ↔
      ((p.limitCost : ℚ) < existingTotal w (p.items w) p.toEstimatedCostPolicy + cost -
        (if p.useCredit then p.projected w else 0)) ∧ (CostPolicy.project p).heldBack w = false := by
  have hitems : p.items w = w.invoiceItems.filter fun row => row.2.project == some p.scope := by
    simp only [ProjectEstimatedCostPolicy.items, hresource]
  have hprojected : p.projected w = getProjectCompensation (w.monthlyCompensation p.scope.customer) p.scope := by
    simp only [ProjectEstimatedCostPolicy.projected, hresource]
  rw [hitems, hprojected]
  exact error_iff

/-- So does the check of an organization. -/
theorem checkCustomerPolicy_error {p : CustomerEstimatedCostPolicy} :
    (∃ e, checkCustomerPolicy w p.scope cost p = .error e) ↔
      ((p.limitCost : ℚ) < existingTotal w (p.items w) p.toEstimatedCostPolicy + cost - p.projected w) ∧
        (CostPolicy.customer p).heldBack w = false :=
  error_iff

/-- The check of an offering skips a policy whose groups the customer is not in. -/
theorem checkOfferingPolicy_error {p : OfferingEstimatedCostPolicy} (hscope : p.scope = resource.offering) :
    (∃ e, checkOfferingPolicy w resource cost p = .error e) ↔
      (p.applyToAll = true ∨ w.inGroups p.organizationGroups resource.project.customer = true) ∧
        ((p.limitCost : ℚ) < existingTotal w (p.items w) p.toEstimatedCostPolicy + p.extraCopies w + cost) := by
  unfold checkOfferingPolicy
  rw [← hscope]
  have herror : ∀ (x : ℚ) (e : PolicyException),
      (∃ e', (if (p.limitCost : ℚ) < x then .error e else .ok () : Except PolicyException Unit) = .error e') ↔
        (p.limitCost : ℚ) < x := by
    intro x e
    split_ifs with hlt
    · exact iff_of_true ⟨e, rfl⟩ hlt
    · exact iff_of_false (fun ⟨_, h⟩ => nomatch h) hlt
  cases happly : p.applyToAll with
  | true =>
    have hitems : p.items w = (p.offeringItems w).filter fun row => w.activeCustomer row.1.customer := by
      unfold OfferingEstimatedCostPolicy.items
      rw [if_pos happly]
    have hextra : p.extraCopies w = 0 := by
      unfold OfferingEstimatedCostPolicy.extraCopies
      rw [if_pos happly]
    simp only [Bool.not_true, Bool.false_and, Bool.false_eq_true, if_false, if_true, true_or, true_and]
    rw [herror, hitems, hextra, add_zero]
    exact Iff.rfl
  | false =>
    cases hin : w.inGroups p.organizationGroups resource.project.customer with
    | false =>
      simp only [Bool.not_false, Bool.and_self, if_true, Bool.false_eq_true, or_self, false_and, iff_false]
      rintro ⟨e, he⟩
      cases he
    | true =>
      simp only [Bool.not_false, Bool.not_true, Bool.and_false, Bool.false_eq_true, if_false, or_true, true_and]
      rw [herror, ← existingTotal_join w p happly]
      exact Iff.rfl

end Check

/-! ### Agreement -/

section Agreement

variable {w : World} {resource : NewResource} {cost : ℚ}

/-- The policy with the cost of the new resource added. -/
theorem triggeredWith_project {p : ProjectEstimatedCostPolicy} :
    (CostPolicy.project p).triggeredWith w cost = true ↔
      (p.limitCost : ℚ) < p.currentCost w + cost ∧ (CostPolicy.project p).heldBack w = false := by
  simp only [CostPolicy.triggeredWith, ProjectEstimatedCostPolicy.triggeredAt, CostPolicy.heldBack,
    EstimatedCostPolicy.exceeds]
  by_cases hlt : (p.limitCost : ℚ) < p.currentCost w + cost
  · cases p.useCredit <;> cases w.db.projectCredit? p.scope <;> cases w.db.customerCredit? p.scope.customer <;>
      simp [hlt]
  · simp [hlt]

theorem triggeredWith_customer {p : CustomerEstimatedCostPolicy} :
    (CostPolicy.customer p).triggeredWith w cost = true ↔
      (p.limitCost : ℚ) < p.currentCost w + cost ∧ (CostPolicy.customer p).heldBack w = false := by
  simp only [CostPolicy.triggeredWith, CustomerEstimatedCostPolicy.triggeredAt, CostPolicy.heldBack,
    EstimatedCostPolicy.exceeds]
  by_cases hlt : (p.limitCost : ℚ) < p.currentCost w + cost
  · cases w.db.customerCredit? p.scope <;> simp [hlt]
  · simp [hlt]

/-- The condition under which the check agrees with the policy: no credit decides anyway, and the compensation
that is taken off twice does not carry the cost over the limit; for an offering policy the copies of the join
do not, and a policy that is skipped is not triggered. -/
def AgreesWhen (w : World) (resource : NewResource) (cost : ℚ) : CostPolicy → Prop
  | .project p => (CostPolicy.project p).heldBack w = false → p.useCredit = true →
      ¬ Crosses p.limitCost (p.currentCost w + cost) (w.deductedTwice (p.items w) (p.projected w))
  | .customer p => (CostPolicy.customer p).heldBack w = false →
      ¬ Crosses p.limitCost (p.currentCost w + cost) (w.deductedTwice (p.items w) (p.projected w))
  | .offering p =>
      if p.applyToAll = true ∨ w.inGroups p.organizationGroups resource.project.customer = true then
        ¬ Crosses p.limitCost (p.currentCost w + cost) (-p.extraCopies w)
      else p.currentCost w + cost ≤ p.limitCost

theorem agrees_project {p : ProjectEstimatedCostPolicy} (h : Governs resource (.project p)) :
    (RaisesBecauseOf w resource cost (.project p) ↔ (CostPolicy.project p).triggeredWith w cost = true) ↔
      AgreesWhen w resource cost (.project p) := by
  rw [raisesBecauseOf_iff, and_iff_right h, BodyRaises, ← h.1, checkProjectPolicy_error h.2.2, triggeredWith_project]
  simp only [AgreesWhen]
  have hcost : existingTotal w (p.items w) p.toEstimatedCostPolicy + cost - (if p.useCredit then p.projected w else 0) =
      p.currentCost w + cost - if p.useCredit then w.deductedTwice (p.items w) (p.projected w) else 0 := by
    rw [ProjectEstimatedCostPolicy.currentCost, evaluatedCost_eq, ProjectEstimatedCostPolicy.deduction,
      World.deductedTwice]
    split_ifs <;> ring
  rw [hcost]
  cases (CostPolicy.project p).heldBack w with
  | true => simp
  | false =>
    simp only [and_true, forall_const]
    by_cases hcredit : p.useCredit = true
    · rw [if_pos hcredit, not_crosses_iff]
      exact ⟨fun h _ => h, fun h => h hcredit⟩
    · rw [if_neg hcredit, sub_zero]
      exact iff_of_true Iff.rfl fun h => absurd h hcredit

theorem agrees_customer {p : CustomerEstimatedCostPolicy} (h : Governs resource (.customer p)) :
    (RaisesBecauseOf w resource cost (.customer p) ↔ (CostPolicy.customer p).triggeredWith w cost = true) ↔
      AgreesWhen w resource cost (.customer p) := by
  rw [raisesBecauseOf_iff, and_iff_right h, BodyRaises, ← h.1, checkCustomerPolicy_error, triggeredWith_customer]
  simp only [AgreesWhen]
  have hcost : existingTotal w (p.items w) p.toEstimatedCostPolicy + cost - p.projected w =
      p.currentCost w + cost - w.deductedTwice (p.items w) (p.projected w) := by
    rw [CustomerEstimatedCostPolicy.currentCost, evaluatedCost_eq, CustomerEstimatedCostPolicy.deduction,
      World.deductedTwice]
    ring
  rw [hcost]
  cases (CostPolicy.customer p).heldBack w with
  | true => simp
  | false =>
    simp only [and_true, forall_const]
    exact not_crosses_iff.symm

theorem agrees_offering {p : OfferingEstimatedCostPolicy} (h : Governs resource (.offering p)) :
    (RaisesBecauseOf w resource cost (.offering p) ↔ (CostPolicy.offering p).triggeredWith w cost = true) ↔
      AgreesWhen w resource cost (.offering p) := by
  have htriggered : (CostPolicy.offering p).triggeredWith w cost = true ↔
      (p.limitCost : ℚ) < p.currentCost w + cost := decide_eq_true_iff
  rw [raisesBecauseOf_iff, and_iff_right h, BodyRaises, checkOfferingPolicy_error h.1, htriggered]
  simp only [AgreesWhen]
  have hcost : existingTotal w (p.items w) p.toEstimatedCostPolicy + p.extraCopies w + cost =
      p.currentCost w + cost - -p.extraCopies w := by
    rw [OfferingEstimatedCostPolicy.currentCost, evaluatedCost_eq]
    ring
  rw [hcost]
  split_ifs with happlies
  · rw [not_crosses_iff]
    simp only [happlies, true_and]
  · simp only [happlies, false_and, false_iff, not_lt]

/-- **The check before a creation raises because of a cost policy exactly when the policy is triggered with the
cost added, if and only if `AgreesWhen` holds.** -/
theorem preflight_agrees_iff (w : World) (resource : NewResource) (cost : ℚ) (policy : CostPolicy)
    (h : Governs resource policy) :
    (RaisesBecauseOf w resource cost policy ↔ policy.triggeredWith w cost = true) ↔
      AgreesWhen w resource cost policy := by
  cases policy with
  | project p => exact agrees_project h
  | customer p => exact agrees_customer h
  | offering p => exact agrees_offering h

end Agreement

section Example

/-- A project with one item of 100 in the current month and a credit of 20 left, after `written` has been
compensated. -/
def compensatedProject (written : ℚ) : World where
  db := { Db.empty with
    customerCredits := ⟨[{ customer := 1, value := 20 }], by decide⟩
    invoices := ⟨[{
      id := 1
      customer := 1
      year := 2024
      month := 5
      taxPercent := 0
      items := [
        { uuid := 1, unitPrice := 100, quantity := 1, unit := .quantity, resource := some ⟨1, 1, ⟨1, 1⟩⟩,
          project := some ⟨1, 1⟩ },
        { uuid := 2, unitPrice := -written, quantity := 1, unit := .quantity, resource := some ⟨1, 1, ⟨1, 1⟩⟩,
          project := some ⟨1, 1⟩, credit := some 1, details := { isCompensation := true } }]
      month_valid := Calendar.may_valid
      tax_nonneg := Invoice.untaxed
      attributed := by simp [InvoiceItem.WellAttributed] }], List.nodup_singleton _⟩ }
  customers := ⟨[{ id := 1 }], by decide⟩
  policies := []
  today := ⟨2024, 5, 10, Calendar.may_valid, by decide⟩

def blockingPolicy : ProjectEstimatedCostPolicy where
  pk := 1
  limitCost := 40
  actions := [.blockCreationOfNewResources]
  scope := ⟨1, 1⟩

def newResource : NewResource := ⟨⟨1, 1⟩, 1⟩

/-- Before anything is written for the month the check agrees with the policy. -/
theorem agrees_before_compensation :
    RaisesBecauseOf (compensatedProject 0) newResource 5 (.project blockingPolicy) ↔
      (CostPolicy.project blockingPolicy).triggeredWith (compensatedProject 0) 5 = true :=
  (preflight_agrees_iff (compensatedProject 0) newResource 5 (.project blockingPolicy)
    ⟨rfl, by decide, rfl⟩).mpr fun _ _ => by decide +kernel

/-- With 50 written the policy stands at 50 and is triggered with 5 more; the check takes 20 off again and lets
the resource pass. -/
theorem compensation_deducted_twice :
    ¬ ∀ (w : World) (resource : NewResource) (cost : ℚ) (policy : CostPolicy), 0 ≤ cost → Governs resource policy →
      (RaisesBecauseOf w resource cost policy ↔ policy.triggeredWith w cost = true) := by
  intro h
  obtain ⟨-, hraises⟩ := h (compensatedProject 50) newResource 5 (.project blockingPolicy) (by decide)
    ⟨rfl, by decide, rfl⟩
  obtain ⟨-, e, he⟩ := raisesBecauseOf_iff.mp (hraises (by decide +kernel))
  have hpasses : (checkProjectPolicy (compensatedProject 50) ⟨1, 1⟩ 5 blockingPolicy).toBool = true := by
    decide +kernel
  rw [show checkProjectPolicy (compensatedProject 50) ⟨1, 1⟩ 5 blockingPolicy = .error e from he] at hpasses
  cases hpasses

end Example

end Waldur.Policies
