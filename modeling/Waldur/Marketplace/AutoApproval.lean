import Mathlib
import Waldur.Lib.Runs
import Waldur.Lib.Table
import Waldur.Marketplace.BillingMode

/-!
# Marketplace.AutoApproval — orders that a project rule approves

`order_approval.py`: the evaluation of an order against the rule of its project, and the transaction that locks
the order, evaluates it, locks the rule and reads it again, and approves.  The limit is compared once, before the
rule is locked, and recorded afterwards.  Transactions of any number of workers and edits of rules and of
permissions interleave; an edit waits for the lock of its rule and is visible at once.
-/

namespace Waldur.Marketplace.AutoApproval

open Relational Runs

/-! ## Orders and rules -/

/-- `OrderTypes`. -/
inductive OrderType
  | create
  | update
  | terminate
  | restore
deriving DecidableEq, Repr

/-- The offering types that decide about the review by the provider. -/
inductive OfferingType
  | siteAgent
  | basic
  | remote
  | script
  | other
deriving DecidableEq, Repr

/-- What an approval reads of an offering; the provider's approvers are the users with owner access, and the
service managers who are users of the offering. -/
structure Offering where
  type : OfferingType := .other
  components : List OfferingComponent := []
  requirePurchaseOrderUpload : Bool := false
  disableAutoapprove : Bool := false
  autoApproveRemoteOrders : Bool := false
  autoApproveMarketplaceScript : Bool := true
  providerApprovers : List ℕ := []
deriving DecidableEq

/-- What an estimate reads of a plan and its offering. -/
structure EstimatedPlan where
  unitPrice : ℚ
  billingMode : BillingMode := .inherit
  componentPrices : List (String × ℚ) := []
  offeringComponents : List OfferingComponent := []
  componentFactors : List (String × ℚ) := []
deriving DecidableEq

structure Order where
  id : ℕ
  type : OrderType := .create
  state : OrderState := .pendingConsumer
  project : ℕ
  projectStartDate : Option ℤ := none
  startDate : Option ℤ := none
  offering : Offering := {}
  plan : Option EstimatedPlan
  resourcePlanMode : Option BillingMode := none
  attachment : Bool := false
  limits : List (String × ℚ) := []
  createdBy : ℕ
  consumerReviewedBy : Option ℕ := none
  autoApprovedByRule : Option ℕ := none
  autoApprovedCostLimitSnapshot : Option ℚ := none
deriving DecidableEq

/-- `ProjectOrderAutoApproval`, with the customer of its project. -/
structure Rule where
  id : ℕ
  project : ℕ
  customer : ℕ
  monthlyCostLimit : ℚ
  enabled : Bool := true
  createdBy : Option ℕ
deriving DecidableEq

abbrev Orders := Table ℕ Order Order.id

abbrev Rules := Table ℕ Rule Rule.id

/-! ## The evaluation -/

/-- `EffectiveComponent.is_limit_like`. -/
def isLimitLike (effective : EffectiveComponent) : Bool :=
  effective.billingType == .limit || effective.billingType == .oneTime && effective.isPrepaid

/-- `Plan.get_estimate`, without dates; `none` is a division by zero. -/
def EstimatedPlan.getEstimate (plan : EstimatedPlan) (limits : List (String × ℚ)) : Option ℚ :=
  if limits.isEmpty then some plan.unitPrice
  else
    let limitComponents := plan.offeringComponents.filter fun c =>
      isLimitLike (resolveComponent c (some plan.billingMode))
    limitComponents.foldlM (fun cost component =>
      let price := (plan.componentPrices.lookup component.type).getD 0
      let limit := (limits.lookup component.type).getD 0
      let factor := (plan.componentFactors.lookup component.type).getD 1
      if factor = 0 then none else some (cost + price * limit / factor)) plan.unitPrice

/-- `estimated_monthly_cost`. -/
def estimatedMonthlyCost (order : Order) : Option ℚ :=
  if order.type = .terminate then some 0
  else
    match order.plan with
    | none => some 0
    | some plan => plan.getEstimate order.limits

/-- `_has_usage_component`. -/
def hasUsageComponent (order : Order) : Bool :=
  let mode := match order.plan with
    | some plan => some plan.billingMode
    | none => order.resourcePlanMode
  order.offering.components.any fun c => (resolveComponent c mode).billingType == .usage

/-- `order_is_held_for_purchase_order`. -/
def orderIsHeldForPurchaseOrder (order : Order) : Bool :=
  order.type != .terminate && order.offering.requirePurchaseOrderUpload && !order.attachment

/-- `order_autoapprove_is_disabled`. -/
def orderAutoapproveIsDisabled (order : Order) : Bool :=
  order.type != .terminate && order.offering.disableAutoapprove

/-- `evaluate_auto_approval`. -/
def evaluateAutoApproval (rules : Rules) (order : Order) : Option Rule :=
  if order.state ≠ .pendingConsumer then none
  else if order.plan.isNone && order.type != .terminate then none
  else if orderIsHeldForPurchaseOrder order then none
  else if orderAutoapproveIsDisabled order then none
  else
    match rules.rows.find? fun rule => rule.project == order.project && rule.enabled with
    | none => none
    | some rule =>
      if hasUsageComponent order then none
      else
        match estimatedMonthlyCost order with
        | none => none
        | some monthly => if monthly > rule.monthlyCostLimit then none else some rule

/-- `order_should_not_be_reviewed_by_provider`. -/
def orderShouldNotBeReviewedByProvider (order : Order) : Bool :=
  match order.offering.type with
  | .siteAgent => false
  | .basic => false
  | .remote => order.offering.autoApproveRemoteOrders ||
      order.offering.providerApprovers.contains (order.consumerReviewedBy.getD order.createdBy)
  | .script => order.offering.autoApproveMarketplaceScript
  | .other => true

/-- The state that `transition_order_from_consumer_approval` gives an order. -/
def transitionState (enableOrderStartDate : Bool) (today : ℤ) (order : Order) : OrderState :=
  if order.projectStartDate.any (today < ·) then .pendingProject
  else if !orderShouldNotBeReviewedByProvider order then .pendingProvider
  else if enableOrderStartDate && order.startDate.any (today < ·) then .pendingStartDate
  else .executing

/-! ## The transaction -/

inductive PermissionScope
  | project (id : ℕ)
  | customer (id : ℕ)
deriving DecidableEq, Repr

/-- Where `try_apply_project_auto_approval` stands: before the lock of the order; with the order locked; with the
rule that the evaluation returned; with the rule locked and read again; with the snapshot written. -/
inductive Phase
  | start (order : ℕ)
  | locked (order : Order)
  | evaluated (order : Order) (rule : ℕ)
  | ruleLocked (order : Order) (rule : Rule)
  | written (order : Order) (rule : Rule)

/-- The committed rows, the locks, the transactions in progress and the orders approved so far. -/
structure System where
  orders : Orders
  rules : Rules
  isActive : ℕ → Bool
  hasPermission : ℕ → PermissionScope → Bool
  enableOrderStartDate : Bool := false
  orderLock : ℕ → Option ℕ := fun _ => none
  ruleLock : ℕ → Option ℕ := fun _ => none
  workers : ℕ → Option Phase := fun _ => none
  approved : List ℕ := []

inductive Op
  | begin (worker order : ℕ)
  | advance (worker : ℕ) (today : ℤ)
  | abort (worker : ℕ)
  | editRule (rule : ℕ) (monthlyCostLimit : ℚ) (enabled : Bool)
  | deleteRule (rule : ℕ)
  | setActive (user : ℕ) (isActive : Bool)
  | setPermission (user : ℕ) (scope : PermissionScope) (granted : Bool)

/-- `_rule_creator_can_still_approve`. -/
def System.ruleCreatorCanStillApprove (s : System) (rule : Rule) : Bool :=
  match rule.createdBy with
  | none => false
  | some user => s.isActive user &&
      (s.hasPermission user (.project rule.project) || s.hasPermission user (.customer rule.customer))

/-- The transaction ends; its locks are free again. -/
def System.close (s : System) (worker : ℕ) : System :=
  { s with
    orderLock := fun k => if s.orderLock k = some worker then none else s.orderLock k
    ruleLock := fun k => if s.ruleLock k = some worker then none else s.ruleLock k
    workers := Function.update s.workers worker none }

def System.proceed (s : System) (worker : ℕ) (phase : Phase) : System :=
  { s with workers := Function.update s.workers worker (some phase) }

/-- The write of the snapshot. -/
def Order.stamped (order : Order) (rule : Rule) : Order :=
  { order with
    autoApprovedByRule := some rule.id
    autoApprovedCostLimitSnapshot := some rule.monthlyCostLimit }

/-- `review_by_consumer` and the transition, on the stamped order. -/
def Order.approvedBy (order : Order) (rule : Rule) (enableOrderStartDate : Bool) (today : ℤ) : Order :=
  let reviewed := { order with consumerReviewedBy := rule.createdBy }
  { reviewed with state := transitionState enableOrderStartDate today reviewed }

theorem Order.approvedBy_id (rule : Rule) (enableOrderStartDate : Bool) (today : ℤ) (order : Order) :
    ((order.stamped rule).approvedBy rule enableOrderStartDate today).id = order.id := rfl

/-- The next action of a transaction; it waits where another one holds the lock. -/
def System.advance (s : System) (worker : ℕ) (today : ℤ) : Phase → System
  | .start k =>
    match s.orders.get? k with
    | none => s.close worker
    | some order =>
      if s.orderLock k ≠ none then s
      else if order.state ≠ .pendingConsumer then s.close worker
      else
        { s.proceed worker (.locked order) with orderLock := Function.update s.orderLock k (some worker) }
  | .locked order =>
    match evaluateAutoApproval s.rules order with
    | none => s.close worker
    | some rule => s.proceed worker (.evaluated order rule.id)
  | .evaluated order k =>
    if s.ruleLock k ≠ none then s
    else
      match s.rules.get? k with
      | none => s.close worker
      | some rule =>
        if !rule.enabled then s.close worker
        else
          { s.proceed worker (.ruleLocked order rule) with ruleLock := Function.update s.ruleLock k (some worker) }
  | .ruleLocked order rule =>
    if !s.ruleCreatorCanStillApprove rule then s.close worker
    else s.proceed worker (.written (order.stamped rule) rule)
  | .written order rule =>
    { s.close worker with
      orders := s.orders.update order.id
        (fun row => (row.stamped rule).approvedBy rule s.enableOrderStartDate today)
        (Order.approvedBy_id rule s.enableOrderStartDate today)
      approved := order.id :: s.approved }

/-- The columns of an edit; the permission to edit is not modelled. -/
def Rule.edited (monthlyCostLimit : ℚ) (enabled : Bool) (rule : Rule) : Rule :=
  { rule with monthlyCostLimit := monthlyCostLimit, enabled := enabled }

def step (s : System) : Op → System
  | .begin worker order =>
    match s.workers worker with
    | some _ => s
    | none => s.proceed worker (.start order)
  | .advance worker today =>
    match s.workers worker with
    | none => s
    | some phase => s.advance worker today phase
  | .abort worker => s.close worker
  | .editRule k monthlyCostLimit enabled =>
    if s.ruleLock k ≠ none then s
    else { s with rules := s.rules.update k (Rule.edited monthlyCostLimit enabled) (fun _ => rfl) }
  | .deleteRule k => if s.ruleLock k ≠ none then s else { s with rules := s.rules.filter (·.id != k) }
  | .setActive user isActive => { s with isActive := Function.update s.isActive user isActive }
  | .setPermission user scope granted =>
    { s with
      hasPermission := fun u scope' => if u = user ∧ scope' = scope then granted else s.hasPermission u scope' }

/-- No transaction is in progress. -/
def initial (orders : Orders) (rules : Rules) (isActive : ℕ → Bool) (hasPermission : ℕ → PermissionScope → Bool)
    (enableOrderStartDate : Bool) : System where
  orders := orders
  rules := rules
  isActive := isActive
  hasPermission := hasPermission
  enableOrderStartDate := enableOrderStartDate

/-! ## What an approval rests on -/

/-- The order has an estimated cost, and the limit covers it. -/
def CostWithin (order : Order) (limit : ℚ) : Prop := ∃ cost, estimatedMonthlyCost order = some cost ∧ cost ≤ limit

/-- Whatever changes the row of an order approves it for the first time, out of the consumer's queue, under a rule
that is locked, enabled and in the snapshot with its limit, and `Q` holds of the order and that limit. -/
def ApprovedUnder (Q : Order → ℚ → Prop) (s : System) (op : Op) : Prop :=
  ∀ k row row', s.orders.get? k = some row → (step s op).orders.get? k = some row' → row' ≠ row →
    row.state = .pendingConsumer ∧ k ∉ s.approved ∧ (step s op).approved = k :: s.approved ∧
    ∃ rule, s.rules.get? rule.id = some rule ∧ s.ruleLock rule.id ≠ none ∧ rule.enabled = true ∧
      row'.autoApprovedByRule = some rule.id ∧ row'.autoApprovedCostLimitSnapshot = some rule.monthlyCostLimit ∧
      Q row' rule.monthlyCostLimit

/-- An edit that leaves a rule enabled leaves `Q` with the orders that wait for the lock of the rule. -/
def EditKeeps (Q : Order → ℚ → Prop) (s : System) : Op → Prop
  | .editRule k monthlyCostLimit enabled => enabled = true → s.ruleLock k = none →
      ∀ worker order, s.workers worker = some (.evaluated order k) → Q order monthlyCostLimit
  | _ => True

abbrev ApprovedWithinLimit : System → Op → Prop := ApprovedUnder CostWithin

/-- **Where approvals stay within the limit**: no edit between the evaluation of an order and the lock of its rule
leaves the rule enabled with a limit below the cost of the order. -/
abbrev LimitKept : System → Op → Prop := EditKeeps CostWithin

/-! ## The invariant -/

/-- The worker has the order locked, as it read it. -/
def Held (s : System) (worker : ℕ) (order : Order) : Prop :=
  s.orderLock order.id = some worker ∧ s.orders.get? order.id = some order ∧ order.state = .pendingConsumer

/-- The worker has the rule locked, as it read it. -/
def HeldRule (s : System) (worker : ℕ) (rule : Rule) : Prop :=
  s.ruleLock rule.id = some worker ∧ s.rules.get? rule.id = some rule ∧ rule.enabled = true

def PhaseOk (Q : Order → ℚ → Prop) (s : System) (worker : ℕ) : Phase → Prop
  | .start _ => True
  | .locked order => Held s worker order
  | .evaluated order k => Held s worker order ∧
      ∀ rule, s.rules.get? k = some rule → rule.enabled = true → Q order rule.monthlyCostLimit
  | .ruleLocked order rule => Held s worker order ∧ HeldRule s worker rule ∧ Q order rule.monthlyCostLimit
  | .written order rule => ∃ row, order = row.stamped rule ∧ Held s worker row ∧ HeldRule s worker rule ∧
      Q row rule.monthlyCostLimit

structure Inv (Q : Order → ℚ → Prop) (s : System) : Prop where
  phases : ∀ worker phase, s.workers worker = some phase → PhaseOk Q s worker phase
  reviewed : ∀ k ∈ s.approved, ∀ row, s.orders.get? k = some row → row.state ≠ .pendingConsumer

theorem inv_initial {Q : Order → ℚ → Prop} {orders : Orders} {rules : Rules} {isActive : ℕ → Bool}
    {hasPermission : ℕ → PermissionScope → Bool} {enableOrderStartDate : Bool} :
    Inv Q (initial orders rules isActive hasPermission enableOrderStartDate) :=
  ⟨fun _ _ h => (nomatch h), fun _ h => absurd h List.not_mem_nil⟩

variable {Q : Order → ℚ → Prop} {s s' : System} {worker w k : ℕ} {phase : Phase} {order : Order} {rule : Rule}

/-- A change that leaves the rows a worker has locked, and `Q` with the rule it waits for. -/
theorem PhaseOk.frame (h : PhaseOk Q s worker phase)
    (horders : ∀ k, s.orderLock k = some worker → s'.orderLock k = some worker ∧ s'.orders.get? k = s.orders.get? k)
    (hrules : ∀ k, s.ruleLock k = some worker → s'.ruleLock k = some worker ∧ s'.rules.get? k = s.rules.get? k)
    (hevaluated : ∀ order k, phase = .evaluated order k →
      (∀ rule, s.rules.get? k = some rule → rule.enabled = true → Q order rule.monthlyCostLimit) →
      ∀ rule, s'.rules.get? k = some rule → rule.enabled = true → Q order rule.monthlyCostLimit) :
    PhaseOk Q s' worker phase := by
  have hheld : ∀ {order}, Held s worker order → Held s' worker order := by
    rintro order ⟨hlock, hrow, hstate⟩
    obtain ⟨hlock', hrow'⟩ := horders _ hlock
    exact ⟨hlock', hrow'.trans hrow, hstate⟩
  have hheldRule : ∀ {rule}, HeldRule s worker rule → HeldRule s' worker rule := by
    rintro rule ⟨hlock, hrow, henabled⟩
    obtain ⟨hlock', hrow'⟩ := hrules _ hlock
    exact ⟨hlock', hrow'.trans hrow, henabled⟩
  cases phase with
  | start k => trivial
  | locked order => exact hheld h
  | evaluated order k => exact ⟨hheld h.1, hevaluated order k rfl h.2⟩
  | ruleLocked order rule => exact ⟨hheld h.1, hheldRule h.2.1, h.2.2⟩
  | written order rule =>
    obtain ⟨row, hrow, hrest, hrule, hQ⟩ := h
    exact ⟨row, hrow, hheld hrest, hheldRule hrule, hQ⟩

/-- What a step of one worker leaves as it is for the others. -/
structure Undisturbed (s s' : System) (worker : ℕ) : Prop where
  workers : ∀ w, w ≠ worker → s'.workers w = s.workers w
  orders : ∀ k w, w ≠ worker → s.orderLock k = some w →
    s'.orderLock k = some w ∧ s'.orders.get? k = s.orders.get? k
  rules : s'.rules = s.rules
  ruleLock : ∀ k w, w ≠ worker → s.ruleLock k = some w → s'.ruleLock k = some w

theorem Inv.of_undisturbed (h : Inv Q s) (hframe : Undisturbed s s' worker)
    (hown : ∀ phase, s'.workers worker = some phase → PhaseOk Q s' worker phase)
    (hreviewed : ∀ k ∈ s'.approved, ∀ row, s'.orders.get? k = some row → row.state ≠ .pendingConsumer) : Inv Q s' := by
  refine ⟨fun w phase hphase => ?_, hreviewed⟩
  by_cases hw : w = worker
  · subst hw
    exact hown phase hphase
  · rw [hframe.workers w hw] at hphase
    refine (h.phases w phase hphase).frame (fun k => hframe.orders k w hw) (fun k hk => ?_) ?_
    · exact ⟨hframe.ruleLock k w hw hk, by rw [hframe.rules]⟩
    · rintro order k rfl hQ rule hrule
      rw [hframe.rules] at hrule
      exact hQ rule hrule

variable (phase) in
theorem undisturbed_proceed : Undisturbed s (s.proceed worker phase) worker where
  workers _ hw := Function.update_of_ne hw _ _
  orders _ _ _ hk := ⟨hk, rfl⟩
  rules := rfl
  ruleLock _ _ _ hk := hk

theorem undisturbed_close : Undisturbed s (s.close worker) worker where
  workers _ hw := Function.update_of_ne hw _ _
  orders k w hw hk := by
    refine ⟨?_, rfl⟩
    show (if s.orderLock k = some worker then none else s.orderLock k) = some w
    rw [if_neg (fun h => hw (Option.some.inj (hk.symm.trans h))), hk]
  rules := rfl
  ruleLock k w hw hk := by
    show (if s.ruleLock k = some worker then none else s.ruleLock k) = some w
    rw [if_neg (fun h => hw (Option.some.inj (hk.symm.trans h))), hk]

theorem Inv.proceed (h : Inv Q s) (hphase : PhaseOk Q (s.proceed worker phase) worker phase) :
    Inv Q (s.proceed worker phase) := by
  refine h.of_undisturbed (undisturbed_proceed phase) (fun phase' hphase' => ?_) h.reviewed
  have hsame : (s.proceed worker phase).workers worker = some phase := Function.update_self _ _ _
  obtain rfl := Option.some.inj (hsame.symm.trans hphase')
  exact hphase

theorem Inv.close (h : Inv Q s) : Inv Q (s.close worker) := by
  refine h.of_undisturbed undisturbed_close (fun phase hphase => ?_) h.reviewed
  have hnone : (s.close worker).workers worker = none := Function.update_self _ _ _
  exact nomatch hnone.symm.trans hphase

/-! ## One step -/

/-- A rule that the evaluation returns is the enabled row, and its limit covers the cost. -/
theorem evaluateAutoApproval_spec {rules : Rules} (h : evaluateAutoApproval rules order = some rule) :
    rules.get? rule.id = some rule ∧ CostWithin order rule.monthlyCostLimit := by
  unfold evaluateAutoApproval at h
  split at h; · exact nomatch h
  split at h; · exact nomatch h
  split at h; · exact nomatch h
  split at h; · exact nomatch h
  cases hfind : rules.rows.find? fun rule => rule.project == order.project && rule.enabled with
  | none =>
    rw [hfind] at h
    exact nomatch h
  | some found =>
    rw [hfind] at h
    simp only at h
    split at h; · exact nomatch h
    cases hcost : estimatedMonthlyCost order with
    | none =>
      rw [hcost] at h
      exact nomatch h
    | some monthly =>
      rw [hcost] at h
      simp only at h
      split at h
      · exact nomatch h
      · next hle =>
        obtain rfl := Option.some.inj h
        exact ⟨Table.get?_eq_some.mpr ⟨List.mem_of_find?_eq_some hfind, rfl⟩, monthly, hcost, not_lt.mp hle⟩

theorem transitionState_ne (enableOrderStartDate : Bool) (today : ℤ) (order : Order) :
    transitionState enableOrderStartDate today order ≠ .pendingConsumer := by
  unfold transitionState
  split
  · exact nofun
  split
  · exact nofun
  split <;> exact nofun

theorem inv_start (h : Inv Q s) {today : ℤ} (hworker : s.workers worker = some (.start k)) :
    Inv Q (s.advance worker today (.start k)) := by
  rw [System.advance]
  cases hrow : s.orders.get? k with
  | none => exact h.close
  | some order =>
    obtain ⟨-, rfl⟩ := Table.get?_eq_some.mp hrow
    simp only
    by_cases hlock : s.orderLock order.id ≠ none
    · rw [if_pos hlock]
      exact h
    rw [if_neg hlock]
    by_cases hstate : order.state ≠ .pendingConsumer
    · rw [if_pos hstate]
      exact h.close
    rw [if_neg hstate]
    have hframe : Undisturbed s { s.proceed worker (.locked order) with
        orderLock := Function.update s.orderLock order.id (some worker) } worker := by
      refine { undisturbed_proceed (.locked order) with orders := fun k w hw hk => ⟨?_, rfl⟩ }
      refine (Function.update_of_ne (fun heq => ?_) _ _).trans hk
      rw [heq] at hk
      exact hlock (by rw [hk]; exact nofun)
    refine h.of_undisturbed hframe (fun phase hphase => ?_) h.reviewed
    have hsame : Function.update s.workers worker (some (.locked order)) worker = some (.locked order) :=
      Function.update_self _ _ _
    obtain rfl := Option.some.inj (hsame.symm.trans hphase)
    exact ⟨Function.update_self _ _ _, hrow, not_not.mp hstate⟩

theorem inv_locked (h : Inv Q s) {today : ℤ} (hworker : s.workers worker = some (.locked order))
    (hQ : ∀ rule, evaluateAutoApproval s.rules order = some rule → Q order rule.monthlyCostLimit) :
    Inv Q (s.advance worker today (.locked order)) := by
  rw [System.advance]
  cases hrule : evaluateAutoApproval s.rules order with
  | none => exact h.close
  | some rule =>
    refine h.proceed ⟨h.phases worker _ hworker, fun rule' hrule' _ => ?_⟩
    obtain rfl := Option.some.inj ((evaluateAutoApproval_spec hrule).1.symm.trans hrule')
    exact hQ rule hrule

theorem inv_evaluated (h : Inv Q s) {today : ℤ} (hworker : s.workers worker = some (.evaluated order k)) :
    Inv Q (s.advance worker today (.evaluated order k)) := by
  obtain ⟨hheld, hwait⟩ := h.phases worker _ hworker
  rw [System.advance]
  by_cases hlock : s.ruleLock k ≠ none
  · rw [if_pos hlock]
    exact h
  rw [if_neg hlock]
  cases hrow : s.rules.get? k with
  | none => exact h.close
  | some rule =>
    obtain ⟨-, rfl⟩ := Table.get?_eq_some.mp hrow
    simp only
    cases henabled : rule.enabled with
    | false => exact h.close
    | true =>
      have hframe : Undisturbed s { s.proceed worker (.ruleLocked order rule) with
          ruleLock := Function.update s.ruleLock rule.id (some worker) } worker := by
        refine { undisturbed_proceed (.ruleLocked order rule) with ruleLock := fun k w hw hk => ?_ }
        refine (Function.update_of_ne (fun heq => ?_) _ _).trans hk
        rw [heq] at hk
        exact hlock (by rw [hk]; exact nofun)
      refine h.of_undisturbed hframe (fun phase hphase => ?_) h.reviewed
      have hsame : Function.update s.workers worker (some (.ruleLocked order rule)) worker =
          some (.ruleLocked order rule) := Function.update_self _ _ _
      obtain rfl := Option.some.inj (hsame.symm.trans hphase)
      exact ⟨hheld, ⟨Function.update_self _ _ _, hrow, henabled⟩, hwait rule hrow henabled⟩

theorem inv_ruleLocked (h : Inv Q s) {today : ℤ} (hworker : s.workers worker = some (.ruleLocked order rule)) :
    Inv Q (s.advance worker today (.ruleLocked order rule)) := by
  obtain ⟨hheld, hheldRule, hQ⟩ := h.phases worker _ hworker
  rw [System.advance]
  cases hcreator : s.ruleCreatorCanStillApprove rule with
  | false => exact h.close
  | true => exact h.proceed ⟨order, rfl, hheld, hheldRule, hQ⟩

/-- The row of an order after the commit of an approval. -/
theorem commit_get? {today : ℤ} {row : Order} (hrow : s.orders.get? row.id = some row) (k : ℕ) :
    (s.advance worker today (.written (row.stamped rule) rule)).orders.get? k =
      if k = row.id then some ((row.stamped rule).approvedBy rule s.enableOrderStartDate today)
      else s.orders.get? k := by
  rw [System.advance]
  by_cases hk : k = row.id
  · have hself := Table.get?_update_self s.orders row.id
      (fun row => (row.stamped rule).approvedBy rule s.enableOrderStartDate today)
      (Order.approvedBy_id rule s.enableOrderStartDate today)
    rw [hrow] at hself
    rw [if_pos hk, hk]
    exact hself
  · rw [if_neg hk]
    exact Table.get?_update_ne _ _ (Order.approvedBy_id rule s.enableOrderStartDate today) hk

theorem inv_written (h : Inv Q s) {today : ℤ} (hworker : s.workers worker = some (.written order rule)) :
    Inv Q (s.advance worker today (.written order rule)) := by
  obtain ⟨row, rfl, hheld, hheldRule, hQ⟩ := h.phases worker _ hworker
  have hframe : Undisturbed s (s.advance worker today (.written (row.stamped rule) rule)) worker := by
    refine { undisturbed_close with orders := fun k w hw hk => ⟨(undisturbed_close.orders k w hw hk).1, ?_⟩ }
    rw [commit_get? hheld.2.1, if_neg]
    rintro rfl
    exact hw (Option.some.inj (hk.symm.trans hheld.1))
  refine h.of_undisturbed hframe (fun phase hphase => ?_) (fun k hk row' hrow' => ?_)
  · have hnone : (s.close worker).workers worker = none := Function.update_self _ _ _
    exact nomatch hnone.symm.trans hphase
  · rw [commit_get? hheld.2.1] at hrow'
    by_cases heq : k = row.id
    · rw [if_pos heq] at hrow'
      obtain rfl := Option.some.inj hrow'
      exact transitionState_ne _ _ _
    · rw [if_neg heq] at hrow'
      rcases List.mem_cons.mp hk with hk | hk
      · exact absurd hk heq
      · exact h.reviewed k hk row' hrow'

theorem inv_advance (h : Inv Q s) {today : ℤ} (hworker : s.workers worker = some phase)
    (hQ : ∀ order rule, evaluateAutoApproval s.rules order = some rule → Q order rule.monthlyCostLimit) :
    Inv Q (s.advance worker today phase) := by
  cases phase with
  | start k => exact inv_start h hworker
  | locked order => exact inv_locked h hworker (hQ order)
  | evaluated order k => exact inv_evaluated h hworker
  | ruleLocked order rule => exact inv_ruleLocked h hworker
  | written order rule => exact inv_written h hworker

/-- An edit waits for the lock of its rule, so it reaches only the transactions that still have to lock it. -/
theorem inv_editRule (h : Inv Q s) {monthlyCostLimit : ℚ} {enabled : Bool}
    (hedit : EditKeeps Q s (.editRule k monthlyCostLimit enabled)) :
    Inv Q (step s (.editRule k monthlyCostLimit enabled)) := by
  rw [step]
  by_cases hlock : s.ruleLock k ≠ none
  · rw [if_pos hlock]
    exact h
  rw [if_neg hlock]
  refine ⟨fun w phase hphase => ?_, h.reviewed⟩
  refine (h.phases w phase hphase).frame (fun _ hk => ⟨hk, rfl⟩) (fun k' hk' => ⟨hk', ?_⟩) ?_
  · have hne : k' ≠ k := by
      rintro rfl
      exact hlock (by rw [hk']; exact nofun)
    exact Table.get?_update_ne s.rules (Rule.edited monthlyCostLimit enabled) (fun _ => rfl) hne
  · rintro order k' rfl hwait rule hrule henabled
    by_cases hk : k' = k
    · subst hk
      have hself := Table.get?_update_self s.rules k' (Rule.edited monthlyCostLimit enabled) (fun _ => rfl)
      obtain ⟨old, -, rfl⟩ := Option.map_eq_some_iff.mp (hself.symm.trans hrule)
      exact hedit henabled (not_not.mp hlock) w order hphase
    · rw [Table.get?_update_ne s.rules (Rule.edited monthlyCostLimit enabled) (fun _ => rfl) hk] at hrule
      exact hwait rule hrule henabled

theorem inv_deleteRule (h : Inv Q s) : Inv Q (step s (.deleteRule k)) := by
  rw [step]
  by_cases hlock : s.ruleLock k ≠ none
  · rw [if_pos hlock]
    exact h
  rw [if_neg hlock]
  refine ⟨fun w phase hphase => ?_, h.reviewed⟩
  refine (h.phases w phase hphase).frame (fun _ hk => ⟨hk, rfl⟩) (fun k' hk' => ⟨hk', ?_⟩) ?_
  · have hne : k' ≠ k := by
      rintro rfl
      exact hlock (by rw [hk']; exact nofun)
    rw [Table.get?_filter]
    cases hrow : s.rules.get? k' with
    | none => rfl
    | some rule =>
      obtain ⟨-, rfl⟩ := Table.get?_eq_some.mp hrow
      rw [Option.filter_some, if_pos (bne_iff_ne.mpr hne)]
  · rintro order k' rfl hwait rule hrule henabled
    rw [Table.get?_filter, Option.filter_eq_some_iff] at hrule
    exact hwait rule hrule.1 henabled

theorem inv_step (h : Inv Q s) (op : Op) (hedit : EditKeeps Q s op)
    (hQ : ∀ order rule, evaluateAutoApproval s.rules order = some rule → Q order rule.monthlyCostLimit) :
    Inv Q (step s op) := by
  cases op with
  | begin worker order =>
    rw [step]
    cases s.workers worker with
    | none => exact h.proceed trivial
    | some phase => exact h
  | advance worker today =>
    rw [step]
    cases hworker : s.workers worker with
    | none => exact h
    | some phase => exact inv_advance h hworker hQ
  | abort worker => exact h.close
  | editRule k monthlyCostLimit enabled => exact inv_editRule h hedit
  | deleteRule k => exact inv_deleteRule h
  | setActive user isActive => exact ⟨h.phases, h.reviewed⟩
  | setPermission user scope granted => exact ⟨h.phases, h.reviewed⟩

/-! ## Runs -/

theorem orders_advance {today : ℤ} (hphase : ∀ order rule, phase ≠ .written order rule) :
    (s.advance worker today phase).orders = s.orders := by
  cases phase with
  | start k =>
    rw [System.advance]
    cases s.orders.get? k with
    | none => rfl
    | some order =>
      simp only
      split
      · rfl
      · split <;> rfl
  | locked order =>
    rw [System.advance]
    cases evaluateAutoApproval s.rules order <;> rfl
  | evaluated order k =>
    rw [System.advance]
    split
    · rfl
    cases s.rules.get? k with
    | none => rfl
    | some rule =>
      simp only
      split <;> rfl
  | ruleLocked order rule =>
    rw [System.advance]
    split <;> rfl
  | written order rule => exact absurd rfl (hphase order rule)

/-- Only the commit of an approval changes an order. -/
theorem orders_step {op : Op} (hop : ∀ worker today order rule, op = .advance worker today →
    s.workers worker ≠ some (.written order rule)) : (step s op).orders = s.orders := by
  cases op with
  | begin worker order =>
    rw [step]
    cases s.workers worker <;> rfl
  | advance worker today =>
    rw [step]
    cases hworker : s.workers worker with
    | none => rfl
    | some phase =>
      refine orders_advance fun order rule hphase => hop worker today order rule rfl ?_
      rw [hworker, hphase]
  | abort worker => rfl
  | editRule k monthlyCostLimit enabled =>
    rw [step]
    split <;> rfl
  | deleteRule k =>
    rw [step]
    split <;> rfl
  | setActive user isActive => rfl
  | setPermission user scope granted => rfl

theorem approvedUnder_step (h : Inv Q s) (op : Op)
    (hsame : ∀ {order rule limit flag today}, Q order limit →
      Q ((order.stamped rule).approvedBy rule flag today) limit) : ApprovedUnder Q s op := by
  intro k row row' hrow hrow' hne
  by_cases hop : ∃ worker today order rule, op = .advance worker today ∧
      s.workers worker = some (.written order rule)
  · obtain ⟨worker, today, order, rule, rfl, hworker⟩ := hop
    obtain ⟨held, rfl, hheld, ⟨hlock, hrule, henabled⟩, hQ⟩ := h.phases worker _ hworker
    have hstep : step s (.advance worker today) = s.advance worker today (.written (held.stamped rule) rule) := by
      rw [step, hworker]
    rw [hstep, commit_get? hheld.2.1] at hrow'
    by_cases hk : k = held.id
    · rw [if_pos hk] at hrow'
      obtain rfl := Option.some.inj hrow'
      rw [hk, hheld.2.1] at hrow
      obtain rfl := Option.some.inj hrow
      have hnew : k ∉ s.approved := fun hmem => h.reviewed k hmem held (hk ▸ hheld.2.1) hheld.2.2
      refine ⟨hheld.2.2, hnew, by rw [hstep, hk]; rfl, rule, hrule, ?_, henabled, rfl, rfl, hsame hQ⟩
      rw [hlock]
      exact nofun
    · rw [if_neg hk, hrow] at hrow'
      exact absurd (Option.some.inj hrow').symm hne
  · rw [orders_step (fun worker today order rule heq hworker => hop ⟨worker, today, order, rule, heq, hworker⟩),
      hrow] at hrow'
    exact absurd (Option.some.inj hrow').symm hne

variable {orders : Orders} {rules : Rules} {isActive : ℕ → Bool} {hasPermission : ℕ → PermissionScope → Bool}
  {enableOrderStartDate : Bool}

/-- **Auto-approval within the limit**: in every run of transactions and edits in which no edit lowers the limit of a
rule below the cost of an order between its evaluation and the lock of the rule, whatever changes an order approves it
once, out of the consumer's queue, under a rule that is locked, enabled and in the snapshot, with a limit that covers
the cost of the order. -/
theorem approved_within_limit (orders : Orders) (rules : Rules) (isActive : ℕ → Bool)
    (hasPermission : ℕ → PermissionScope → Bool) (enableOrderStartDate : Bool) (ops : List Op)
    (hops : Along step LimitKept (initial orders rules isActive hasPermission enableOrderStartDate) ops) :
    Along step ApprovedWithinLimit (initial orders rules isActive hasPermission enableOrderStartDate) ops := by
  have hstep : ∀ s op, Inv CostWithin s → LimitKept s op → Inv CostWithin (step s op) ∧ ApprovedWithinLimit s op := by
    intro s op h hedit
    refine ⟨inv_step h op hedit fun order rule hrule => (evaluateAutoApproval_spec hrule).2, ?_⟩
    exact approvedUnder_step h op fun hcost => hcost
  exact along_of_invariant hstep ops _ inv_initial hops

/-- An order of eighty a month. -/
def monthlyOrder : Order := { id := 1, project := 1, plan := some { unitPrice := 80 }, createdBy := 1 }

def projectRule : Rule := { id := 1, project := 1, customer := 1, monthlyCostLimit := 100, createdBy := some 2 }

def oneOrder : System :=
  initial ⟨[monthlyOrder], by decide⟩ ⟨[projectRule], by decide⟩ (fun _ => true) (fun _ _ => true) false

/-- Two transactions want the order; the rule is raised between the evaluation and the lock, and lowered after. -/
def raisedRun : List Op :=
  [.begin 1 1, .begin 2 1, .advance 1 0, .advance 2 0, .advance 1 0, .editRule 1 200 true, .advance 1 0,
    .editRule 1 50 true, .advance 1 0, .advance 1 0, .editRule 1 50 true, .advance 2 0]

theorem raised_limit_covers : Along step ApprovedWithinLimit oneOrder raisedRun := by
  refine approved_within_limit _ _ _ _ false raisedRun ⟨trivial, trivial, trivial, trivial, trivial, ?_, trivial, ?_,
    trivial, trivial, ?_, trivial, trivial⟩
  · intro _ _ worker order hworker
    match worker with
    | 0 => exact nomatch hworker
    | 1 =>
      obtain rfl : monthlyOrder = order := by cases hworker; rfl
      exact ⟨80, rfl, by decide +kernel⟩
    | 2 => exact nomatch hworker
    | n + 3 => exact nomatch hworker
  · intro _ hlock
    exact nomatch hlock
  · intro _ _ worker order hworker
    match worker with
    | 0 => exact nomatch hworker
    | 1 => exact nomatch hworker
    | 2 => exact nomatch hworker
    | n + 3 => exact nomatch hworker

/-- The limit is lowered between the evaluation and the lock. -/
def loweredRun : List Op :=
  [.begin 1 1, .advance 1 0, .advance 1 0, .editRule 1 50 true, .advance 1 0, .advance 1 0, .advance 1 0]

theorem lowered_limit_exceeded : ¬ ∀ (orders : Orders) (rules : Rules) (isActive : ℕ → Bool)
    (hasPermission : ℕ → PermissionScope → Bool) (enableOrderStartDate : Bool) (ops : List Op),
    Along step ApprovedWithinLimit (initial orders rules isActive hasPermission enableOrderStartDate) ops := by
  intro h
  let low : Rule := projectRule.edited 50 true
  have hlast := (h ⟨[monthlyOrder], by decide⟩ ⟨[projectRule], by decide⟩ (fun _ => true) (fun _ _ => true) false
    loweredRun).2.2.2.2.2.2.1 1 monthlyOrder ((monthlyOrder.stamped low).approvedBy low false 0) (by decide +kernel)
    (by decide +kernel) (by decide +kernel)
  obtain ⟨-, -, -, rule, -, -, -, -, hsnapshot, cost, hcost, hle⟩ := hlast
  have hlimit : (50 : ℚ) = rule.monthlyCostLimit := Option.some.inj hsnapshot
  have heighty : (80 : ℚ) = cost := Option.some.inj hcost
  rw [← hlimit, ← heighty] at hle
  exact absurd hle (by decide +kernel)

end Waldur.Marketplace.AutoApproval
