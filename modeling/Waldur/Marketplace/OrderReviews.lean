import Mathlib
import Waldur.Marketplace.AutoApproval

/-!
# Marketplace.OrderReviews — an order from its creation to its processing

An order waits for its consumer, for the start of its project, for its provider and for its own start date, and is
then handed to the processor of its offering.  Its state is moved by the handler of its creation, by the actions of
`OrderViewSet`, by two sweeps and by the callbacks of the backend.  An agent may set an order to executing or erred
from most states: `Clean` says exactly when that does not skip a review (`reviewed_iff`).  Whatever happens, an
order is handed over once, and once more for each retry (`sent_le`).
-/

namespace Waldur.Marketplace.OrderReviews

open AutoApproval (OrderType OfferingType Rules evaluateAutoApproval orderIsHeldForPurchaseOrder
  orderAutoapproveIsDisabled orderShouldNotBeReviewedByProvider transitionState)
open Runs

/-! ## The code -/

/-- What the consumer step reads of the creator and of the offering when an order is placed. -/
structure Placement where
  placedAutomatically : Bool := false
  creatorIsStaff : Bool := false
  offeringIsPrivate : Bool := false
  approvesPrivateOrders : Bool := false
  offeringIsShared : Bool := false
  offeringOfOwnOrganization : Bool := false
  autoApproveInServiceProviderProjects : Bool := false
  creatorOwnsProvider : Bool := false
  autoApproveRoles : List ℕ := []
  creatorRoles : List ℕ := []
  approvesOrders : Bool := false
deriving DecidableEq

/-- An order with the columns of its reviews, and the number of `process_order` tasks sent for it. -/
structure Order extends AutoApproval.Order where
  placement : Placement := {}
  consumerReviewedAt : Option ℤ := none
  providerReviewedBy : Option ℕ := none
  providerReviewedAt : Option ℤ := none
  completedAt : Option ℤ := none
  sent : ℕ := 0
deriving DecidableEq

/-- `order_should_not_be_reviewed_by_consumer`. -/
def orderShouldNotBeReviewedByConsumer (order : Order) : Bool :=
  if orderIsHeldForPurchaseOrder order.toOrder then false
  else if order.placement.placedAutomatically && order.consumerReviewedBy.isSome then true
  else if order.placement.creatorIsStaff then true
  else if orderAutoapproveIsDisabled order.toOrder then false
  else if order.placement.offeringIsPrivate then order.placement.approvesPrivateOrders
  else if order.placement.offeringIsShared && order.placement.offeringOfOwnOrganization &&
      order.placement.autoApproveInServiceProviderProjects then true
  else if order.type = .terminate && order.placement.creatorOwnsProvider then true
  else if order.placement.autoApproveRoles.any order.placement.creatorRoles.contains then true
  else order.placement.approvesOrders

/-- `review_by_consumer`. -/
def Order.reviewByConsumer (order : Order) (user : ℕ) (now : ℤ) : Order :=
  { order with consumerReviewedBy := some user, consumerReviewedAt := some now }

/-- `review_by_provider`. -/
def Order.reviewByProvider (order : Order) (user : ℕ) (now : ℤ) : Order :=
  { order with providerReviewedBy := some user, providerReviewedAt := some now }

/-- `set_state_executing` and `process_order_on_commit`. -/
def Order.execute (order : Order) : Order := { order with state := .executing, sent := order.sent + 1 }

/-- The branches of `transition_order_from_consumer_approval`. -/
def Order.moveTo (order : Order) (state : OrderState) : Order :=
  if state = .executing then order.execute else { order with state := state }

/-- A review that the order carries is kept, else its creator has reviewed it. -/
def Order.clearedByCreator (order : Order) (today : ℤ) : Order :=
  if order.consumerReviewedBy.isNone then order.reviewByConsumer order.createdBy today else order

/-- Where a new order goes that needs no review by its consumer. -/
def Order.moveOn (order : Order) (today : ℤ) : Order :=
  if order.projectStartDate.any (today < ·) then { order with state := .pendingProject }
  else if orderShouldNotBeReviewedByProvider order.toOrder then order.execute
  else { order with state := .pendingProvider }

/-- `notify_approvers_when_order_is_created`. -/
def notifyApproversWhenOrderIsCreated (today : ℤ) (order : Order) : Order :=
  if order.state = .pendingConsumer ∨ order.state = .pendingProvider then
    if orderShouldNotBeReviewedByConsumer order then (order.clearedByCreator today).moveOn today else order
  else order

/-- `approve_by_consumer`, with its validator. -/
def approveByConsumer (enableOrderStartDate : Bool) (user : ℕ) (today : ℤ) (order : Order) : Order :=
  if order.state ≠ .pendingConsumer then order
  else if orderIsHeldForPurchaseOrder order.toOrder then order
  else
    let order := order.reviewByConsumer user today
    order.moveTo (transitionState enableOrderStartDate today order.toOrder)

/-- `confirm_pending_terminate_order`. -/
def confirmPendingTerminateOrder (enableOrderStartDate : Bool) (reviewer : ℕ) (today : ℤ) (order : Order) : Order :=
  if order.type ≠ .terminate then order
  else if order.state ≠ .pendingConsumer then order
  else
    let order := order.reviewByConsumer reviewer today
    order.moveTo (transitionState enableOrderStartDate today order.toOrder)

/-- `try_apply_project_auto_approval`, run to its end: the creator of the rule, if he may still approve. -/
def tryApplyProjectAutoApproval (enableOrderStartDate : Bool) (rules : Rules) (creatorCanStillApprove : ℕ → Bool)
    (today : ℤ) (order : Order) : Order :=
  match evaluateAutoApproval rules order.toOrder with
  | none => order
  | some rule =>
    match rule.createdBy with
    | none => order
    | some user =>
      if !creatorCanStillApprove user then order
      else
        let order := { order with
          autoApprovedByRule := some rule.id
          autoApprovedCostLimitSnapshot := some rule.monthlyCostLimit }
        let order := order.reviewByConsumer user today
        order.moveTo (transitionState enableOrderStartDate today order.toOrder)

/-- `approve_by_provider`. -/
def approveByProvider (enableOrderStartDate : Bool) (user : ℕ) (today : ℤ) (order : Order) : Order :=
  if order.state ≠ .pendingProvider then order
  else
    let order := order.reviewByProvider user today
    if enableOrderStartDate && order.startDate.any (today < ·) then { order with state := .pendingStartDate }
    else order.execute

/-- `reject_by_consumer`; rejecting sets `completed_at`. -/
def rejectByConsumer (user : ℕ) (today : ℤ) (order : Order) : Order :=
  if order.state ≠ .pendingConsumer then order
  else if orderShouldNotBeReviewedByConsumer order then order
  else if order.consumerReviewedBy.isSome then order
  else { order.reviewByConsumer user today with state := .rejected, completedAt := some today }

/-- `reject_by_provider`. -/
def rejectByProvider (user : ℕ) (today : ℤ) (order : Order) : Order :=
  if order.state ≠ .pendingProvider then order
  else { order.reviewByProvider user today with state := .rejected, completedAt := some today }

/-- `OrderViewSet.cancel`, of a basic offering or of one of the other types that is a support offering. -/
def cancel (isSupport : Bool) (today : ℤ) (order : Order) : Order :=
  if order.offering.type ≠ .basic ∧ ¬ (order.offering.type = .other ∧ isSupport) then order
  else if order.state = .pendingConsumer ∨ order.state = .pendingProvider ∨ order.state = .pendingStartDate ∨
      order.state = .executing then { order with state := .canceled, completedAt := some today }
  else order

/-- `OrderViewSet.set_state_executing` of an agent. -/
def agentSetStateExecuting (order : Order) : Order :=
  if order.offering.type ≠ .siteAgent then order
  else if order.state = .pendingConsumer ∨ order.state = .pendingProvider ∨ order.state = .erred then
    { order with state := .executing }
  else order

/-- `OrderViewSet.set_state_erred` of an agent: from any state. -/
def agentSetStateErred (order : Order) : Order :=
  if order.offering.type ≠ .siteAgent then order else { order with state := .erred }

/-- `retry`, of an order whose resource allows it. -/
def retry (supportsRetry : Bool) (order : Order) : Order :=
  if !supportsRetry then order
  else if order.state ≠ .erred then order
  else if order.type = .restore then order
  else { order.execute with completedAt := none }

/-- `set_order_state` of a callback: an executing order is completed, has failed or is canceled. -/
def setOrderState (newState : OrderState) (today : ℤ) (order : Order) : Order :=
  if order.state ≠ .executing then order
  else
    match newState with
    | .done => { order with state := .done, completedAt := some today }
    | .erred => { order with state := .erred }
    | .canceled => { order with state := .canceled, completedAt := some today }
    | _ => order

/-- `mark_resources_as_erred_after_timeout`. -/
def failAfterTimeout (today : ℤ) (order : Order) : Order :=
  if order.state ≠ .executing then order else { order with state := .erred, completedAt := some today }

/-- `utils.process_order` of a task that was sent, when the processor raises: whatever the state is by then. -/
def processingFailed (order : Order) : Order := if order.sent = 0 then order else { order with state := .erred }

/-- `process_pending_start_date_orders`. -/
def processPendingStartDateOrder (today : ℤ) (order : Order) : Order :=
  if order.state = .pendingStartDate ∧ order.startDate.any (· ≤ today) then order.execute else order

/-- `continue_order_processing`. -/
def continueOrderProcessing (today : ℤ) (order : Order) : Order :=
  if orderShouldNotBeReviewedByProvider order.toOrder then
    if order.startDate.any (today < ·) then { order with state := .pendingStartDate } else order.execute
  else { order with state := .pendingProvider }

/-- `process_pending_project_orders`, and the handler of a start date that is unset. -/
def processPendingProjectOrder (today : ℤ) (order : Order) : Order :=
  if order.state = .pendingProject ∧ !order.projectStartDate.any (today < ·) then continueOrderProcessing today order
  else order

/-! ## Runs -/

/-- What happens to an order after it was placed; the last three change what it is decided by: its consumer edits it
before the review, a purchase order is attached, its project and its offering change, whose type stays. -/
inductive Op
  | approveByConsumer (user : ℕ)
  | confirmPendingTerminate (reviewer : ℕ)
  | autoApprove (rules : Rules) (creatorCanStillApprove : ℕ → Bool)
  | approveByProvider (user : ℕ)
  | rejectByConsumer (user : ℕ)
  | rejectByProvider (user : ℕ)
  | cancel (isSupport : Bool)
  | agentExecuting
  | agentErred
  | retry (supportsRetry : Bool)
  | callback (newState : OrderState)
  | timeout
  | processingFailed
  | startDateSweep
  | projectSweep
  | edit (limits : List (String × ℚ)) (startDate : Option ℤ)
  | attach (attachment : Bool)
  | configure (projectStartDate : Option ℤ) (offering : AutoApproval.Offering) (placement : Placement)

/-- One step, on a day and under a setting of `ENABLE_ORDER_START_DATE`. -/
def step (order : Order) : (Op × ℤ × Bool) → Order
  | (.approveByConsumer user, today, enabled) => approveByConsumer enabled user today order
  | (.confirmPendingTerminate reviewer, today, enabled) => confirmPendingTerminateOrder enabled reviewer today order
  | (.autoApprove rules can, today, enabled) => tryApplyProjectAutoApproval enabled rules can today order
  | (.approveByProvider user, today, enabled) => approveByProvider enabled user today order
  | (.rejectByConsumer user, today, _) => rejectByConsumer user today order
  | (.rejectByProvider user, today, _) => rejectByProvider user today order
  | (.cancel isSupport, today, _) => cancel isSupport today order
  | (.agentExecuting, _, _) => agentSetStateExecuting order
  | (.agentErred, _, _) => agentSetStateErred order
  | (.retry supportsRetry, _, _) => retry supportsRetry order
  | (.callback newState, today, _) => setOrderState newState today order
  | (.timeout, today, _) => failAfterTimeout today order
  | (.processingFailed, _, _) => processingFailed order
  | (.startDateSweep, today, _) => processPendingStartDateOrder today order
  | (.projectSweep, today, _) => processPendingProjectOrder today order
  | (.edit limits startDate, _, _) =>
    if order.state ≠ .pendingConsumer then order else { order with limits := limits, startDate := startDate }
  | (.attach attachment, _, _) => { order with attachment := attachment }
  | (.configure projectStartDate offering placement, _, _) =>
    { order with
      projectStartDate := projectStartDate
      offering := { offering with type := order.offering.type }
      placement := placement }

/-! ## What a step may do -/

/-- What matters of an order for its reviews. -/
structure Core where
  state : OrderState
  type : OfferingType
  consumerReviewed : Bool
  providerReviewed : Bool
  sent : ℕ
deriving DecidableEq

def Order.core (order : Order) : Core where
  state := order.state
  type := order.offering.type
  consumerReviewed := order.consumerReviewedBy.isSome
  providerReviewed := order.providerReviewedBy.isSome
  sent := order.sent

/-- The offerings whose provider reviews every order. -/
def Core.needsProvider (c : Core) : Bool := c.type = .siteAgent || c.type = .basic

/-- Who takes a step. -/
inductive Actor
  | party
  | agent
  | retry
deriving DecidableEq, Repr

def Op.actor : Op → Actor
  | .agentExecuting => .agent
  | .agentErred => .agent
  | .retry _ => .retry
  | _ => .party

/-- **The life of an order**: who may move it from where to where, and which review that records. -/
inductive Move : Actor → Core → Core → Prop
  | idle (actor : Actor) (c : Core) : Move actor c c
  | consumerToProvider (c : Core) (state : OrderState) (from_state : c.state = .pendingConsumer)
      (to_state : state = .pendingProject ∨ state = .pendingProvider) :
      Move .party c { c with state := state, consumerReviewed := true }
  | consumerToStart (c : Core) (from_state : c.state = .pendingConsumer) (free : c.needsProvider = false) :
      Move .party c { c with state := .pendingStartDate, consumerReviewed := true }
  | consumerToProcessor (c : Core) (from_state : c.state = .pendingConsumer) (free : c.needsProvider = false) :
      Move .party c { c with state := .executing, consumerReviewed := true, sent := c.sent + 1 }
  | projectToProvider (c : Core) (from_state : c.state = .pendingProject) :
      Move .party c { c with state := .pendingProvider }
  | projectToStart (c : Core) (from_state : c.state = .pendingProject) (free : c.needsProvider = false) :
      Move .party c { c with state := .pendingStartDate }
  | projectToProcessor (c : Core) (from_state : c.state = .pendingProject) (free : c.needsProvider = false) :
      Move .party c { c with state := .executing, sent := c.sent + 1 }
  | providerToStart (c : Core) (from_state : c.state = .pendingProvider) :
      Move .party c { c with state := .pendingStartDate, providerReviewed := true }
  | providerToProcessor (c : Core) (from_state : c.state = .pendingProvider) :
      Move .party c { c with state := .executing, providerReviewed := true, sent := c.sent + 1 }
  | startToProcessor (c : Core) (from_state : c.state = .pendingStartDate) :
      Move .party c { c with state := .executing, sent := c.sent + 1 }
  | consumerRejects (c : Core) (from_state : c.state = .pendingConsumer) :
      Move .party c { c with state := .rejected, consumerReviewed := true }
  | providerRejects (c : Core) (from_state : c.state = .pendingProvider) :
      Move .party c { c with state := .rejected, providerReviewed := true }
  | cancels (c : Core) (from_state : c.state ≠ .rejected) : Move .party c { c with state := .canceled }
  | completes (c : Core) (from_state : c.state = .executing) : Move .party c { c with state := .done }
  | fails (c : Core) (from_state : c.state = .executing ∨ 0 < c.sent) : Move .party c { c with state := .erred }
  | retries (c : Core) (from_state : c.state = .erred) :
      Move .retry c { c with state := .executing, sent := c.sent + 1 }
  | agentExecutes (c : Core) (of_agent : c.type = .siteAgent)
      (from_state : c.state = .pendingConsumer ∨ c.state = .pendingProvider ∨ c.state = .erred) :
      Move .agent c { c with state := .executing }
  | agentFails (c : Core) (of_agent : c.type = .siteAgent) : Move .agent c { c with state := .erred }

variable {order : Order} {today : ℤ} {enabled : Bool} {user : ℕ} {c c' : Core} {actor : Actor}

/-- An offering that needs its provider is never passed over. -/
theorem needsProvider_of_review (h : orderShouldNotBeReviewedByProvider order.toOrder = true) :
    order.core.needsProvider = false := by
  unfold orderShouldNotBeReviewedByProvider at h
  unfold Core.needsProvider Order.core
  dsimp only
  cases htype : order.offering.type <;> rw [htype] at h <;> first | rfl | exact absurd h Bool.false_ne_true

/-- An order cleared by its consumer goes to its project, its provider, its start date or its processor. -/
theorem move_moveTo (hstate : order.state = .pendingConsumer) :
    Move .party order.core
      ((order.reviewByConsumer user today).moveTo
        (transitionState enabled today (order.reviewByConsumer user today).toOrder)).core := by
  unfold transitionState
  split
  · exact .consumerToProvider order.core .pendingProject hstate (Or.inl rfl)
  split
  · exact .consumerToProvider order.core .pendingProvider hstate (Or.inr rfl)
  next hprovider =>
  have hfree : order.core.needsProvider = false :=
    @needsProvider_of_review (order.reviewByConsumer user today) (by simpa using hprovider)
  split
  · exact .consumerToStart order.core hstate hfree
  · exact .consumerToProcessor order.core hstate hfree

theorem move_approveByConsumer : Move .party order.core (approveByConsumer enabled user today order).core := by
  unfold approveByConsumer
  split
  · exact .idle _ _
  next hstate =>
  split
  · exact .idle _ _
  · exact move_moveTo (not_not.mp hstate)

theorem move_confirmPendingTerminate :
    Move .party order.core (confirmPendingTerminateOrder enabled user today order).core := by
  unfold confirmPendingTerminateOrder
  split
  · exact .idle _ _
  split
  · exact .idle _ _
  · next hstate => exact move_moveTo (not_not.mp hstate)

theorem state_of_evaluate {rules : Rules} {rule : AutoApproval.Rule}
    (h : evaluateAutoApproval rules order.toOrder = some rule) : order.state = .pendingConsumer := by
  by_contra hne
  unfold evaluateAutoApproval at h
  rw [if_pos hne] at h
  exact nomatch h

theorem move_tryApply {rules : Rules} {can : ℕ → Bool} :
    Move .party order.core (tryApplyProjectAutoApproval enabled rules can today order).core := by
  unfold tryApplyProjectAutoApproval
  split
  · exact .idle _ _
  next rule hrule =>
  split
  · exact .idle _ _
  next creator hcreator =>
  split
  · exact .idle _ _
  · have hstate := state_of_evaluate hrule
    exact @move_moveTo { order with
      autoApprovedByRule := some rule.id, autoApprovedCostLimitSnapshot := some rule.monthlyCostLimit } _ _ _ hstate

theorem move_approveByProvider : Move .party order.core (approveByProvider enabled user today order).core := by
  unfold approveByProvider
  split
  · exact .idle _ _
  next hstate =>
  dsimp only
  split
  · exact .providerToStart order.core (not_not.mp hstate)
  · exact .providerToProcessor order.core (not_not.mp hstate)

theorem move_rejectByConsumer : Move .party order.core (rejectByConsumer user today order).core := by
  unfold rejectByConsumer
  split
  · exact .idle _ _
  next hstate =>
  split
  · exact .idle _ _
  split
  · exact .idle _ _
  · exact .consumerRejects order.core (not_not.mp hstate)

theorem move_rejectByProvider : Move .party order.core (rejectByProvider user today order).core := by
  unfold rejectByProvider
  split
  · exact .idle _ _
  · next hstate => exact .providerRejects order.core (not_not.mp hstate)

theorem move_cancel {isSupport : Bool} : Move .party order.core (cancel isSupport today order).core := by
  unfold cancel
  split
  · exact .idle _ _
  split
  · next hstate =>
    refine .cancels order.core fun hrejected => ?_
    change order.state = .rejected at hrejected
    rw [hrejected] at hstate
    simp at hstate
  · exact .idle _ _

theorem move_agentExecuting : Move .agent order.core (agentSetStateExecuting order).core := by
  unfold agentSetStateExecuting
  split
  · exact .idle _ _
  next htype =>
  split
  · next hstate => exact .agentExecutes order.core (not_not.mp htype) hstate
  · exact .idle _ _

theorem move_agentErred : Move .agent order.core (agentSetStateErred order).core := by
  unfold agentSetStateErred
  split
  · exact .idle _ _
  · next htype => exact .agentFails order.core (not_not.mp htype)

theorem move_retry {supportsRetry : Bool} : Move .retry order.core (retry supportsRetry order).core := by
  unfold retry
  split
  · exact .idle _ _
  split
  · exact .idle _ _
  next hstate =>
  split
  · exact .idle _ _
  · exact .retries order.core (not_not.mp hstate)

theorem move_setOrderState {newState : OrderState} :
    Move .party order.core (setOrderState newState today order).core := by
  unfold setOrderState
  split
  · exact .idle _ _
  next hstate =>
  have hexecuting : order.core.state = .executing := not_not.mp hstate
  cases newState with
  | done => exact .completes order.core hexecuting
  | erred => exact .fails order.core (Or.inl hexecuting)
  | canceled => exact .cancels order.core (by rw [hexecuting]; exact nofun)
  | _ => exact .idle _ _

theorem move_failAfterTimeout : Move .party order.core (failAfterTimeout today order).core := by
  unfold failAfterTimeout
  split
  · exact .idle _ _
  · next hstate => exact .fails order.core (Or.inl (not_not.mp hstate))

theorem move_processingFailed : Move .party order.core (processingFailed order).core := by
  unfold processingFailed
  split
  · exact .idle _ _
  · next hsent => exact .fails order.core (Or.inr (Nat.pos_of_ne_zero hsent))

theorem move_startDateSweep : Move .party order.core (processPendingStartDateOrder today order).core := by
  unfold processPendingStartDateOrder
  split
  · next h => exact .startToProcessor order.core h.1
  · exact .idle _ _

theorem move_projectSweep : Move .party order.core (processPendingProjectOrder today order).core := by
  unfold processPendingProjectOrder continueOrderProcessing
  split
  · next h =>
    split
    · next hreview =>
      split
      · exact .projectToStart order.core h.1 (needsProvider_of_review hreview)
      · exact .projectToProcessor order.core h.1 (needsProvider_of_review hreview)
    · exact .projectToProvider order.core h.1
  · exact .idle _ _

/-- **Every step is one of the moves.** -/
theorem move_step (order : Order) (op : Op × ℤ × Bool) : Move op.1.actor order.core (step order op).core := by
  obtain ⟨op, today, enabled⟩ := op
  cases op with
  | approveByConsumer user => exact move_approveByConsumer
  | confirmPendingTerminate reviewer => exact move_confirmPendingTerminate
  | autoApprove rules can => exact move_tryApply
  | approveByProvider user => exact move_approveByProvider
  | rejectByConsumer user => exact move_rejectByConsumer
  | rejectByProvider user => exact move_rejectByProvider
  | cancel isSupport => exact move_cancel
  | agentExecuting => exact move_agentExecuting
  | agentErred => exact move_agentErred
  | retry supportsRetry => exact move_retry
  | callback newState => exact move_setOrderState
  | timeout => exact move_failAfterTimeout
  | processingFailed => exact move_processingFailed
  | startDateSweep => exact move_startDateSweep
  | projectSweep => exact move_projectSweep
  | edit limits startDate =>
    show Move .party order.core (ite _ _ _ : Order).core
    split <;> exact .idle _ _
  | attach attachment => exact .idle _ _
  | configure projectStartDate offering placement => exact .idle _ _

theorem core_clearedByCreator : (order.clearedByCreator today).core = { order.core with consumerReviewed := true } := by
  unfold Order.clearedByCreator
  cases hreviewed : order.consumerReviewedBy with
  | none => rfl
  | some reviewer =>
    rw [if_neg (by simp)]
    unfold Order.core
    rw [hreviewed]
    rfl

theorem move_moveOn {cleared : Order} (hcore : cleared.core = { order.core with consumerReviewed := true })
    (hstate : order.state = .pendingConsumer) : Move .party order.core (cleared.moveOn today).core := by
  unfold Order.moveOn
  split
  · change Move .party order.core { cleared.core with state := .pendingProject }
    rw [hcore]
    exact .consumerToProvider order.core .pendingProject hstate (Or.inl rfl)
  split
  · next hreview =>
    have hfree := needsProvider_of_review hreview
    rw [hcore] at hfree
    change Move .party order.core { cleared.core with state := .executing, sent := cleared.core.sent + 1 }
    rw [hcore]
    exact .consumerToProcessor order.core hstate hfree
  · change Move .party order.core { cleared.core with state := .pendingProvider }
    rw [hcore]
    exact .consumerToProvider order.core .pendingProvider hstate (Or.inr rfl)

/-- An order that is placed waits for its consumer, or moves on as if he had cleared it. -/
theorem move_placed (hstate : order.state = .pendingConsumer) :
    Move .party order.core (notifyApproversWhenOrderIsCreated today order).core := by
  unfold notifyApproversWhenOrderIsCreated
  rw [if_pos (Or.inl hstate)]
  split
  · exact move_moveOn core_clearedByCreator hstate
  · exact .idle _ _

/-! ## Reviews -/

/-- Past its consumer. -/
def Core.pastConsumer (c : Core) : Bool :=
  (c.state ≠ .pendingConsumer && c.state ≠ .rejected && c.state ≠ .canceled) || 0 < c.sent

/-- Past its provider. -/
def Core.pastProvider (c : Core) : Bool :=
  c.state = .pendingStartDate || c.state = .executing || c.state = .done || c.state = .erred || 0 < c.sent

/-- **The reviews of an order**: past its consumer it has been reviewed by him, and past its provider by him, if the
offering needs that. -/
structure Reviewed (c : Core) : Prop where
  consumer : c.pastConsumer = true → c.consumerReviewed = true
  provider : c.pastProvider = true → c.needsProvider = true → c.providerReviewed = true

theorem pastConsumer_iff : c.pastConsumer = true ↔
    (c.state ≠ .pendingConsumer ∧ c.state ≠ .rejected ∧ c.state ≠ .canceled) ∨ 0 < c.sent := by
  unfold Core.pastConsumer
  simp only [Bool.or_eq_true, Bool.and_eq_true, decide_eq_true_eq, and_assoc]

theorem pastProvider_iff : c.pastProvider = true ↔
    c.state = .pendingStartDate ∨ c.state = .executing ∨ c.state = .done ∨ c.state = .erred ∨ 0 < c.sent := by
  unfold Core.pastProvider
  simp only [Bool.or_eq_true, decide_eq_true_eq, or_assoc]

theorem Reviewed.consumer_of_state (h : Reviewed c) {state : OrderState} (hstate : c.state = state)
    (hpast : state ≠ .pendingConsumer ∧ state ≠ .rejected ∧ state ≠ .canceled) : c.consumerReviewed = true :=
  h.consumer (pastConsumer_iff.mpr (Or.inl (hstate ▸ hpast)))

/-- A step of a party or a retry skips no review. -/
theorem Reviewed.move (h : Reviewed c) (hmove : Move actor c c') (hactor : actor ≠ .agent) : Reviewed c' := by
  have hconsumer := h.consumer
  have hprovider := h.provider
  rw [pastConsumer_iff] at hconsumer
  rw [pastProvider_iff] at hprovider
  have hsent : 0 < c.sent → c.needsProvider = true → c.providerReviewed = true :=
    fun hsent => hprovider (Or.inr (Or.inr (Or.inr (Or.inr hsent))))
  cases hmove with
  | idle => exact h
  | consumerToProvider _ state _ hto =>
    refine ⟨fun _ => rfl, fun hpast => hsent ?_⟩
    have hpast' := pastProvider_iff.mp hpast
    rcases hto with rfl | rfl <;> simpa using hpast'
  | consumerToStart _ _ hfree => exact ⟨fun _ => rfl, fun _ hneeds => nomatch hfree.symm.trans hneeds⟩
  | consumerToProcessor _ _ hfree =>
    exact ⟨fun _ => rfl, fun _ hneeds => nomatch hfree.symm.trans hneeds⟩
  | projectToProvider _ hstate =>
    refine ⟨fun _ => h.consumer_of_state hstate (by decide), fun hpast => hsent ?_⟩
    simpa using pastProvider_iff.mp hpast
  | projectToStart _ hstate hfree =>
    exact ⟨fun _ => h.consumer_of_state hstate (by decide),
      fun _ hneeds => nomatch hfree.symm.trans hneeds⟩
  | projectToProcessor _ hstate hfree =>
    exact ⟨fun _ => h.consumer_of_state hstate (by decide),
      fun _ hneeds => nomatch hfree.symm.trans hneeds⟩
  | providerToStart _ hstate => exact ⟨fun _ => h.consumer_of_state hstate (by decide), fun _ _ => rfl⟩
  | providerToProcessor _ hstate => exact ⟨fun _ => h.consumer_of_state hstate (by decide), fun _ _ => rfl⟩
  | startToProcessor _ hstate =>
    exact ⟨fun _ => h.consumer_of_state hstate (by decide), fun _ => hprovider (Or.inl hstate)⟩
  | consumerRejects _ hstate =>
    refine ⟨fun _ => rfl, fun hpast => hsent ?_⟩
    simpa using pastProvider_iff.mp hpast
  | providerRejects _ hstate =>
    exact ⟨fun _ => h.consumer_of_state hstate (by decide), fun _ _ => rfl⟩
  | cancels _ hstate =>
    refine ⟨fun hpast => hconsumer (Or.inr ?_), fun hpast => hsent ?_⟩
    · simpa using pastConsumer_iff.mp hpast
    · simpa using pastProvider_iff.mp hpast
  | completes _ hstate =>
    exact ⟨fun _ => h.consumer_of_state hstate (by decide),
      fun _ hneeds => hprovider (Or.inr (Or.inl hstate)) hneeds⟩
  | fails _ hfrom =>
    refine ⟨fun _ => hconsumer ?_, fun _ hneeds => hprovider ?_ hneeds⟩
    · exact hfrom.imp (fun hstate => by rw [hstate]; exact ⟨nofun, nofun, nofun⟩) id
    · exact hfrom.elim (fun hstate => Or.inr (Or.inl hstate)) fun hsent' => Or.inr (Or.inr (Or.inr (Or.inr hsent')))
  | retries _ hstate =>
    exact ⟨fun _ => h.consumer_of_state hstate (by decide),
      fun _ hneeds => hprovider (Or.inr (Or.inr (Or.inr (Or.inl hstate)))) hneeds⟩
  | agentExecutes => exact absurd rfl hactor
  | agentFails => exact absurd rfl hactor

theorem needsProvider_of_agent (h : c.type = .siteAgent) : c.needsProvider = true := by
  unfold Core.needsProvider
  rw [h]
  rfl

/-- An order of an agent that is made to execute, or to fail, counts as past both reviews. -/
theorem reviewed_agent_iff (htype : c.type = .siteAgent) (hstate : c.state = .executing ∨ c.state = .erred) :
    Reviewed c ↔ c.consumerReviewed = true ∧ c.providerReviewed = true := by
  have hconsumer : c.pastConsumer = true := by
    refine pastConsumer_iff.mpr (Or.inl ?_)
    rcases hstate with hstate | hstate <;> rw [hstate] <;> decide
  have hprovider : c.pastProvider = true :=
    pastProvider_iff.mpr (hstate.elim (fun h => Or.inr (Or.inl h)) fun h => Or.inr (Or.inr (Or.inr (Or.inl h))))
  exact ⟨fun h => ⟨h.consumer hconsumer, h.provider hprovider (needsProvider_of_agent htype)⟩,
    fun h => ⟨fun _ => h.1, fun _ _ => h.2⟩⟩

/-- **What an agent must not do**: execute an order that waits for a review, or fail one, before both reviews. -/
def Clean (order : Order) : Op × ℤ × Bool → Prop
  | (.agentExecuting, _, _) =>
    order.offering.type = .siteAgent → order.state = .pendingConsumer ∨ order.state = .pendingProvider →
      order.consumerReviewedBy.isSome = true ∧ order.providerReviewedBy.isSome = true
  | (.agentErred, _, _) => order.offering.type = .siteAgent →
      order.consumerReviewedBy.isSome = true ∧ order.providerReviewedBy.isSome = true
  | _ => True

theorem reviewed_agentExecuting (h : Reviewed order.core) : Reviewed (agentSetStateExecuting order).core ↔
    (order.offering.type = .siteAgent → order.state = .pendingConsumer ∨ order.state = .pendingProvider →
      order.consumerReviewedBy.isSome = true ∧ order.providerReviewedBy.isSome = true) := by
  unfold agentSetStateExecuting
  split
  · next htype => exact iff_of_true h fun htype' => absurd htype' htype
  next htype =>
  split
  · next hstate =>
    have hexecuting : Reviewed ({ order with state := .executing } : Order).core ↔
        order.consumerReviewedBy.isSome = true ∧ order.providerReviewedBy.isSome = true :=
      reviewed_agent_iff (not_not.mp htype) (Or.inl rfl)
    refine hexecuting.trans ⟨fun hreviewed _ _ => hreviewed, fun hclean => ?_⟩
    rcases hstate with hstate | hstate | hstate
    · exact hclean (not_not.mp htype) (Or.inl hstate)
    · exact hclean (not_not.mp htype) (Or.inr hstate)
    · exact (reviewed_agent_iff (c := order.core) (not_not.mp htype) (Or.inr hstate)).mp h
  · next hstate => exact iff_of_true h fun _ hpending => absurd (hpending.imp_right Or.inl) hstate

theorem reviewed_agentErred (h : Reviewed order.core) : Reviewed (agentSetStateErred order).core ↔
    (order.offering.type = .siteAgent →
      order.consumerReviewedBy.isSome = true ∧ order.providerReviewedBy.isSome = true) := by
  unfold agentSetStateErred
  split
  · next htype => exact iff_of_true h fun htype' => absurd htype' htype
  · next htype =>
    have herred : Reviewed ({ order with state := .erred } : Order).core ↔
        order.consumerReviewedBy.isSome = true ∧ order.providerReviewedBy.isSome = true :=
      reviewed_agent_iff (not_not.mp htype) (Or.inr rfl)
    exact herred.trans ⟨fun hreviewed _ => hreviewed, fun hclean => hclean (not_not.mp htype)⟩

/-- **One step**: a reviewed order stays reviewed exactly where the step is clean. -/
theorem reviewed_step_iff (op : Op × ℤ × Bool) (h : Reviewed order.core) :
    Reviewed (step order op).core ↔ Clean order op := by
  have hmove := move_step order op
  obtain ⟨op, today, enabled⟩ := op
  by_cases hactor : op.actor = .agent
  · cases op with
    | agentExecuting => exact reviewed_agentExecuting h
    | agentErred => exact reviewed_agentErred h
    | _ => exact nomatch hactor
  · refine iff_of_true (h.move hmove hactor) ?_
    cases op with
    | agentExecuting => exact absurd rfl hactor
    | agentErred => exact absurd rfl hactor
    | _ => trivial

theorem reviewed_placed (hstate : order.state = .pendingConsumer) (hsent : order.sent = 0) :
    Reviewed (notifyApproversWhenOrderIsCreated today order).core := by
  have hconsumer : ¬ order.core.pastConsumer = true := by
    rw [pastConsumer_iff]
    change ¬ (order.state ≠ _ ∧ order.state ≠ _ ∧ order.state ≠ _ ∨ 0 < order.sent)
    rw [hstate, hsent]
    decide
  have hprovider : ¬ order.core.pastProvider = true := by
    rw [pastProvider_iff]
    change ¬ (order.state = _ ∨ order.state = _ ∨ order.state = _ ∨ order.state = _ ∨ 0 < order.sent)
    rw [hstate, hsent]
    decide
  have hplaced : Reviewed order.core := ⟨fun h => absurd h hconsumer, fun h => absurd h hprovider⟩
  exact hplaced.move (move_placed hstate) nofun

/-- **No order is processed without its reviews, exactly in the clean runs**: from the time it is placed, an order
past its consumer was reviewed by him, and past its provider by him if the offering needs that. -/
theorem reviewed_iff (order : Order) (today : ℤ) (ops : List (Op × ℤ × Bool)) (hstate : order.state = .pendingConsumer)
    (hsent : order.sent = 0) :
    Along step (fun order op => Reviewed (step order op).core) (notifyApproversWhenOrderIsCreated today order) ops ↔
      Along step Clean (notifyApproversWhenOrderIsCreated today order) ops :=
  @along_congr _ _ step (fun order => Reviewed order.core) _ _ (fun _ op h => reviewed_step_iff op h)
    (fun _ _ _ h => h) ops _ (reviewed_placed hstate hsent)

/-- An order for an agent: its consumer approves it, its provider approves it, and the agent reports that it failed. -/
def reported : List (Op × ℤ × Bool) :=
  [(.approveByConsumer 7, 1, true), (.agentErred, 1, true), (.approveByProvider 8, 2, true), (.retry true, 3, true)]

def agentOrder : Order := { id := 1, project := 1, offering := { type := .siteAgent }, plan := none, createdBy := 5 }

theorem reviewed_reported :
    Along step (fun order op => Reviewed (step order op).core) (notifyApproversWhenOrderIsCreated 0 agentOrder)
        reported ↔
      Along step Clean (notifyApproversWhenOrderIsCreated 0 agentOrder) reported :=
  reviewed_iff agentOrder 0 reported rfl rfl

/-! ## How often an order is handed over -/

/-- The states before an order is handed over, and the one where it never is. -/
def Core.waits (c : Core) : Bool :=
  c.state = .pendingConsumer || c.state = .pendingProject || c.state = .pendingProvider ||
    c.state = .pendingStartDate || c.state = .rejected

theorem waits_iff : c.waits = true ↔ c.state = .pendingConsumer ∨ c.state = .pendingProject ∨
    c.state = .pendingProvider ∨ c.state = .pendingStartDate ∨ c.state = .rejected := by
  unfold Core.waits
  simp only [Bool.or_eq_true, decide_eq_true_eq, or_assoc]

/-- An order after a number of retries: one that waits was never handed over. -/
structure Counted (c : Core) (retries : ℕ) : Prop where
  sent_le : c.sent ≤ retries + 1
  waits : c.waits = true → c.sent = 0

/-- The retries of a run. -/
def retries (ops : List (Op × ℤ × Bool)) : ℕ := ops.countP fun op => op.1.actor = .retry

variable {n : ℕ}

/-- A waiting order is handed over at most once. -/
theorem Counted.handOver (h : Counted c n) (hwaits : c.waits = true) (consumer provider : Bool) :
    Counted { c with
      state := .executing
      consumerReviewed := consumer
      providerReviewed := provider
      sent := c.sent + 1 } n := by
  refine ⟨?_, fun hwaits' => nomatch hwaits'⟩
  change c.sent + 1 ≤ n + 1
  rw [h.waits hwaits]
  omega

/-- An order that moves on without being handed over. -/
theorem Counted.moveOn (h : Counted c n) (state : OrderState) (consumer provider : Bool)
    (hwaits : ({ c with state := state } : Core).waits = true → c.waits = true) :
    Counted { c with state := state, consumerReviewed := consumer, providerReviewed := provider } n :=
  ⟨h.sent_le, fun hwaits' => h.waits (hwaits hwaits')⟩

/-- **One move**: only a retry hands over an order that was handed over before. -/
theorem Counted.move (h : Counted c n) (hmove : Move actor c c') :
    Counted c' (n + if actor = .retry then 1 else 0) := by
  have hmore : Counted c (n + if actor = .retry then 1 else 0) :=
    ⟨h.sent_le.trans (Nat.add_le_add_right (Nat.le_add_right _ _) 1), h.waits⟩
  cases hmove with
  | idle => exact hmore
  | consumerToProvider _ state hstate => exact hmore.moveOn state true _ fun _ => waits_iff.mpr (Or.inl hstate)
  | consumerToStart _ hstate => exact hmore.moveOn _ true _ fun _ => waits_iff.mpr (Or.inl hstate)
  | consumerToProcessor _ hstate => exact hmore.handOver (waits_iff.mpr (Or.inl hstate)) true _
  | projectToProvider _ hstate => exact hmore.moveOn _ _ _ fun _ => waits_iff.mpr (Or.inr (Or.inl hstate))
  | projectToStart _ hstate => exact hmore.moveOn _ _ _ fun _ => waits_iff.mpr (Or.inr (Or.inl hstate))
  | projectToProcessor _ hstate => exact hmore.handOver (waits_iff.mpr (Or.inr (Or.inl hstate))) _ _
  | providerToStart _ hstate => exact hmore.moveOn _ _ true fun _ => waits_iff.mpr (Or.inr (Or.inr (Or.inl hstate)))
  | providerToProcessor _ hstate =>
    exact hmore.handOver (waits_iff.mpr (Or.inr (Or.inr (Or.inl hstate)))) _ true
  | startToProcessor _ hstate =>
    exact hmore.handOver (waits_iff.mpr (Or.inr (Or.inr (Or.inr (Or.inl hstate))))) _ _
  | consumerRejects _ hstate => exact hmore.moveOn _ true _ fun _ => waits_iff.mpr (Or.inl hstate)
  | providerRejects _ hstate => exact hmore.moveOn _ _ true fun _ => waits_iff.mpr (Or.inr (Or.inr (Or.inl hstate)))
  | retries _ hstate =>
    refine ⟨?_, fun hwaits => nomatch hwaits⟩
    have hsent := h.sent_le
    change c.sent + 1 ≤ n + 1 + 1
    omega
  | cancels => exact hmore.moveOn _ _ _ nofun
  | completes => exact hmore.moveOn _ _ _ nofun
  | fails => exact hmore.moveOn _ _ _ nofun
  | agentExecutes => exact hmore.moveOn _ _ _ nofun
  | agentFails => exact hmore.moveOn _ _ _ nofun

/-- **A run.** -/
theorem Counted.run : ∀ (ops : List (Op × ℤ × Bool)) (order : Order) (n : ℕ), Counted order.core n →
    Counted (Runs.run step order ops).core (n + retries ops)
  | [], _, _, h => h
  | op :: ops, order, n, h => by
    have hrest := Counted.run ops (step order op) _ (h.move (move_step order op))
    have hcount : retries (op :: ops) = retries ops + if op.1.actor = .retry then 1 else 0 := by
      unfold retries
      rw [List.countP_cons]
      simp only [decide_eq_true_eq]
    rw [run_cons, hcount, Nat.add_comm (retries ops), ← Nat.add_assoc]
    exact hrest

theorem counted_placed (hstate : order.state = .pendingConsumer) (hsent : order.sent = 0) :
    Counted (notifyApproversWhenOrderIsCreated today order).core 0 := by
  have hplaced : Counted order.core 0 := ⟨hsent.trans_le (Nat.zero_le _), fun _ => hsent⟩
  exact hplaced.move (move_placed hstate)

theorem Move.type_eq (h : Move actor c c') : c'.type = c.type := by
  cases h <;> rfl

theorem type_run (ops : List (Op × ℤ × Bool)) (order : Order) :
    (run step order ops).core.type = order.core.type :=
  @run_invariant _ _ step (fun order' => order'.core.type = order.core.type)
    (fun order' op h => (move_step order' op).type_eq.trans h) ops order rfl

/-- No move leads out of a rejection, other than those of an agent. -/
theorem Move.of_rejected (h : Move actor c c') (hstate : c.state = .rejected) (hsent : c.sent = 0)
    (htype : c.type ≠ .siteAgent) : c' = c := by
  cases h with
  | idle => rfl
  | cancels _ hfrom => exact absurd hstate hfrom
  | fails _ hfrom =>
    rcases hfrom with hfrom | hfrom
    · exact nomatch hstate.symm.trans hfrom
    · rw [hsent] at hfrom
      exact nomatch hfrom
  | agentExecutes _ hagent => exact absurd hagent htype
  | agentFails _ hagent => exact absurd hagent htype
  | _ => simp_all

theorem run_of_rejected (ops : List (Op × ℤ × Bool)) (order : Order) (hstate : order.core.state = .rejected)
    (hsent : order.core.sent = 0) (htype : order.core.type ≠ .siteAgent) : (run step order ops).core = order.core :=
  @run_invariant _ _ step (fun order' => order'.core = order.core)
    (fun order' op h => by
      have hmove := move_step order' op
      rw [h] at hmove
      exact hmove.of_rejected hstate hsent htype) ops order rfl

/-- **How often an order is handed over**: from the time it is placed at most once, and once more for each retry.  One
that is rejected never is, and stays rejected whatever happens to it, unless it is for an agent. -/
theorem sent_le (order : Order) (today : ℤ) (ops more : List (Op × ℤ × Bool)) (hstate : order.state = .pendingConsumer)
    (hsent : order.sent = 0) :
    (run step (notifyApproversWhenOrderIsCreated today order) ops).sent ≤ retries ops + 1 ∧
      ((run step (notifyApproversWhenOrderIsCreated today order) ops).state = .rejected →
        (run step (notifyApproversWhenOrderIsCreated today order) ops).sent = 0 ∧
        (order.offering.type ≠ .siteAgent →
          (run step (run step (notifyApproversWhenOrderIsCreated today order) ops) more).state = .rejected ∧
          (run step (run step (notifyApproversWhenOrderIsCreated today order) ops) more).sent = 0)) := by
  have hplaced : Counted (notifyApproversWhenOrderIsCreated today order).core 0 := counted_placed hstate hsent
  have hcounted := Counted.run ops _ 0 hplaced
  rw [Nat.zero_add] at hcounted
  refine ⟨hcounted.sent_le, fun hrejected => ?_⟩
  have hzero := hcounted.waits (waits_iff.mpr (Or.inr (Or.inr (Or.inr (Or.inr hrejected)))))
  refine ⟨hzero, fun htype => ?_⟩
  have htype' : (run step (notifyApproversWhenOrderIsCreated today order) ops).core.type ≠ .siteAgent := by
    rw [type_run, (move_placed hstate).type_eq]
    exact htype
  have hcore := run_of_rejected more _ hrejected hzero htype'
  exact ⟨(congrArg Core.state hcore).trans hrejected, (congrArg Core.sent hcore).trans hzero⟩

/-- An order of a basic offering, and its rejection by its provider. -/
def basicOrder : Order := { agentOrder with offering := { type := .basic } }

def turnedDown : List (Op × ℤ × Bool) := [(.approveByConsumer 7, 1, true), (.rejectByProvider 8, 2, true)]

theorem sent_rejected :
    (run step (notifyApproversWhenOrderIsCreated 0 basicOrder) turnedDown).sent ≤ retries turnedDown + 1 ∧
      ((run step (notifyApproversWhenOrderIsCreated 0 basicOrder) turnedDown).state = .rejected →
        (run step (notifyApproversWhenOrderIsCreated 0 basicOrder) turnedDown).sent = 0 ∧
        (basicOrder.offering.type ≠ .siteAgent →
          (run step (run step (notifyApproversWhenOrderIsCreated 0 basicOrder) turnedDown) reported).state = .rejected ∧
          (run step (run step (notifyApproversWhenOrderIsCreated 0 basicOrder) turnedDown) reported).sent = 0)) :=
  sent_le basicOrder 0 turnedDown reported rfl rfl

end Waldur.Marketplace.OrderReviews
