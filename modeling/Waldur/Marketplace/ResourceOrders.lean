import Mathlib
import Waldur.Lib.TableCounts
import Waldur.Marketplace.OrderReviews

/-!
# Marketplace.ResourceOrders — the orders of one resource

A resource is to have one open order at a time: the reports of its backend name the type of an order and not the order
itself.  `check_pending_order_exists` looks for an order in review or at its processor, and so misses one that waits
for its project or for its start date; an erred order is taken up again, and a cost policy orders a termination,
whatever else is open.  `Calm` is exactly what is left (`lone_iff`), and then every report is heard.
-/

namespace Waldur.Marketplace.ResourceOrders

open OrderReviews (Order Op notifyApproversWhenOrderIsCreated)
open Relational Runs

/-! ## What keeps the id -/

section Id

variable (order : Order)

theorem id_moveTo (state : OrderState) : (order.moveTo state).id = order.id := by
  unfold OrderReviews.Order.moveTo
  split <;> rfl

theorem id_moveOn (today : ℤ) : (order.moveOn today).id = order.id := by
  unfold OrderReviews.Order.moveOn
  split
  · rfl
  · split <;> rfl

theorem id_clearedByCreator (today : ℤ) : (order.clearedByCreator today).id = order.id := by
  unfold OrderReviews.Order.clearedByCreator
  split <;> rfl

theorem id_notifyApprovers (today : ℤ) : (notifyApproversWhenOrderIsCreated today order).id = order.id := by
  unfold notifyApproversWhenOrderIsCreated
  split
  · split
    · rw [id_moveOn, id_clearedByCreator]
    · rfl
  · rfl

theorem id_setOrderState (newState : OrderState) (today : ℤ) :
    (OrderReviews.setOrderState newState today order).id = order.id := by
  unfold OrderReviews.setOrderState
  split
  · rfl
  · cases newState <;> rfl

theorem id_tryApply (enabled : Bool) (rules : AutoApproval.Rules) (can : ℕ → Bool) (today : ℤ) :
    (OrderReviews.tryApplyProjectAutoApproval enabled rules can today order).id = order.id := by
  unfold OrderReviews.tryApplyProjectAutoApproval
  split
  · rfl
  split
  · rfl
  split
  · rfl
  · exact id_moveTo _ _

theorem id_projectSweep (today : ℤ) : (OrderReviews.processPendingProjectOrder today order).id = order.id := by
  unfold OrderReviews.processPendingProjectOrder OrderReviews.continueOrderProcessing
  split
  · split
    · split <;> rfl
    · rfl
  · rfl

theorem id_step (op : Op × ℤ × Bool) : (OrderReviews.step order op).id = order.id := by
  obtain ⟨op, today, enabled⟩ := op
  cases op with
  | approveByConsumer user =>
    change (OrderReviews.approveByConsumer enabled user today order).id = order.id
    unfold OrderReviews.approveByConsumer
    split
    · rfl
    · split
      · rfl
      · exact id_moveTo _ _
  | confirmPendingTerminate reviewer =>
    change (OrderReviews.confirmPendingTerminateOrder enabled reviewer today order).id = order.id
    unfold OrderReviews.confirmPendingTerminateOrder
    split
    · rfl
    · split
      · rfl
      · exact id_moveTo _ _
  | autoApprove rules can => exact id_tryApply order enabled rules can today
  | approveByProvider user =>
    change (OrderReviews.approveByProvider enabled user today order).id = order.id
    unfold OrderReviews.approveByProvider
    split
    · rfl
    · dsimp only
      split <;> rfl
  | rejectByConsumer user =>
    change (OrderReviews.rejectByConsumer user today order).id = order.id
    unfold OrderReviews.rejectByConsumer
    split
    · rfl
    · split
      · rfl
      · split <;> rfl
  | rejectByProvider user =>
    change (OrderReviews.rejectByProvider user today order).id = order.id
    unfold OrderReviews.rejectByProvider
    split <;> rfl
  | cancel isSupport =>
    change (OrderReviews.cancel isSupport today order).id = order.id
    unfold OrderReviews.cancel
    split
    · rfl
    · split <;> rfl
  | agentExecuting =>
    change (OrderReviews.agentSetStateExecuting order).id = order.id
    unfold OrderReviews.agentSetStateExecuting
    split
    · rfl
    · split <;> rfl
  | agentErred =>
    change (OrderReviews.agentSetStateErred order).id = order.id
    unfold OrderReviews.agentSetStateErred
    split <;> rfl
  | retry supportsRetry =>
    change (OrderReviews.retry supportsRetry order).id = order.id
    unfold OrderReviews.retry
    split
    · rfl
    · split
      · rfl
      · split <;> rfl
  | callback newState => exact id_setOrderState order newState today
  | timeout =>
    change (OrderReviews.failAfterTimeout today order).id = order.id
    unfold OrderReviews.failAfterTimeout
    split <;> rfl
  | processingFailed =>
    change (OrderReviews.processingFailed order).id = order.id
    unfold OrderReviews.processingFailed
    split <;> rfl
  | startDateSweep =>
    change (OrderReviews.processPendingStartDateOrder today order).id = order.id
    unfold OrderReviews.processPendingStartDateOrder
    split <;> rfl
  | projectSweep => exact id_projectSweep order today
  | edit limits startDate =>
    change (ite _ _ _ : Order).id = order.id
    split <;> rfl
  | attach attachment => rfl
  | configure projectStartDate offering placement => rfl

end Id

/-! ## The code -/

/-- The orders of a resource. -/
abbrev Orders := Table ℕ Order (fun order => order.id)

/-- `TERMINAL_STATES`. -/
def terminalStates : List OrderState := [.done, .erred, .canceled, .rejected]

def isOpen (order : Order) : Bool := decide (order.state ∉ terminalStates)

/-- `check_pending_order_exists`. -/
def checkPendingOrderExists (orders : Orders) : Bool :=
  orders.rows.any fun order =>
    order.state = .pendingConsumer || order.state = .pendingProvider || order.state = .executing

/-- `Order.save` of a new order, after `validate_order`. -/
def place (order : Order) (today : ℤ) (orders : Orders) : Orders :=
  if checkPendingOrderExists orders then orders
  else orders.add (fun id => notifyApproversWhenOrderIsCreated today
    { order with id := id, state := .pendingConsumer, sent := 0 }) fun _ => id_notifyApprovers _ _

/-- The order that `policy_actions.terminate_resources` places. -/
def terminateByPolicy (order : Order) (orders : Orders) : Orders :=
  orders.add (fun id => { order with id := id, type := .terminate, state := .executing, sent := 1 }) fun _ => rfl

/-- The orders that `set_order_state` looks for. -/
def isExecuting (type : AutoApproval.OrderType) (order : Order) : Bool := order.type = type && order.state = .executing

/-- `set_order_state`: where there is no such order, or more than one, nothing happens. -/
def setOrderState (type : AutoApproval.OrderType) (newState : OrderState) (today : ℤ) (orders : Orders) : Orders :=
  match orders.rows.filter (isExecuting type) with
  | [order] =>
    orders.update order.id (OrderReviews.setOrderState newState today) fun order =>
      id_setOrderState order newState today
  | _ => orders

/-- `OrderViewSet.destroy`. -/
def destroy (id : ℕ) (orders : Orders) : Orders :=
  orders.filter fun order => !(order.id = id && (order.state = .pendingConsumer || order.state = .pendingProvider))

/-- What happens to the orders of a resource: the steps of one of them but for the callbacks, which name its type. -/
inductive ResourceOp
  | place (order : Order)
  | terminateByPolicy (order : Order)
  | act (id : ℕ) (op : Op)
  | report (type : AutoApproval.OrderType) (newState : OrderState)
  | destroy (id : ℕ)

def isCallback : Op → Bool
  | .callback _ => true
  | _ => false

/-- One step, on a day and under a setting of `ENABLE_ORDER_START_DATE`. -/
def step (orders : Orders) : ResourceOp × ℤ × Bool → Orders
  | (.place order, today, _) => place order today orders
  | (.terminateByPolicy order, _, _) => terminateByPolicy order orders
  | (.act id op, today, enabled) =>
    if isCallback op then orders
    else orders.update id (fun order => OrderReviews.step order (op, today, enabled)) fun order => id_step order _
  | (.report type newState, today, _) => setOrderState type newState today orders
  | (.destroy id, _, _) => destroy id orders

/-! ## One at a time -/

section Lone

variable {order : Order} {orders : Orders}

/-- An action takes an erred order up again. -/
def TakesUp (order : Order) : Op → Prop
  | .agentExecuting => order.state = .erred ∧ order.offering.type = .siteAgent
  | .retry supportsRetry => order.state = .erred ∧ supportsRetry = true ∧ order.type ≠ .restore
  | _ => False

/-- No order is placed over one that `check_pending_order_exists` misses, and none is taken up, or ordered by a policy,
while another is open. -/
def Calm (orders : Orders) : ResourceOp × ℤ × Bool → Prop
  | (.place _, _, _) => ∀ order ∈ orders.rows, order.state ≠ .pendingProject ∧ order.state ≠ .pendingStartDate
  | (.terminateByPolicy _, _, _) => ∀ order ∈ orders.rows, isOpen order = false
  | (.act id op, _, _) =>
    ∀ order, orders.get? id = some order → TakesUp order op → ∀ order ∈ orders.rows, isOpen order = false
  | (.report _ _, _, _) => True
  | (.destroy _, _, _) => True

/-- At most one order is open. -/
def Lone (orders : Orders) : Prop := orders.count isOpen ≤ 1

theorem isOpen_eq_false : isOpen order = false ↔ order.state ∈ terminalStates := by
  unfold isOpen
  rw [decide_eq_false_iff_not, not_not]

theorem count_eq_zero : orders.count isOpen = 0 ↔ ∀ order ∈ orders.rows, isOpen order = false := by
  unfold Table.count
  simp only [List.countP_eq_zero, Bool.not_eq_true]

/-- What the parties and the sweeps do to a closed order leaves it closed. -/
theorem closed_of_move {c c' : OrderReviews.Core} (h : OrderReviews.Move .party c c')
    (hclosed : c.state ∈ terminalStates) : c'.state ∈ terminalStates := by
  have hopen {state : OrderState} (hstate : c.state = state) (hnot : state ∉ terminalStates) :
      c'.state ∈ terminalStates := absurd (hstate ▸ hclosed) hnot
  cases h with
  | idle => exact hclosed
  | consumerToProvider _ _ from_state => exact hopen from_state (by decide)
  | consumerToStart _ from_state => exact hopen from_state (by decide)
  | consumerToProcessor _ from_state => exact hopen from_state (by decide)
  | projectToProvider _ from_state => exact hopen from_state (by decide)
  | projectToStart _ from_state => exact hopen from_state (by decide)
  | projectToProcessor _ from_state => exact hopen from_state (by decide)
  | providerToStart _ from_state => exact hopen from_state (by decide)
  | providerToProcessor _ from_state => exact hopen from_state (by decide)
  | startToProcessor _ from_state => exact hopen from_state (by decide)
  | consumerRejects => simp [terminalStates]
  | providerRejects => simp [terminalStates]
  | cancels => simp [terminalStates]
  | completes => simp [terminalStates]
  | fails => simp [terminalStates]

/-- A closed order is open after a step exactly if the step takes it up. -/
theorem open_step_iff (hclosed : isOpen order = false) (op : Op) (today : ℤ) (enabled : Bool) :
    isOpen (OrderReviews.step order (op, today, enabled)) = true ↔ TakesUp order op := by
  have hstates := isOpen_eq_false.mp hclosed
  have hparty (hactor : op.actor = .party) : isOpen (OrderReviews.step order (op, today, enabled)) = false := by
    have hmove := OrderReviews.move_step order (op, today, enabled)
    rw [hactor] at hmove
    exact isOpen_eq_false.mpr (closed_of_move hmove hstates)
  cases op with
  | agentExecuting =>
    change isOpen (OrderReviews.agentSetStateExecuting order) = true ↔ order.state = .erred ∧ _
    unfold OrderReviews.agentSetStateExecuting
    split
    · next htype => exact iff_of_false (by rw [hclosed]; exact Bool.false_ne_true) fun h => htype h.2
    · next htype =>
      split
      · next hstate =>
        refine iff_of_true rfl ⟨?_, not_not.mp htype⟩
        rcases hstate with h | h | h
        · exact absurd (h ▸ hstates) (by decide)
        · exact absurd (h ▸ hstates) (by decide)
        · exact h
      · next hstate =>
        exact iff_of_false (by rw [hclosed]; exact Bool.false_ne_true) fun h => hstate (Or.inr (Or.inr h.1))
  | agentErred =>
    change isOpen (OrderReviews.agentSetStateErred order) = true ↔ False
    unfold OrderReviews.agentSetStateErred
    split
    · exact iff_of_false (by rw [hclosed]; exact Bool.false_ne_true) id
    · exact iff_of_false Bool.false_ne_true id
  | retry supportsRetry =>
    change isOpen (OrderReviews.retry supportsRetry order) = true ↔ order.state = .erred ∧ _
    have hkept : ¬ isOpen order = true := by rw [hclosed]; exact Bool.false_ne_true
    unfold OrderReviews.retry
    split
    · next hsupport => exact iff_of_false hkept fun h => by simp [h.2.1] at hsupport
    next hsupport =>
    split
    · next hstate => exact iff_of_false hkept fun h => hstate h.1
    next hstate =>
    split
    · next htype => exact iff_of_false hkept fun h => h.2.2 htype
    · next htype => exact iff_of_true rfl ⟨not_not.mp hstate, by simpa using hsupport, htype⟩
  | _ => exact iff_of_false (by rw [hparty rfl]; exact Bool.false_ne_true) id

/-- A new order is open. -/
theorem open_notify (today : ℤ) (hstate : order.state = .pendingConsumer) :
    isOpen (notifyApproversWhenOrderIsCreated today order) = true := by
  unfold notifyApproversWhenOrderIsCreated OrderReviews.Order.moveOn
  split
  · split
    · split
      · rfl
      · split <;> rfl
    · unfold isOpen
      rw [hstate]
      rfl
  · unfold isOpen
    rw [hstate]
    rfl

theorem lone_add {row : ℕ → Order} {hrow : ∀ id, (row id).id = id} (hopen : isOpen (row orders.freshId) = true) :
    Lone (orders.add row hrow) ↔ ∀ order ∈ orders.rows, isOpen order = false := by
  unfold Lone
  rw [Table.count_add, hopen, ← count_eq_zero]
  simp

/-- A write to one order keeps that, unless it opens a closed one beside an open one. -/
theorem lone_update (h : Lone orders) {id : ℕ} (hget : orders.get? id = some order) (f : Order → Order)
    (hf : ∀ order, (f order).id = order.id) :
    Lone (orders.update id f hf) ↔
      (isOpen order = false → isOpen (f order) = true → ∀ order ∈ orders.rows, isOpen order = false) := by
  have hcount := orders.count_update hget f hf isOpen
  rw [← count_eq_zero]
  unfold Lone at h ⊢
  cases hbefore : isOpen order with
  | true =>
    rw [hbefore, Bool.toNat_true] at hcount
    have hle := Bool.toNat_le (isOpen (f order))
    exact iff_of_true (by omega) nofun
  | false =>
    rw [hbefore, Bool.toNat_false] at hcount
    cases hafter : isOpen (f order) with
    | true =>
      rw [hafter, Bool.toNat_true] at hcount
      refine ⟨fun hle _ _ => by omega, fun hzero => ?_⟩
      have := hzero rfl rfl
      omega
    | false =>
      rw [hafter, Bool.toNat_false] at hcount
      exact iff_of_true (by omega) nofun

theorem eq_singleton_of_mem {α : Type} {l : List α} {a : α} (hlength : l.length ≤ 1) (hmem : a ∈ l) : l = [a] := by
  match l with
  | [only] => rw [List.mem_singleton.mp hmem]
  | _ :: _ :: _ => simp at hlength

/-- Two open orders are the same one. -/
theorem Lone.eq (h : Lone orders) {order' : Order} (hmem : order ∈ orders.rows) (hopen : isOpen order = true)
    (hmem' : order' ∈ orders.rows) (hopen' : isOpen order' = true) : order = order' := by
  unfold Lone Table.count at h
  rw [List.countP_eq_length_filter] at h
  have honly := eq_singleton_of_mem h (List.mem_filter.mpr ⟨hmem', hopen'⟩)
  have hin := List.mem_filter.mpr ⟨hmem, hopen⟩
  rw [honly] at hin
  exact List.mem_singleton.mp hin

/-- The check finds the open order, unless it waits for its project or for its start date. -/
theorem lone_place (h : Lone orders) (order : Order) (today : ℤ) :
    Lone (place order today orders) ↔
      ∀ order ∈ orders.rows, order.state ≠ .pendingProject ∧ order.state ≠ .pendingStartDate := by
  unfold place
  cases hcheck : checkPendingOrderExists orders with
  | true =>
    refine iff_of_true h fun other hother => ?_
    obtain ⟨found, hfound, hstate⟩ := List.any_eq_true.mp hcheck
    have hopen : isOpen found = true := by
      unfold isOpen terminalStates
      cases hs : found.state <;> simp [hs] at hstate ⊢
    constructor
    · intro hwaits
      have heq := h.eq hother (by unfold isOpen; rw [hwaits]; rfl) hfound hopen
      rw [← heq, hwaits] at hstate
      simp at hstate
    · intro hwaits
      have heq := h.eq hother (by unfold isOpen; rw [hwaits]; rfl) hfound hopen
      rw [← heq, hwaits] at hstate
      simp at hstate
  | false =>
    rw [if_neg Bool.false_ne_true, lone_add (open_notify today rfl)]
    refine forall₂_congr fun other hother => ?_
    have hnone := List.any_eq_false.mp hcheck other hother
    unfold isOpen terminalStates
    cases hstate : other.state <;> simp [hstate] at hnone ⊢

theorem lone_act (h : Lone orders) (id : ℕ) (op : Op) (today : ℤ) (enabled : Bool) :
    Lone (step orders (.act id op, today, enabled)) ↔ Calm orders (.act id op, today, enabled) := by
  change Lone (ite _ _ _) ↔ ∀ order, _
  split
  · next hcallback =>
    refine iff_of_true h fun order _ htakes => ?_
    cases op <;> first | exact absurd hcallback Bool.false_ne_true | exact htakes.elim
  cases hget : orders.get? id with
  | none =>
    rw [Table.update_of_none hget]
    exact iff_of_true h fun order heq => absurd heq.symm (Option.some_ne_none order)
  | some order =>
    refine (lone_update h hget (fun order => OrderReviews.step order (op, today, enabled)) fun order =>
      id_step order _).trans ?_
    constructor
    · rintro hkeep order' heq htakes
      obtain rfl := Option.some.inj heq
      have hclosed : isOpen order = false := by
        refine isOpen_eq_false.mpr ?_
        cases op with
        | agentExecuting => simp [htakes.1, terminalStates]
        | retry supportsRetry => simp [htakes.1, terminalStates]
        | _ => exact htakes.elim
      exact hkeep hclosed ((open_step_iff hclosed op today enabled).mpr htakes)
    · intro hcalm hclosed hopen
      exact hcalm order rfl ((open_step_iff hclosed op today enabled).mp hopen)

/-- A report reaches the order that it is about. -/
theorem setOrderState_cases (type : AutoApproval.OrderType) (newState : OrderState) (today : ℤ) (orders : Orders) :
    (∃ order, orders.rows.filter (isExecuting type) = [order] ∧ setOrderState type newState today orders =
      orders.update order.id (OrderReviews.setOrderState newState today) fun order =>
        id_setOrderState order newState today) ∨
    setOrderState type newState today orders = orders := by
  unfold setOrderState
  split
  · next order hrows => exact Or.inl ⟨order, hrows, rfl⟩
  · exact Or.inr rfl

theorem isOpen_of_isExecuting {type : AutoApproval.OrderType} (h : isExecuting type order = true) :
    isOpen order = true := by
  unfold isExecuting at h
  have hstate : order.state = .executing := by simpa using (Bool.and_eq_true_iff.mp h).2
  unfold isOpen
  rw [hstate]
  rfl

theorem lone_report (h : Lone orders) (type : AutoApproval.OrderType) (newState : OrderState) (today : ℤ) :
    Lone (setOrderState type newState today orders) := by
  rcases setOrderState_cases type newState today orders with ⟨order, hrows, heq⟩ | heq
  · have hmem : order ∈ orders.rows.filter (isExecuting type) := by
      rw [hrows]
      exact List.mem_cons_self
    obtain ⟨hmem, hexecuting⟩ := List.mem_filter.mp hmem
    rw [heq, lone_update h (Table.get?_eq_some.mpr ⟨hmem, rfl⟩)]
    intro hclosed
    rw [isOpen_of_isExecuting hexecuting] at hclosed
    exact absurd hclosed nofun
  · rw [heq]
    exact h

theorem lone_destroy (h : Lone orders) (id : ℕ) : Lone (destroy id orders) :=
  (List.Sublist.countP_le List.filter_sublist).trans h

theorem lone_step_iff (h : Lone orders) (op : ResourceOp × ℤ × Bool) : Lone (step orders op) ↔ Calm orders op := by
  obtain ⟨op, today, enabled⟩ := op
  cases op with
  | place order => exact lone_place h order today
  | terminateByPolicy order => exact lone_add rfl
  | act id op => exact lone_act h id op today enabled
  | report type newState => exact iff_of_true (lone_report h type newState today) trivial
  | destroy id => exact iff_of_true (lone_destroy h id) trivial

/-- The order of a report takes its new state. -/
def Heard (orders : Orders) : ResourceOp × ℤ × Bool → Prop
  | (.report type newState, today, enabled) => ∀ order ∈ orders.rows, isExecuting type order = true →
      (step orders (.report type newState, today, enabled)).get? order.id =
        some (OrderReviews.setOrderState newState today order)
  | _ => True

theorem heard_of_lone (h : Lone orders) (op : ResourceOp × ℤ × Bool) : Heard orders op := by
  obtain ⟨op, today, enabled⟩ := op
  cases op with
  | report type newState =>
    intro order hmem hexecuting
    have honly : orders.rows.filter (isExecuting type) = [order] := by
      refine eq_singleton_of_mem ?_ (List.mem_filter.mpr ⟨hmem, hexecuting⟩)
      rw [← List.countP_eq_length_filter]
      exact (List.countP_mono_left fun _ _ hexecuting => isOpen_of_isExecuting hexecuting).trans h
    change (setOrderState type newState today orders).get? order.id = _
    unfold setOrderState
    rw [honly]
    dsimp only
    rw [Table.get?_update_self, Table.get?_eq_some.mpr ⟨hmem, rfl⟩]
    rfl
  | _ => trivial

/-- **One open order at a time** is kept in exactly the calm runs, and in these every report on an order that executes
is heard. -/
theorem lone_iff (ops : List (ResourceOp × ℤ × Bool)) :
    (Along step (fun orders op => Lone (step orders op)) Table.empty ops ↔ Along step Calm Table.empty ops) ∧
      (Along step Calm Table.empty ops → Along step Heard Table.empty ops) := by
  have hstart : Lone Table.empty := Nat.zero_le 1
  constructor
  · exact along_congr (fun orders op h => lone_step_iff h op) (fun orders op _ hlone => hlone) ops _ hstart
  · refine along_of_invariant (fun orders op h hcalm => ?_) ops _ hstart
    exact ⟨(lone_step_iff h op).mpr hcalm, heard_of_lone h op⟩

/-- An order of the staff waits for its project when the next one is placed; the reports on both are lost. -/
example :
    let placed : Order :=
      { id := 0, type := .update, project := 1, projectStartDate := some 5, plan := none, createdBy := 7,
        placement := { creatorIsStaff := true } }
    let orders := run step Table.empty
      [(.place placed, 1, false), (.place { placed with projectStartDate := none }, 1, false),
        (.act 1 .projectSweep, 6, false)]
    orders.rows.map (fun order => order.state) = [.executing, .executing] ∧
      step orders (.report .update .done, 7, false) = orders := by
  refine ⟨by decide, ?_⟩
  rfl

end Lone

end Waldur.Marketplace.ResourceOrders
