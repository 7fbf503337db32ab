import Mathlib
import Waldur.Lib.Amounts
import Waldur.Lib.Doubles
import Waldur.Lib.Pledges
import Waldur.Lib.Runs
import Waldur.Marketplace.Models

/-!
# Marketplace.Reallocations — limits that are moved between the resources of an offering

`reallocate_limits` checks a request, and creates an order with the reduced limits of the source and one with the
raised limits of each target.  An order holds limits and not differences, and is carried out on its own.  While no
resource has two orders under way nothing is lost by that (`grown_by_orders`); what a request takes and what it gives
are only compared for the components that it takes (`conserved_iff`).
-/

namespace Waldur.Marketplace.Reallocations

open Documents Doubles Runs

/-! ## The code -/

/-- The limits of a resource, of an order or of a request, by the decimals that they print as. -/
abbrev Limits := Document String ℚ

/-- `add_limit_values`. -/
def addLimitValues (a b : ℚ) : ℚ := shortest (toDouble (a + b))

structure Resource where
  offering : ℕ
  state : ResourceState := .ok
  limits : Limits

/-- An order to update the limits of a resource, with its attribute `old_limits`. -/
structure Order where
  resource : ℕ
  oldLimits : Limits
  limits : Limits
  state : OrderState

/-- The states that an order may leave. -/
def isLive (state : OrderState) : Bool := state ≠ .done && state ≠ .rejected && state ≠ .canceled

/-- The resources that exist, and their orders. -/
structure System where
  known : Finset ℕ
  resources : ℕ → Resource
  orders : List Order := []

/-- What a request is decided by beside the limits: the components that are calculated from the order form, the
validation of limits (which calculates those anew, and leaves the others as they are), the orders of other types, the
permissions of the user, the other checks of `validate_order`, and where a new order goes. -/
structure Site where
  derived : List String := []
  validateLimits : ℕ → Limits → Option Limits := fun _ limits => some limits
  otherPending : ℕ → Bool := fun _ => false
  mayUpdateLimits : ℕ → Bool := fun _ => true
  mayCreateOrder : ℕ → Bool := fun _ => true
  orderable : ℕ → Bool := fun _ => true
  placed : ℕ → OrderState := fun _ => .executing
  keeps : ∀ r limits limits', validateLimits r limits = some limits' →
    ∀ component ∉ derived, limits'.amount component = limits.amount component
  placed_live : ∀ r, isLive (placed r) = true

structure Target where
  resource : ℕ
  allocated : Limits

structure Request where
  source : ℕ
  limits : Limits
  targets : List Target

/-- The errors of `validate_reallocation`, with what their texts name. -/
inductive ReallocationError
  | empty
  | sourceNotOk
  | sourcePending
  | sourceWithoutLimits
  | sourceLimitsInvalid
  | calculatedFromOrderForm (component : String)
  | notPresent (component : String)
  | notPositive (component : String)
  | notAvailable (component : String) (value available : ℚ)
  | sourceIsTarget
  | otherOffering (target : ℕ)
  | targetNotOk (target : ℕ)
  | targetPending (target : ℕ)
  | targetsMissing
  | noAllocatedLimits (target : ℕ)
  | mayNotUpdateLimits (target : ℕ)
  | mayNotCreateOrders (target : ℕ)
  | targetLimitsInvalid (target : ℕ)
  | otherComponents (target : ℕ)
  | allocatedNotPositive (component : String) (target : ℕ)
  | cannotAccept (component : String) (target : ℕ)
  | totalExceeds (component : String) (total requested : ℚ)
  | totalIsLess (component : String) (total requested : ℚ)
deriving DecidableEq

section Code

variable (s : System) (site : Site) (q : Request)

/-- `check_pending_order_exists`. -/
def checkPendingOrderExists (r : ℕ) : Bool :=
  site.otherPending r || s.orders.any fun o =>
    decide (o.resource = r) && (o.state = .pendingConsumer || o.state = .pendingProvider || o.state = .executing)

/-- `validate_source_resource`. -/
def validateSourceResource (r : ℕ) : Except ReallocationError Limits :=
  if (s.resources r).state ≠ .ok then .error .sourceNotOk
  else if checkPendingOrderExists s site r then .error .sourcePending
  else if (s.resources r).limits.entries = [] then .error .sourceWithoutLimits
  else if (site.validateLimits r (s.resources r).limits).isNone then .error .sourceLimitsInvalid
  else .ok (s.resources r).limits

/-- `validate_source_component`, after the check that the component is not calculated. -/
def validateSourceComponent (sourceLimits : Limits) (e : String × ℚ) : Except ReallocationError Unit :=
  if e.1 ∈ site.derived then .error (.calculatedFromOrderForm e.1)
  else if e.1 ∉ sourceLimits.keys then .error (.notPresent e.1)
  else if e.2 ≤ 0 then .error (.notPositive e.1)
  else if e.2 > sourceLimits.amount e.1 then .error (.notAvailable e.1 e.2 (sourceLimits.amount e.1))
  else .ok ()

/-- The checks of a target before anything is allocated to it. -/
def validateTargetResource (r : ℕ) : Except ReallocationError Unit :=
  if (s.resources r).offering ≠ (s.resources q.source).offering then .error (.otherOffering r)
  else if (s.resources r).state ≠ .ok then .error (.targetNotOk r)
  else if checkPendingOrderExists s site r then .error (.targetPending r)
  else .ok ()

/-- A component that a target is given, and the total of what all targets are given of it. -/
def allocate (r : ℕ) (targetLimits : Limits) (total : Limits) (e : String × ℚ) : Except ReallocationError Limits :=
  if e.2 ≤ 0 then .error (.allocatedNotPositive e.1 r)
  else if (site.validateLimits r
      (targetLimits.insert e.1 (addLimitValues (targetLimits.amount e.1) e.2))).isNone then .error (.cannotAccept e.1 r)
  else .ok (total.insert e.1 (addLimitValues (total.amount e.1) e.2))

/-- `validate_target_allocation`. -/
def validateTargetAllocation (sourceLimits total : Limits) (t : Target) : Except ReallocationError Limits :=
  let targetLimits := (s.resources t.resource).limits
  if t.allocated.entries = [] then .error (.noAllocatedLimits t.resource)
  else if !site.mayUpdateLimits t.resource then .error (.mayNotUpdateLimits t.resource)
  else if !site.mayCreateOrder t.resource then .error (.mayNotCreateOrders t.resource)
  else if (site.validateLimits t.resource targetLimits).isNone then .error (.targetLimitsInvalid t.resource)
  else if targetLimits.keys ≠ sourceLimits.keys then .error (.otherComponents t.resource)
  else t.allocated.entries.foldlM (allocate site t.resource targetLimits) total

/-- What is given of a component is what is taken. -/
def validateTotal (total : Limits) (e : String × ℚ) : Except ReallocationError Unit :=
  if total.amount e.1 > e.2 then .error (.totalExceeds e.1 (total.amount e.1) e.2)
  else if total.amount e.1 < e.2 then .error (.totalIsLess e.1 (total.amount e.1) e.2)
  else .ok ()

/-- `validate_reallocation`. -/
def validateReallocation : Except ReallocationError Unit :=
  if q.limits.entries = [] ∨ q.targets = [] then .error .empty
  else do
    let sourceLimits ← validateSourceResource s site q.source
    q.limits.entries.forM (validateSourceComponent site sourceLimits)
    if q.source ∈ q.targets.map Target.resource then .error .sourceIsTarget
    else do
      ((q.targets.map Target.resource).filter (· ∈ s.known)).forM (validateTargetResource s site q)
      if ¬ ∀ t ∈ q.targets, t.resource ∈ s.known then .error .targetsMissing
      else do
        let total ← q.targets.foldlM (validateTargetAllocation s site sourceLimits) .empty
        q.limits.entries.forM (validateTotal total)

/-- `calculate_new_limits`. -/
def calculateNewLimits (current allocated : Limits) (subtract : Bool) : Limits :=
  current.adjust (fun value amount =>
    if subtract then max 0 (addLimitValues value (-amount)) else addLimitValues value amount) allocated.entries

/-- An order is validated, which calculates its limits anew, and placed. -/
def createOrder (s : System) (order : ℕ × Limits) : Option System :=
  if !site.orderable order.1 then none
  else if checkPendingOrderExists s site order.1 then none
  else (site.validateLimits order.1 order.2).map fun limits =>
    { s with orders := s.orders ++ [⟨order.1, (s.resources order.1).limits, limits, site.placed order.1⟩] }

/-- The orders of a request. -/
def newOrders : List (ℕ × Limits) :=
  (q.source, calculateNewLimits (s.resources q.source).limits q.limits true) ::
    q.targets.map fun t => (t.resource, calculateNewLimits (s.resources t.resource).limits t.allocated false)

/-- `ResourceViewSet.reallocate_limits`: a failure in the middle is rolled back. -/
def reallocateLimits? : Option System :=
  if q.source ∉ s.known then none
  else
    match validateReallocation s site q with
    | .error _ => none
    | .ok _ => (newOrders s q).foldlM (createOrder site) s

end Code

/-- The update has succeeded: the resource gets the limits of the order. -/
def System.complete (s : System) (i : ℕ) : System :=
  match s.orders[i]? with
  | none => s
  | some o =>
    if o.state ≠ .executing then s
    else { s with
      resources := Function.update s.resources o.resource { s.resources o.resource with limits := o.limits }
      orders := s.orders.set i { o with state := .done } }

/-- An order that is reviewed, waits, fails, is retried, rejected or canceled. -/
def System.move (s : System) (i : ℕ) (state : OrderState) : System :=
  match s.orders[i]? with
  | none => s
  | some o =>
    if isLive o.state ∧ state ≠ .done then { s with orders := s.orders.set i { o with state := state } } else s

inductive Op
  | reallocate (site : Site) (q : Request)
  | move (i : ℕ) (state : OrderState)
  | complete (i : ℕ)

def step (s : System) : Op → System
  | .reallocate site q => (reallocateLimits? s site q).getD s
  | .move i state => s.move i state
  | .complete i => s.complete i


/-! ## Orders are pledges -/

def Order.status (o : Order) : Pledges.Status :=
  if isLive o.state then .live else if o.state = .done then .fulfilled else .dropped

def Order.pledge (o : Order) : Pledges.Pledge ℕ (String → ℚ) :=
  ⟨o.resource, o.oldLimits.amount, o.limits.amount, o.status⟩

/-- The limits of the resources, and the orders as pledges on them. -/
def System.pledges (s : System) : Pledges.State ℕ (String → ℚ) :=
  ⟨fun r => (s.resources r).limits.amount, s.orders.map Order.pledge⟩

variable {s s' : System} {site : Site} {q : Request} {component : String}

theorem pledge_isLive {o : Order} : o.pledge.isLive ↔ isLive o.state = true := by
  unfold Pledges.Pledge.isLive Order.pledge Order.status
  dsimp only
  split
  · next h => exact iff_of_true rfl h
  · next h =>
    refine iff_of_false (fun hstatus => ?_) h
    split at hstatus <;> exact nomatch hstatus

theorem getElem?_pledges (i : ℕ) : s.pledges.pledges[i]? = (s.orders[i]?).map Order.pledge := List.getElem?_map

/-- An order that is placed is a pledge on its resource. -/
theorem pledges_createOrder {order : ℕ × Limits} (h : createOrder site s order = some s') :
    ∃ limits, site.validateLimits order.1 order.2 = some limits ∧ s'.resources = s.resources ∧ s'.known = s.known ∧
      s'.orders = s.orders ++ [⟨order.1, (s.resources order.1).limits, limits, site.placed order.1⟩] ∧
      s'.pledges = s.pledges.pledge order.1 limits.amount := by
  unfold createOrder at h
  split at h
  · exact nomatch h
  split at h
  · exact nomatch h
  obtain ⟨limits, hlimits, rfl⟩ := Option.map_eq_some_iff.mp h
  refine ⟨limits, hlimits, rfl, rfl, rfl, ?_⟩
  have hstatus : (⟨order.1, (s.resources order.1).limits, limits, site.placed order.1⟩ : Order).status = .live :=
    if_pos (site.placed_live order.1)
  unfold System.pledges Pledges.State.pledge
  dsimp only
  rw [List.map_append, List.map_singleton]
  unfold Order.pledge
  rw [hstatus]

/-- Carrying out an order fulfils its pledge. -/
theorem pledges_complete (i : ℕ) : s.complete i = s ∨ ∃ o, s.orders[i]? = some o ∧ o.pledge.isLive ∧
    (s.complete i).known = s.known ∧ (s.complete i).orders = s.orders.set i { o with state := .done } ∧
    (s.complete i).pledges = s.pledges.fulfil i o.pledge := by
  unfold System.complete
  split
  · exact Or.inl rfl
  next o ho =>
  split
  · exact Or.inl rfl
  next hstate =>
  have hlive : o.pledge.isLive := pledge_isLive.mpr (by rw [not_not.mp hstate]; rfl)
  refine Or.inr ⟨o, ho, hlive, rfl, rfl, ?_⟩
  unfold System.pledges Pledges.State.fulfil
  dsimp only
  rw [List.map_set]
  congr 1
  funext r
  change _ = Function.update (fun r => (s.resources r).limits.amount) o.resource o.limits.amount r
  by_cases hr : r = o.resource
  · subst hr
    rw [Function.update_self, Function.update_self]
  · rw [Function.update_of_ne hr, Function.update_of_ne hr]

/-- An order that moves is the same pledge, or one that is dropped. -/
theorem pledges_move (i : ℕ) (state : OrderState) : s.move i state = s ∨ ∃ o, s.orders[i]? = some o ∧ o.pledge.isLive ∧
    (s.move i state).known = s.known ∧ (s.move i state).resources = s.resources ∧
    (s.move i state).orders = s.orders.set i { o with state := state } ∧
    ((s.move i state).pledges = s.pledges ∨ (s.move i state).pledges = s.pledges.drop i o.pledge) := by
  unfold System.move
  split
  · exact Or.inl rfl
  next o ho =>
  split
  · next hmove =>
    have hlive := pledge_isLive.mpr hmove.1
    refine Or.inr ⟨o, ho, hlive, rfl, rfl, rfl, ?_⟩
    unfold System.pledges Pledges.State.drop
    dsimp only
    rw [List.map_set]
    cases hstate : isLive state with
    | true =>
      refine Or.inl ?_
      congr 1
      have hsame : ({ o with state := state } : Order).pledge = o.pledge := by
        unfold Order.pledge Order.status
        rw [hstate, hmove.1]
        rfl
      rw [hsame]
      refine List.ext_getElem? fun j => ?_
      rw [List.getElem?_set]
      split
      · next hij =>
        subst hij
        obtain ⟨hi, rfl⟩ := List.getElem?_eq_some_iff.mp ho
        rw [if_pos (by rwa [List.length_map]), List.getElem?_map, ho]
        rfl
      · rfl
    | false =>
      refine Or.inr ?_
      have hdropped : ({ o with state := state } : Order).pledge = { o.pledge with status := .dropped } := by
        unfold Order.pledge Order.status
        rw [hstate, if_neg Bool.false_ne_true, if_neg hmove.2]
      rw [hdropped]
  · exact Or.inl rfl

/-! ## Nothing is lost -/

/-- What the orders that are carried out have changed. -/
def System.carriedOut (s : System) (component : String) : ℚ :=
  ((s.orders.filter fun o => o.state = .done).map fun o => o.limits.amount component - o.oldLimits.amount component).sum

/-- The limits of all resources together. -/
def System.total (s : System) (component : String) : ℚ :=
  ∑ r ∈ s.known, (s.resources r).limits.amount component

/-- No order of a resource is under way. -/
def Settled (s : System) (r : ℕ) : Prop := ∀ o ∈ s.orders, o.resource = r → isLive o.state = false

/-- **A request that meets no order under way**, neither one of the states that are not asked for nor one of its own. -/
def Clean (s : System) : Op → Prop
  | .reallocate site q => reallocateLimits? s site q ≠ none →
      (q.source :: q.targets.map Target.resource).Nodup ∧
        ∀ r ∈ q.source :: q.targets.map Target.resource, Settled s r
  | _ => True

/-- The orders are of known resources, one under way for each, and tell what it has. -/
structure Kept (known : Finset ℕ) (initial : String → ℚ) (s : System) : Prop where
  known_eq : s.known = known
  orders : ∀ o ∈ s.orders, o.resource ∈ known
  sound : Pledges.Sound s.pledges
  balance : ∑ r ∈ known, s.pledges.values r - s.pledges.gains = initial

theorem gains_eq (component : String) : s.pledges.gains component = s.carriedOut component := by
  unfold Pledges.State.gains System.carriedOut System.pledges
  dsimp only
  induction s.orders with
  | nil => rfl
  | cons o orders ih =>
    rw [List.map_cons, List.map_cons, List.sum_cons, Pi.add_apply, ih]
    by_cases hdone : o.state = .done
    · have hkeep : decide (o.state = .done) = true := decide_eq_true hdone
      rw [List.filter_cons_of_pos (p := fun o : Order => decide (o.state = .done)) hkeep, List.map_cons, List.sum_cons]
      have hstatus : o.pledge.status = .fulfilled := by
        unfold Order.pledge Order.status
        rw [hdone]
        rfl
      unfold Pledges.Pledge.gain
      rw [if_pos hstatus]
      rfl
    · have hleave : ¬ decide (o.state = .done) = true := by rwa [decide_eq_true_eq]
      rw [List.filter_cons_of_neg (p := fun o : Order => decide (o.state = .done)) hleave]
      have hstatus : o.pledge.status ≠ .fulfilled := by
        unfold Order.pledge Order.status
        rw [if_neg hdone]
        dsimp only
        split <;> exact nofun
      unfold Pledges.Pledge.gain
      rw [if_neg hstatus]
      exact zero_add _

variable {known : Finset ℕ} {initial : String → ℚ}

/-- The total, as what the resources had and what was carried out. -/
theorem Kept.total_eq (h : Kept known initial s) (component : String) :
    s.total component = initial component + s.carriedOut component := by
  have hbalance := congrFun h.balance component
  rw [Pi.sub_apply, Finset.sum_apply, gains_eq] at hbalance
  unfold System.total
  rw [h.known_eq, ← hbalance]
  exact (sub_add_cancel _ _).symm

theorem free_of_settled {r : ℕ} (h : Settled s r) : s.pledges.Free r := by
  intro p hp hlive hkey
  obtain ⟨o, ho, rfl⟩ := List.mem_map.mp hp
  have hstate := h o ho hkey
  rw [pledge_isLive.mp hlive] at hstate
  exact Bool.false_ne_true hstate.symm

theorem Kept.create (h : Kept known initial s) {order : ℕ × Limits} (hknown : order.1 ∈ known)
    (hsettled : Settled s order.1) (hcreate : createOrder site s order = some s') : Kept known initial s' := by
  obtain ⟨limits, -, hresources, hknown', horders, hpledges⟩ := pledges_createOrder hcreate
  refine ⟨hknown'.trans h.known_eq, fun o ho => ?_, ?_, ?_⟩
  · rw [horders] at ho
    rcases List.mem_append.mp ho with ho | ho
    · exact h.orders o ho
    · obtain rfl := List.mem_singleton.mp ho
      exact hknown
  · rw [hpledges]
    exact h.sound.pledge (free_of_settled hsettled)
  · rw [hpledges, Pledges.gains_pledge]
    exact h.balance

/-- The orders of a request, on resources that are settled and different. -/
theorem Kept.createAll : ∀ {orders : List (ℕ × Limits)} {s : System}, Kept known initial s →
    (orders.map Prod.fst).Nodup → (∀ order ∈ orders, order.1 ∈ known ∧ Settled s order.1) →
    orders.foldlM (createOrder site) s = some s' → Kept known initial s'
  | [], _, h, _, _, heq => Option.some.inj heq ▸ h
  | order :: orders, s, h, hnodup, hall, heq => by
    rw [List.foldlM_cons] at heq
    obtain ⟨s₁, hcreate, hrest⟩ := Option.bind_eq_some_iff.mp heq
    rw [List.map_cons, List.nodup_cons] at hnodup
    have hfirst := hall order List.mem_cons_self
    refine Kept.createAll (h.create hfirst.1 hfirst.2 hcreate) hnodup.2 (fun order' horder' => ?_) hrest
    have hother := hall order' (List.mem_cons_of_mem _ horder')
    refine ⟨hother.1, fun o ho hr => ?_⟩
    obtain ⟨limits, -, -, -, horders, -⟩ := pledges_createOrder hcreate
    rw [horders] at ho
    rcases List.mem_append.mp ho with ho | ho
    · exact hother.2 o ho hr
    · obtain rfl := List.mem_singleton.mp ho
      exact absurd (List.mem_map.mpr ⟨order', horder', hr.symm⟩) hnodup.1

theorem Kept.complete (h : Kept known initial s) (i : ℕ) : Kept known initial (s.complete i) := by
  rcases pledges_complete (s := s) i with heq | ⟨o, ho, hlive, hknown, horders, hpledges⟩
  · rw [heq]
    exact h
  have hp : s.pledges.pledges[i]? = some o.pledge := by rw [getElem?_pledges, ho, Option.map_some]
  have hkey : o.pledge.key ∈ known := h.orders o (List.mem_of_getElem? ho)
  refine ⟨hknown.trans h.known_eq, fun o' ho' => ?_, ?_, ?_⟩
  · rw [horders] at ho'
    rcases List.mem_or_eq_of_mem_set ho' with ho' | rfl
    · exact h.orders o' ho'
    · exact hkey
  · rw [hpledges]
    exact h.sound.fulfil hp hlive
  · rw [hpledges, h.sound.balance_fulfil hp hlive hkey]
    exact h.balance

theorem Kept.move (h : Kept known initial s) (i : ℕ) (state : OrderState) : Kept known initial (s.move i state) := by
  rcases pledges_move (s := s) i state with heq | ⟨o, ho, hlive, hknown, -, horders, hpledges⟩
  · rw [heq]
    exact h
  have hp : s.pledges.pledges[i]? = some o.pledge := by rw [getElem?_pledges, ho, Option.map_some]
  have hsound : Pledges.Sound (s.move i state).pledges ∧
      ∑ r ∈ known, (s.move i state).pledges.values r - (s.move i state).pledges.gains = initial := by
    rcases hpledges with hpledges | hpledges
    · rw [hpledges]
      exact ⟨h.sound, h.balance⟩
    · rw [hpledges, Pledges.gains_drop hp hlive]
      exact ⟨h.sound.drop o.pledge, h.balance⟩
  refine ⟨hknown.trans h.known_eq, fun o' ho' => ?_, hsound.1, hsound.2⟩
  rw [horders] at ho'
  rcases List.mem_or_eq_of_mem_set ho' with ho' | rfl
  · exact h.orders o' ho'
  · exact h.orders o (List.mem_of_getElem? ho)

/-! ## What a request takes and gives -/

/-- Hundredths that a double holds. -/
def Small (x : ℚ) : Prop := HasPlaces 2 x ∧ |x| < 2 ^ 44

theorem addLimitValues_of_small {a b : ℚ} (h : Small (a + b)) : addLimitValues a b = a + b :=
  shortest_toDouble_of_hundredths h.1 h.2

/-- What some targets are given of a component. -/
def given (targets : List Target) (component : String) : ℚ := (targets.map fun t => t.allocated.amount component).sum

/-- The sums that a request asks for. -/
structure SmallSums (s : System) (q : Request) : Prop where
  taken : ∀ e ∈ q.limits.entries, Small ((s.resources q.source).limits.amount e.1 + -e.2)
  raised : ∀ t ∈ q.targets, ∀ e ∈ t.allocated.entries, Small ((s.resources t.resource).limits.amount e.1 + e.2)
  totals : ∀ targets, targets <+: q.targets → ∀ component, Small (given targets component)

theorem forM_eq_ok {ε α : Type} {f : α → Except ε Unit} : ∀ {l : List α}, l.forM f = .ok () → ∀ a ∈ l, f a = .ok ()
  | [], _, a, ha => absurd ha List.not_mem_nil
  | b :: l, h, a, ha => by
    change (f b >>= fun _ => l.forM f) = .ok () at h
    obtain ⟨⟨⟩, hb, hl⟩ := bind_eq_ok.mp h
    rcases List.mem_cons.mp ha with rfl | ha
    · exact hb
    · exact forM_eq_ok hl a ha

theorem of_validateSourceComponent {sourceLimits : Limits} {e : String × ℚ}
    (h : validateSourceComponent site sourceLimits e = .ok ()) : 0 < e.2 ∧ e.2 ≤ sourceLimits.amount e.1 := by
  unfold validateSourceComponent at h
  split at h
  · exact nomatch h
  split at h
  · exact nomatch h
  split at h
  · exact nomatch h
  next hpos =>
  split at h
  · exact nomatch h
  next hle => exact ⟨not_le.mp hpos, not_lt.mp hle⟩

theorem of_allocate {r : ℕ} {targetLimits total' : Limits} : ∀ {l : List (String × ℚ)} {total : Limits},
    l.foldlM (allocate site r targetLimits) total = .ok total' →
      total' = total.adjust addLimitValues l ∧ ∀ e ∈ l, 0 < e.2
  | [], _, h => ⟨(Except.ok.inj h).symm, fun _ he => absurd he List.not_mem_nil⟩
  | e :: l, total, h => by
    rw [List.foldlM_cons] at h
    obtain ⟨total₁, he, hl⟩ := bind_eq_ok.mp h
    obtain ⟨htotal, hpos⟩ := of_allocate hl
    unfold allocate at he
    split at he
    · exact nomatch he
    next hpos' =>
    split at he
    · exact nomatch he
    obtain rfl := Except.ok.inj he
    refine ⟨htotal, fun e' he' => ?_⟩
    rcases List.mem_cons.mp he' with rfl | he'
    · exact not_le.mp hpos'
    · exact hpos e' he'

theorem of_validateTargetAllocation {sourceLimits total total' : Limits} {t : Target}
    (h : validateTargetAllocation s site sourceLimits total t = .ok total') :
    total' = total.adjust addLimitValues t.allocated.entries ∧ ∀ e ∈ t.allocated.entries, 0 < e.2 := by
  unfold validateTargetAllocation at h
  dsimp only at h
  split at h
  · exact nomatch h
  split at h
  · exact nomatch h
  split at h
  · exact nomatch h
  split at h
  · exact nomatch h
  split at h
  · exact nomatch h
  · exact of_allocate h

theorem of_validateTargets {sourceLimits total' : Limits} : ∀ {targets : List Target} {total : Limits},
    targets.foldlM (validateTargetAllocation s site sourceLimits) total = .ok total' →
      total' = targets.foldl (fun total t => total.adjust addLimitValues t.allocated.entries) total ∧
        ∀ t ∈ targets, ∀ e ∈ t.allocated.entries, 0 < e.2
  | [], _, h => ⟨(Except.ok.inj h).symm, fun _ ht => absurd ht List.not_mem_nil⟩
  | t :: targets, total, h => by
    rw [List.foldlM_cons] at h
    obtain ⟨total₁, ht, htargets⟩ := bind_eq_ok.mp h
    obtain ⟨rfl, hpos⟩ := of_validateTargetAllocation ht
    obtain ⟨htotal, hpos'⟩ := of_validateTargets htargets
    refine ⟨htotal, fun t' ht' => ?_⟩
    rcases List.mem_cons.mp ht' with rfl | ht'
    · exact hpos
    · exact hpos' t' ht'

/-- The totals are exact. -/
theorem amount_totals : ∀ targets : List Target,
    (∀ part, part <+: targets → ∀ component, Small (given part component)) → ∀ component,
      (targets.foldl (fun total t => total.adjust addLimitValues t.allocated.entries)
        (.empty : Limits)).amount component = given targets component := by
  intro targets
  induction targets using List.reverseRecOn with
  | nil => exact fun _ _ => rfl
  | append_singleton targets t ih =>
    intro hsmall component
    have hbefore := ih fun part hpart => hsmall part (hpart.trans (List.prefix_append targets [t]))
    have hgiven (component : String) :
        given (targets ++ [t]) component = given targets component + t.allocated.amount component := by
      unfold given
      rw [List.map_append, List.sum_append, List.map_singleton, List.sum_singleton]
    rw [List.foldl_append, List.foldl_cons, List.foldl_nil, Document.amount_adjust_of_exact 1 (fun e he => ?_), hbefore,
      hgiven, one_mul]
    rw [hbefore, one_mul, ← Document.amount_of_mem he]
    refine addLimitValues_of_small ?_
    rw [← hgiven]
    exact hsmall _ List.prefix_rfl e.1

/-- **What `validate_reallocation` has checked.** -/
structure Checked (s : System) (q : Request) : Prop where
  taken : ∀ e ∈ q.limits.entries, 0 < e.2 ∧ e.2 ≤ (s.resources q.source).limits.amount e.1
  known : ∀ t ∈ q.targets, t.resource ∈ s.known
  positive : ∀ t ∈ q.targets, ∀ e ∈ t.allocated.entries, 0 < e.2
  compared : SmallSums s q → ∀ e ∈ q.limits.entries, given q.targets e.1 = e.2

theorem of_validateTotal {total : Limits} {e : String × ℚ} (h : validateTotal total e = .ok ()) :
    total.amount e.1 = e.2 := by
  unfold validateTotal at h
  split at h
  · exact nomatch h
  next hle =>
  split at h
  · exact nomatch h
  · next hge => exact le_antisymm (not_lt.mp hle) (not_lt.mp hge)

theorem checked_of_ok (h : validateReallocation s site q = .ok ()) : Checked s q := by
  unfold validateReallocation at h
  split at h
  · exact nomatch h
  obtain ⟨sourceLimits, hsource, h⟩ := bind_eq_ok.mp h
  obtain ⟨⟨⟩, htaken, h⟩ := bind_eq_ok.mp h
  split at h
  · exact nomatch h
  obtain ⟨⟨⟩, -, h⟩ := bind_eq_ok.mp h
  split at h
  · exact nomatch h
  next hknown =>
  obtain ⟨total, htotal, h⟩ := bind_eq_ok.mp h
  have hlimits : sourceLimits = (s.resources q.source).limits := by
    unfold validateSourceResource at hsource
    split at hsource
    · exact nomatch hsource
    split at hsource
    · exact nomatch hsource
    split at hsource
    · exact nomatch hsource
    split at hsource
    · exact nomatch hsource
    · exact (Except.ok.inj hsource).symm
  subst hlimits
  obtain ⟨rfl, hpositive⟩ := of_validateTargets htotal
  refine ⟨fun e he => of_validateSourceComponent (forM_eq_ok htaken e he), not_not.mp hknown, hpositive, ?_⟩
  intro hsmall e he
  rw [← amount_totals q.targets hsmall.totals]
  exact of_validateTotal (forM_eq_ok h e he)

/-- What all orders change, if they are carried out. -/
def System.promised (s : System) (component : String) : ℚ :=
  (s.orders.map fun o => o.limits.amount component - o.oldLimits.amount component).sum

theorem amount_reduced (hchecked : Checked s q) (hsmall : SmallSums s q) (component : String) :
    (calculateNewLimits (s.resources q.source).limits q.limits true).amount component =
      (s.resources q.source).limits.amount component - q.limits.amount component := by
  unfold calculateNewLimits
  rw [Document.amount_adjust_of_exact (-1) fun e he => ?_, neg_one_mul, ← sub_eq_add_neg]
  have hle := (hchecked.taken e he).2
  rw [if_pos rfl, addLimitValues_of_small (hsmall.taken e he), neg_one_mul]
  exact max_eq_right (by linarith)

theorem amount_raised (hsmall : SmallSums s q) {t : Target} (ht : t ∈ q.targets) (component : String) :
    (calculateNewLimits (s.resources t.resource).limits t.allocated false).amount component =
      (s.resources t.resource).limits.amount component + t.allocated.amount component := by
  unfold calculateNewLimits
  rw [Document.amount_adjust_of_exact 1 fun e he => ?_, one_mul]
  rw [if_neg Bool.false_ne_true, one_mul]
  exact addLimitValues_of_small (hsmall.raised t ht e he)

/-- Each order promises the difference to the limits of its resource. -/
theorem promised_createAll (hcomponent : component ∉ site.derived) : ∀ {orders : List (ℕ × Limits)} {s : System},
    orders.foldlM (createOrder site) s = some s' → s'.promised component = s.promised component +
      (orders.map fun order => order.2.amount component - (s.resources order.1).limits.amount component).sum
  | [], _, h => by
    obtain rfl := Option.some.inj h
    exact (add_zero _).symm
  | order :: orders, s, h => by
    rw [List.foldlM_cons] at h
    obtain ⟨s₁, hcreate, hrest⟩ := Option.bind_eq_some_iff.mp h
    obtain ⟨limits, hlimits, hresources, -, horders, -⟩ := pledges_createOrder hcreate
    have hkeeps := site.keeps order.1 order.2 limits hlimits component hcomponent
    have hfirst : s₁.promised component = s.promised component +
        (order.2.amount component - (s.resources order.1).limits.amount component) := by
      unfold System.promised
      rw [horders, List.map_append, List.sum_append, List.map_singleton, List.sum_singleton, hkeeps]
    rw [promised_createAll hcomponent hrest, hfirst, hresources, List.map_cons, List.sum_cons, add_assoc]

theorem checked_of_reallocate (h : reallocateLimits? s site q = some s') : q.source ∈ s.known ∧ Checked s q ∧
    (newOrders s q).foldlM (createOrder site) s = some s' := by
  unfold reallocateLimits? at h
  split at h
  · exact nomatch h
  next hknown =>
  split at h
  · exact nomatch h
  · next hok => exact ⟨not_not.mp hknown, checked_of_ok hok, h⟩

/-- **What a request promises**: what it gives less what it takes. -/
theorem promised_reallocate (hsmall : SmallSums s q) (hcomponent : component ∉ site.derived)
    (h : reallocateLimits? s site q = some s') :
    s'.promised component = s.promised component + (given q.targets component - q.limits.amount component) := by
  obtain ⟨-, hchecked, hcreate⟩ := checked_of_reallocate h
  rw [promised_createAll hcomponent hcreate]
  congr 1
  unfold newOrders
  rw [List.map_cons, List.sum_cons, List.map_map, amount_reduced hchecked hsmall]
  have htargets : (q.targets.map ((fun order : ℕ × Limits =>
        order.2.amount component - (s.resources order.1).limits.amount component) ∘ fun t =>
        (t.resource, calculateNewLimits (s.resources t.resource).limits t.allocated false))) =
      q.targets.map fun t => t.allocated.amount component := by
    refine List.map_congr_left fun t ht => ?_
    rw [Function.comp_apply, amount_raised hsmall ht]
    exact add_sub_cancel_left _ _
  rw [htargets]
  unfold given
  ring

/-- What is given is what is taken, of a component that is taken. -/
theorem excess_of_taken (hchecked : Checked s q) (hsmall : SmallSums s q) (h : component ∈ q.limits.keys) :
    given q.targets component - q.limits.amount component = 0 := by
  obtain ⟨v, hv⟩ := Document.mem_keys.mp h
  have hmem := Document.get?_eq_some.mp hv
  rw [hchecked.compared hsmall _ hmem, Document.amount_of_mem hmem, sub_self]

theorem amount_nonneg_of_positive {d : Limits} (h : ∀ e ∈ d.entries, 0 < e.2) : 0 ≤ d.amount component := by
  by_cases hk : component ∈ d.keys
  · obtain ⟨v, hv⟩ := Document.mem_keys.mp hk
    have hmem := Document.get?_eq_some.mp hv
    rw [Document.amount_of_mem hmem]
    exact (h _ hmem).le
  · exact (Document.amount_of_not_mem hk).ge

theorem amount_eq_zero_of_positive {d : Limits} (h : ∀ e ∈ d.entries, 0 < e.2) :
    d.amount component = 0 ↔ component ∉ d.keys := by
  refine ⟨fun hzero hk => ?_, Document.amount_of_not_mem⟩
  obtain ⟨v, hv⟩ := Document.mem_keys.mp hk
  have hmem := Document.get?_eq_some.mp hv
  rw [Document.amount_of_mem hmem] at hzero
  exact (h _ hmem).ne' hzero

/-- **What a request creates**: nothing of a component that it takes, and of another one what it gives. -/
theorem excess_nonneg (hchecked : Checked s q) (hsmall : SmallSums s q) (component : String) :
    0 ≤ given q.targets component - q.limits.amount component ∧
      (given q.targets component - q.limits.amount component = 0 ↔
        ∀ t ∈ q.targets, component ∈ t.allocated.keys → component ∈ q.limits.keys) := by
  by_cases htaken : component ∈ q.limits.keys
  · rw [excess_of_taken hchecked hsmall htaken]
    exact ⟨le_refl 0, iff_of_true rfl fun _ _ _ => htaken⟩
  rw [Document.amount_of_not_mem htaken, sub_zero]
  have hnonneg : ∀ x ∈ q.targets.map fun t => t.allocated.amount component, 0 ≤ x := by
    intro x hx
    obtain ⟨t, ht, rfl⟩ := List.mem_map.mp hx
    exact amount_nonneg_of_positive (hchecked.positive t ht)
  refine ⟨List.sum_nonneg hnonneg, ?_⟩
  unfold given
  refine ⟨fun hzero t ht hk => absurd hk ?_, fun hnone => List.sum_eq_zero fun x hx => ?_⟩
  · have hamount : t.allocated.amount component = 0 :=
      List.all_zero_of_le_zero_le_of_sum_eq_zero hnonneg hzero (List.mem_map_of_mem ht)
    exact (amount_eq_zero_of_positive (hchecked.positive t ht)).mp hamount
  · obtain ⟨t, ht, rfl⟩ := List.mem_map.mp hx
    exact Document.amount_of_not_mem fun hk => htaken (hnone t ht hk)

/-- The same limits, whatever the state. -/
theorem promised_set {o : Order} {i : ℕ} (ho : s.orders[i]? = some o) (state : OrderState)
    (hset : s'.orders = s.orders.set i { o with state := state }) : s'.promised component = s.promised component := by
  obtain ⟨hi, rfl⟩ := List.getElem?_eq_some_iff.mp ho
  unfold System.promised
  rw [hset, List.map_set]
  congr 1
  refine List.ext_getElem? fun j => ?_
  rw [List.getElem?_set]
  split
  · next hij =>
    subst hij
    rw [if_pos (by rwa [List.length_map]), List.getElem?_map, ho]
    rfl
  · rfl

/-! ## Runs -/

/-- The sums of an accepted request are small, and the component is not calculated. -/
def Plain (component : String) (s : System) : Op → Prop
  | .reallocate site q => reallocateLimits? s site q ≠ none → SmallSums s q ∧ component ∉ site.derived
  | _ => True

/-- **An accepted request gives a component only where it takes it.** -/
def Balanced (component : String) (s : System) : Op → Prop
  | .reallocate site q => reallocateLimits? s site q ≠ none →
      ∀ t ∈ q.targets, component ∈ t.allocated.keys → component ∈ q.limits.keys
  | _ => True

theorem Kept.step {known : Finset ℕ} {initial : String → ℚ} {op : Op} (h : Kept known initial s) (hclean : Clean s op) :
    Kept known initial (step s op) := by
  cases op with
  | move i state => exact h.move i state
  | complete i => exact h.complete i
  | reallocate site q =>
    cases heq : reallocateLimits? s site q with
    | none =>
      have hsame : Reallocations.step s (.reallocate site q) = s := congrArg (Option.getD · s) heq
      rw [hsame]
      exact h
    | some s' =>
      have hnext : Reallocations.step s (.reallocate site q) = s' := congrArg (Option.getD · s) heq
      obtain ⟨hknown, hchecked, hcreate⟩ := checked_of_reallocate heq
      obtain ⟨hnodup, hsettled⟩ := hclean (by rw [heq]; exact nofun)
      have hkeys : (newOrders s q).map Prod.fst = q.source :: q.targets.map Target.resource := by
        unfold newOrders
        rw [List.map_cons, List.map_map]
        rfl
      rw [hnext]
      refine h.createAll (hkeys ▸ hnodup) (fun order horder => ?_) hcreate
      have hmem : order.1 ∈ q.source :: q.targets.map Target.resource := hkeys ▸ List.mem_map_of_mem horder
      refine ⟨?_, hsettled _ hmem⟩
      rw [← h.known_eq]
      rcases List.mem_cons.mp hmem with heq | hmem
      · rw [heq]
        exact hknown
      · obtain ⟨t, ht, heq⟩ := List.mem_map.mp hmem
        rw [← heq]
        exact hchecked.known t ht

/-- One step promises nothing or more, and nothing exactly if it is balanced. -/
theorem promised_step {op : Op} (hplain : Plain component s op) :
    s.promised component ≤ (step s op).promised component ∧
      ((step s op).promised component = s.promised component ↔ Balanced component s op) := by
  have hsame (heq : (step s op).promised component = s.promised component) (hbalanced : Balanced component s op) :
      s.promised component ≤ (step s op).promised component ∧
        ((step s op).promised component = s.promised component ↔ Balanced component s op) :=
    ⟨heq.ge, iff_of_true heq hbalanced⟩
  cases op with
  | move i state =>
    refine hsame ?_ trivial
    rcases pledges_move (s := s) i state with heq | ⟨o, ho, -, -, -, horders, -⟩
    · exact congrArg (System.promised · component) heq
    · exact promised_set ho state horders
  | complete i =>
    refine hsame ?_ trivial
    rcases pledges_complete (s := s) i with heq | ⟨o, ho, -, -, horders, -⟩
    · exact congrArg (System.promised · component) heq
    · exact promised_set ho .done horders
  | reallocate site q =>
    cases heq : reallocateLimits? s site q with
    | none => exact hsame (congrArg (fun o => (Option.getD o s).promised component) heq) fun h => absurd heq h
    | some s' =>
      have hnext : step s (.reallocate site q) = s' := congrArg (Option.getD · s) heq
      have haccepted : reallocateLimits? s site q ≠ none := by rw [heq]; exact nofun
      obtain ⟨hsmall, hcomponent⟩ := hplain haccepted
      obtain ⟨hnonneg, hzero⟩ := excess_nonneg (checked_of_reallocate heq).2.1 hsmall component
      rw [hnext, promised_reallocate hsmall hcomponent heq]
      refine ⟨le_add_of_nonneg_right hnonneg, ?_⟩
      rw [add_eq_left, hzero]
      exact ⟨fun h _ => h, fun h => h haccepted⟩

/-- **A run promises nothing exactly if every request is balanced.** -/
theorem promised_run : ∀ (ops : List Op) (s : System), Along step (Plain component) s ops →
    s.promised component ≤ (run step s ops).promised component ∧
      ((run step s ops).promised component = s.promised component ↔ Along step (Balanced component) s ops)
  | [], _, _ => ⟨le_refl _, iff_of_true rfl trivial⟩
  | op :: ops, s, hplain => by
    obtain ⟨hle, hiff⟩ := promised_step hplain.1
    obtain ⟨hle', hiff'⟩ := promised_run ops (step s op) hplain.2
    rw [run_cons, along_cons, ← hiff, ← hiff']
    refine ⟨hle.trans hle', fun heq => ?_, fun h => h.2.trans h.1⟩
    have hfirst : (step s op).promised component = s.promised component := le_antisymm (hle'.trans heq.le) hle
    exact ⟨hfirst, heq.trans hfirst.symm⟩

theorem kept_initial (horders : s.orders = []) : Kept s.known s.total s := by
  refine ⟨rfl, fun o ho => ?_, ?_, ?_⟩
  · rw [horders] at ho
    exact absurd ho List.not_mem_nil
  · unfold System.pledges
    rw [horders]
    exact Pledges.sound_nil _
  · funext component
    rw [Pi.sub_apply, Finset.sum_apply, gains_eq]
    unfold System.carriedOut
    rw [horders]
    exact sub_zero _

/-- Two resources with ten cores and ten of memory each. -/
def pair : System where
  known := {1, 2}
  resources := fun _ => { offering := 1, limits := .ofEntries [("cores", 10), ("ram", 10)] }

/-- A site that accepts all limits, and hands every order over at once. -/
def openSite : Site where
  keeps := fun _ _ _ h _ _ => Option.some.inj h ▸ rfl
  placed_live := fun _ => rfl

/-- Four cores are taken of the first, and given to the second together with six of memory. -/
def request : Request :=
  { source := 1, limits := .ofEntries [("cores", 4)], targets := [⟨2, .ofEntries [("cores", 4), ("ram", 6)]⟩] }

def moved : List Op := [.reallocate openSite request, .complete 0, .complete 1]

theorem small_intCast {n : ℤ} (h : |n| < 2 ^ 44) : Small n :=
  ⟨⟨n * 100, by push_cast; ring⟩, by rw [← Int.cast_abs]; exact_mod_cast h⟩

theorem moved_clean : Along step Clean pair moved :=
  ⟨fun _ => ⟨by decide, fun _ _ _ ho => absurd ho List.not_mem_nil⟩, trivial, trivial, trivial⟩

theorem moved_small : SmallSums pair request where
  taken := by
    intro e he
    have hentries : request.limits.entries = [("cores", 4)] := by decide
    rw [hentries, List.mem_singleton] at he
    subst he
    have hsum : (pair.resources request.source).limits.amount "cores" + -4 = (6 : ℤ) := by decide +kernel
    rw [hsum]
    exact small_intCast (by decide)
  raised := by
    intro t ht e he
    obtain rfl := List.mem_singleton.mp ht
    have hentries : (Document.ofEntries [("cores", (4 : ℚ)), ("ram", 6)]).entries = [("cores", 4), ("ram", 6)] := by
      decide
    rw [hentries, List.mem_cons, List.mem_singleton] at he
    rcases he with rfl | rfl
    · have hsum : (pair.resources 2).limits.amount "cores" + 4 = (14 : ℤ) := by decide +kernel
      rw [hsum]
      exact small_intCast (by decide)
    · have hsum : (pair.resources 2).limits.amount "ram" + 6 = (16 : ℤ) := by decide +kernel
      rw [hsum]
      exact small_intCast (by decide)
  totals := by
    intro part hpart component
    have hamount : ∃ n : ℤ, |n| < 2 ^ 44 ∧ given part component = n := by
      rcases part with _ | ⟨t, part⟩
      · exact ⟨0, by decide, rfl⟩
      · obtain ⟨rfl, hrest⟩ := List.cons_prefix_cons.mp hpart
        obtain rfl := List.prefix_nil.mp hrest
        have hgiven : given [⟨2, .ofEntries [("cores", 4), ("ram", 6)]⟩] component =
            (Document.ofEntries [("cores", (4 : ℚ)), ("ram", 6)]).amount component := add_zero _
        rw [hgiven]
        by_cases hcores : component = "cores"
        · subst hcores
          exact ⟨4, by decide, by decide +kernel⟩
        by_cases hram : component = "ram"
        · subst hram
          exact ⟨6, by decide, by decide +kernel⟩
        · refine ⟨0, by decide, Document.amount_of_not_mem fun hmem => ?_⟩
          rw [Document.keys_ofEntries] at hmem
          simp only [List.map_cons, List.map_nil, List.mem_cons, List.not_mem_nil, or_false] at hmem
          exact hmem.elim hcores hram
    obtain ⟨n, hn, heq⟩ := hamount
    rw [heq]
    exact small_intCast hn

theorem moved_plain : Along step (Plain "ram") pair moved :=
  ⟨fun _ => ⟨moved_small, List.not_mem_nil⟩, trivial, trivial, trivial⟩

theorem moved_done : ∀ o ∈ (run step pair moved).orders, o.state = .done := by decide +kernel

/-- Six of memory come from nowhere. -/
example : pair.total "ram" = 20 ∧ (run step pair moved).total "ram" = 26 := by decide +kernel

end Waldur.Marketplace.Reallocations
