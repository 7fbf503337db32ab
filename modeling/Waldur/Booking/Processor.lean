import Mathlib
import Waldur.Booking.Models
import Waldur.Lib.Runs

/-!
# Booking.Processor — orders of time slots, and which of them may overlap

`BookingCreateProcessor`: an order is validated when it is submitted, approved or rejected later, and its slots are
created when it is processed.  The validation refuses a slot only if it lies inside a slot that is taken or
requested; it does not compare the slots of one order, and it overlooks the orders that wait for a start date.
-/

namespace Waldur.Booking

open Intervals Marketplace Relational Runs

/-! ## Validation -/

/-- The value under `start` or `end` of a schedules item. -/
inductive Stamp
  | missing
  | empty
  | malformed (value : String)
  | moment (instant : ℤ)
deriving DecidableEq, Repr

/-- An item of the schedules that are submitted. -/
structure ScheduleItem where
  start : Stamp
  stop : Stamp
deriving DecidableEq, Repr

inductive BookingError
  | required
  | noKey
  | noValue
  | format (value : String)
  | past
  | notInOffering (start stop : ℤ)
  | notAvailable (start stop : ℤ)
  | otherRequest (start stop : ℤ)
deriving DecidableEq, Repr

/-- The value of a key that is there. -/
def Stamp.instant : Stamp → Except BookingError ℤ
  | .missing => .error .noKey
  | .empty => .error .noValue
  | .malformed value => .error (.format value)
  | .moment t => .ok t

/-- The first loop of `validate_order`, with the period that the item stands for. -/
def ScheduleItem.period (now : ℤ) (item : ScheduleItem) : Except BookingError Period := do
  if item.start = .missing ∨ item.stop = .missing then throw .noKey
  if item.start = .empty ∨ item.stop = .empty then throw .noValue
  let start ← item.start.instant
  let stop ← item.stop.instant
  if start < now then throw .past
  return ⟨start, stop⟩

/-- `validate_order`, with the periods that are stored with the order. -/
def validateOrder (offering : Offering) (schedules : List ScheduleItem) (now : ℤ) :
    Except BookingError (List Period) := do
  if schedules.isEmpty then throw .required
  let periods ← schedules.mapM (·.period now)
  periods.forM fun period =>
    if isIntervalInSchedules period offering.schedules then .ok ()
    else .error (.notInOffering period.start period.stop)
  periods.forM fun period =>
    if isIntervalInSchedules period (offering.getOfferingBookingsAndBusySlots.map (·.period)) then
      .error (.notAvailable period.start period.stop)
    else .ok ()
  periods.forM fun period =>
    if isIntervalInSchedules period offering.getOtherOfferingBookingRequests then
      .error (.otherRequest period.start period.stop)
    else .ok ()
  return periods

/-! ## The life of an order -/

/-- A submission, the approvals up to the task that processes the order, and the decisions after it. -/
inductive Op
  | submit (id : ℕ) (created : ℤ) (createdBy : User) (name : String) (schedules : List ScheduleItem) (now : ℤ)
  | approve (id : ℕ) (state : OrderState)
  | process (id : ℕ) (backendIds : List (List Char))
  | accept (id : ℕ)
  | cancel (id : ℕ)
  | reject (id : ℕ)
  | terminate (id : ℕ)

def pending : OrderState → Bool
  | .pendingConsumer | .pendingProvider | .pendingProject | .pendingStartDate => true
  | _ => false

/-- An approval moves an order on to its next state; once it is executing, a task is queued for it. -/
def CreationOrder.approved (state : OrderState) (order : CreationOrder) : CreationOrder :=
  if pending order.state && (state == .pendingProvider || state == .pendingProject || state == .pendingStartDate) then
    { order with state := state }
  else if pending order.state && state == .executing then { order with state := .executing, queued := true }
  else order

/-- `process_order`: a slot for each period of the order. -/
def Resource.processed (backendIds : List (List Char)) (r : Resource) : Resource :=
  match r.creationOrder with
  | some order =>
    if order.queued then
      { r with
        creationOrder := some { order with queued := false }
        slots := r.slots ++ order.schedules.zipIdx.map fun (period, i) => ⟨period, backendIds.getD i []⟩ }
    else r
  | none => r

/-- The order of a resource that is being created is set from executing to `state`. -/
def Resource.decided (state : OrderState) (resourceState : ResourceState) (r : Resource) : Resource :=
  match r.creationOrder with
  | some order =>
    if r.state = .creating ∧ order.state = .executing then
      { r with state := resourceState, creationOrder := some { order with state := state } }
    else r
  | none => r

/-- A rejected order terminates the resource. -/
def Resource.rejected (r : Resource) : Resource :=
  match r.creationOrder with
  | some order =>
    if order.state = .pendingConsumer ∨ order.state = .pendingProvider then
      { r with state := .terminated, creationOrder := some { order with state := .rejected } }
    else r
  | none => r

/-- What an operation makes of a resource. -/
def Resource.after (r : Resource) : Op → Resource
  | .submit .. => r
  | .approve _ state => { r with creationOrder := r.creationOrder.map (·.approved state) }
  | .process _ backendIds => r.processed backendIds
  | .accept _ => r.decided .done .ok
  | .cancel _ => r.decided .canceled .terminated
  | .reject _ => r.rejected
  | .terminate _ => if r.state = .ok then { r with state := .terminated } else r

theorem Resource.after_id (op : Op) (r : Resource) : (r.after op).id = r.id := by
  cases op with
  | submit id created createdBy name schedules now => rfl
  | approve id state => rfl
  | process id backendIds =>
    show (r.processed backendIds).id = r.id
    unfold Resource.processed
    split
    · split <;> rfl
    · rfl
  | accept id =>
    show (r.decided .done .ok).id = r.id
    unfold Resource.decided
    split
    · split <;> rfl
    · rfl
  | cancel id =>
    show (r.decided .canceled .terminated).id = r.id
    unfold Resource.decided
    split
    · split <;> rfl
    · rfl
  | reject id =>
    show r.rejected.id = r.id
    unfold Resource.rejected
    split
    · split <;> rfl
    · rfl
  | terminate id =>
    show (if r.state = .ok then { r with state := .terminated } else r).id = r.id
    split <;> rfl

/-- The resource that an operation is about. -/
def Op.target : Op → ℕ
  | .submit id .. => id
  | .approve id _ => id
  | .process id _ => id
  | .accept id => id
  | .cancel id => id
  | .reject id => id
  | .terminate id => id

/-- The resource that is created with its order. -/
def newResource (id : ℕ) (created : ℤ) (createdBy : User) (name : String) (periods : List Period) : Resource where
  id := id
  created := created
  name := name
  creationOrder := some { createdBy := createdBy, schedules := periods }

/-- A submission that is refused leaves no resource. -/
def submit (offering : Offering) (id : ℕ) (created : ℤ) (createdBy : User) (name : String)
    (schedules : List ScheduleItem) (now : ℤ) : Offering :=
  if h : offering.resources.get? id = none then
    match validateOrder offering schedules now with
    | .error _ => offering
    | .ok periods =>
      { offering with
        resources := offering.resources.insert (newResource id created createdBy name periods) h }
  else offering

def step (offering : Offering) : Op → Offering
  | .submit id created createdBy name schedules now => submit offering id created createdBy name schedules now
  | op => { offering with resources := offering.resources.update op.target (·.after op) (Resource.after_id op) }

/-! ## Slots that are held -/

/-- The slots of resources that are not terminated; a rejected order has terminated its resource. -/
def Resource.held (r : Resource) : List Period := if r.state = .terminated then [] else r.slots.map (·.period)

def heldSlots (offering : Offering) : List Period := offering.resources.rows.flatMap (·.held)

/-- No two held slots meet, and each has a positive length and lies within the schedules. -/
def NoOverlap (offering : Offering) : Prop :=
  Apart (heldSlots offering) ∧
    ∀ slot ∈ heldSlots offering, Proper slot ∧ isIntervalInSchedules slot offering.schedules = true

/-- The periods that the orders of resources that are not terminated ask for or have taken. -/
def Resource.claimed (r : Resource) : List Period :=
  if r.state = .terminated then [] else (r.creationOrder.map (·.schedules)).getD []

def claimedSlots (offering : Offering) : List Period := offering.resources.rows.flatMap (·.claimed)

/-- The validation refuses one of the periods: it is outside of the schedules, or inside a slot that is taken or
requested. -/
def Refused (offering : Offering) (periods : List Period) : Prop :=
  ∃ p ∈ periods, isIntervalInSchedules p offering.schedules = false ∨
    isIntervalInSchedules p (offering.getOfferingBookingsAndBusySlots.map (·.period)) = true ∨
    isIntervalInSchedules p offering.getOtherOfferingBookingRequests = true

/-- **Where bookings stay apart**: the validation refuses one of the periods submitted, or each has a positive length,
they do not meet each other, and none meets a period of another order that has not been rejected or terminated. -/
def SubmitsApart (offering : Offering) : Op → Prop
  | .submit _ _ _ _ schedules now =>
    match schedules.mapM (·.period now) with
    | .error _ => True
    | .ok periods => Refused offering periods ∨
        (∀ p ∈ periods, Proper p) ∧ Apart periods ∧ ∀ p ∈ claimedSlots offering, ∀ q ∈ periods, ¬ Meets p q
  | _ => True

instance (offering : Offering) (periods : List Period) : Decidable (Refused offering periods) := by
  unfold Refused
  infer_instance

instance (offering : Offering) (op : Op) : Decidable (SubmitsApart offering op) := by
  unfold SubmitsApart
  split
  · split <;> infer_instance
  · infer_instance

/-! ## The invariant -/

/-- The slots of a resource are those of its order, once it has been processed. -/
def Resource.Booked (r : Resource) : Prop :=
  match r.creationOrder with
  | none => r.slots = []
  | some order => (pending order.state = true → order.queued = false ∧ r.slots = []) ∧
      (order.queued = true → r.slots = []) ∧ (r.slots = [] ∨ r.slots.map (·.period) = order.schedules)

structure Inv (offering : Offering) : Prop where
  booked : ∀ r ∈ offering.resources.rows, r.Booked
  apart : Apart (claimedSlots offering)
  within : ∀ p ∈ claimedSlots offering, Proper p ∧ isIntervalInSchedules p offering.schedules = true

theorem Resource.Booked.held_sublist {r : Resource} (h : r.Booked) : r.held.Sublist r.claimed := by
  unfold Resource.held Resource.claimed
  split
  · exact .refl _
  unfold Resource.Booked at h
  cases horder : r.creationOrder with
  | none =>
    rw [horder] at h
    rw [h]
    exact .refl _
  | some order =>
    rw [horder] at h
    rcases h.2.2 with hnil | hsame
    · rw [hnil]
      exact List.nil_sublist _
    · rw [hsame]
      exact .refl _

theorem Inv.noOverlap {offering : Offering} (h : Inv offering) : NoOverlap offering := by
  have hsub : (heldSlots offering).Sublist (claimedSlots offering) :=
    List.Sublist.flatMap_right _ fun r hr => (h.booked r hr).held_sublist
  exact ⟨h.apart.sublist hsub, fun slot hslot => h.within slot (hsub.subset hslot)⟩

/-! ## One step -/

variable {r : Resource} {offering : Offering}

theorem booked_approve (id : ℕ) (state : OrderState) (h : r.Booked) :
    (r.after (.approve id state)).Booked ∧ (r.after (.approve id state)).claimed = r.claimed := by
  unfold Resource.after Resource.Booked Resource.claimed at *
  cases horder : r.creationOrder with
  | none =>
    rw [horder] at h
    exact ⟨h, rfl⟩
  | some order =>
    rw [horder] at h
    simp only [Option.map_some]
    unfold CreationOrder.approved
    split
    · next hpending =>
      obtain ⟨hqueued, hslots⟩ := h.1 (Bool.and_eq_true_iff.mp hpending).1
      exact ⟨⟨fun _ => ⟨hqueued, hslots⟩, fun _ => hslots, Or.inl hslots⟩, rfl⟩
    · split
      · next hpending =>
        obtain ⟨-, hslots⟩ := h.1 (Bool.and_eq_true_iff.mp hpending).1
        exact ⟨⟨nofun, fun _ => hslots, Or.inl hslots⟩, rfl⟩
      · exact ⟨h, rfl⟩

theorem booked_process (id : ℕ) (backendIds : List (List Char)) (h : r.Booked) :
    (r.after (.process id backendIds)).Booked ∧ (r.after (.process id backendIds)).claimed = r.claimed := by
  show (r.processed backendIds).Booked ∧ (r.processed backendIds).claimed = r.claimed
  have hown := h
  unfold Resource.processed
  unfold Resource.Booked at h
  cases horder : r.creationOrder with
  | none => exact ⟨hown, rfl⟩
  | some order =>
    rw [horder] at h
    simp only
    by_cases hqueued : order.queued = true
    · rw [if_pos hqueued]
      have hslots : r.slots = [] := h.2.1 hqueued
      refine ⟨⟨fun hpending => ?_, nofun, Or.inr ?_⟩, ?_⟩
      · rw [(h.1 hpending).1] at hqueued
        exact nomatch hqueued
      · rw [hslots, List.nil_append, List.map_map]
        exact List.zipIdx_map_fst 0 order.schedules
      · unfold Resource.claimed
        rw [horder]
        rfl
    · rw [if_neg hqueued]
      exact ⟨hown, rfl⟩

/-- A decision about an order that is executing keeps its slots; it may terminate the resource. -/
theorem booked_decided {state : OrderState} {resourceState : ResourceState} (hstate : pending state = false)
    (h : r.Booked) : (r.decided state resourceState).Booked ∧
      (r.decided state resourceState).claimed.Sublist r.claimed := by
  have hown := h
  unfold Resource.decided
  unfold Resource.Booked at h
  cases horder : r.creationOrder with
  | none => exact ⟨hown, .refl _⟩
  | some order =>
    rw [horder] at h
    simp only
    split
    · next hcreating =>
      refine ⟨⟨fun hpending => ?_, h.2⟩, ?_⟩
      · rw [show pending state = true from hpending] at hstate
        exact nomatch hstate
      · have hclaimed : r.claimed = order.schedules := by
          unfold Resource.claimed
          rw [horder, hcreating.1]
          rfl
        rw [hclaimed]
        unfold Resource.claimed
        split
        · exact List.nil_sublist _
        · exact .refl _
    · exact ⟨hown, .refl _⟩

theorem booked_rejected (h : r.Booked) : r.rejected.Booked ∧ r.rejected.claimed.Sublist r.claimed := by
  have hown := h
  unfold Resource.rejected
  unfold Resource.Booked at h
  cases horder : r.creationOrder with
  | none => exact ⟨hown, .refl _⟩
  | some order =>
    rw [horder] at h
    simp only
    split
    · exact ⟨⟨nofun, h.2⟩, List.nil_sublist _⟩
    · exact ⟨hown, .refl _⟩

theorem booked_after (op : Op) (h : r.Booked) : (r.after op).Booked ∧ (r.after op).claimed.Sublist r.claimed := by
  cases op with
  | submit id created createdBy name schedules now => exact ⟨h, .refl _⟩
  | approve id state =>
    obtain ⟨hbooked, hclaimed⟩ := booked_approve id state h
    exact ⟨hbooked, hclaimed ▸ .refl _⟩
  | process id backendIds =>
    obtain ⟨hbooked, hclaimed⟩ := booked_process id backendIds h
    exact ⟨hbooked, hclaimed ▸ .refl _⟩
  | accept id => exact booked_decided rfl h
  | cancel id => exact booked_decided rfl h
  | reject id => exact booked_rejected h
  | terminate id =>
    show (if r.state = .ok then { r with state := .terminated } else r).Booked ∧
      (if r.state = .ok then { r with state := .terminated } else r).claimed.Sublist r.claimed
    split
    · exact ⟨h, List.nil_sublist _⟩
    · exact ⟨h, .refl _⟩

/-- What an operation does to the resource it is about takes no period from another one. -/
theorem inv_update (op : Op) (h : Inv offering) : Inv { offering with
    resources := offering.resources.update op.target (·.after op) (Resource.after_id op) } := by
  have hsub : ((offering.resources.rows.map fun r => if r.id = op.target then r.after op else r).flatMap
      Resource.claimed).Sublist (claimedSlots offering) := by
    rw [List.flatMap_map]
    refine List.Sublist.flatMap_right _ fun r hr => ?_
    split
    · exact (booked_after op (h.booked r hr)).2
    · exact .refl _
  refine ⟨fun r' hr' => ?_, h.apart.sublist hsub, fun p hp => h.within p (hsub.subset hp)⟩
  obtain ⟨r, hr, rfl⟩ := List.mem_map.mp hr'
  split
  · exact (booked_after op (h.booked r hr)).1
  · exact h.booked r hr

theorem validateOrder_ok {schedules : List ScheduleItem} {now : ℤ} {periods : List Period}
    (h : validateOrder offering schedules now = .ok periods) :
    schedules.mapM (·.period now) = .ok periods ∧ ¬ Refused offering periods ∧
      ∀ p ∈ periods, isIntervalInSchedules p offering.schedules = true := by
  unfold validateOrder at h
  split at h
  · exact nomatch h
  obtain ⟨periods', hperiods, h⟩ := bind_eq_ok.mp h
  obtain ⟨_, hschedules, h⟩ := bind_eq_ok.mp h
  obtain ⟨_, hbookings, h⟩ := bind_eq_ok.mp h
  obtain ⟨_, hrequests, h⟩ := bind_eq_ok.mp h
  obtain rfl := Except.ok.inj h
  have hin : ∀ p ∈ periods', isIntervalInSchedules p offering.schedules = true := by
    intro p hp
    by_contra hout
    have hcheck := forM_eq_ok.mp hschedules p hp
    rw [if_neg hout] at hcheck
    exact nomatch hcheck
  refine ⟨hperiods, ?_, hin⟩
  rintro ⟨p, hp, hout | htaken | hrequested⟩
  · rw [hin p hp] at hout
    exact nomatch hout
  · have hcheck := forM_eq_ok.mp hbookings p hp
    rw [if_pos htaken] at hcheck
    exact nomatch hcheck
  · have hcheck := forM_eq_ok.mp hrequests p hp
    rw [if_pos hrequested] at hcheck
    exact nomatch hcheck

theorem inv_submit {id : ℕ} {created : ℤ} {createdBy : User} {name : String} {schedules : List ScheduleItem} {now : ℤ}
    (h : Inv offering) (hsubmit : SubmitsApart offering (.submit id created createdBy name schedules now)) :
    Inv (submit offering id created createdBy name schedules now) := by
  unfold submit
  split
  · next hfree =>
    cases hvalid : validateOrder offering schedules now with
    | error e => exact h
    | ok periods =>
      obtain ⟨hperiods, hrefused, hin⟩ := validateOrder_ok hvalid
      rw [SubmitsApart, hperiods] at hsubmit
      obtain ⟨hproper, hapart, hothers⟩ := hsubmit.resolve_left hrefused
      simp only
      have hclaimed : claimedSlots { offering with
          resources := offering.resources.insert (newResource id created createdBy name periods) hfree } =
            claimedSlots offering ++ periods := by
        show (offering.resources.rows ++ [_]).flatMap Resource.claimed = _
        rw [List.flatMap_append, List.flatMap_singleton]
        rfl
      refine ⟨fun r hr => ?_, ?_, fun p hp => ?_⟩
      · rcases List.mem_append.mp hr with hr | hr
        · exact h.booked r hr
        · obtain rfl := List.mem_singleton.mp hr
          exact ⟨fun _ => ⟨rfl, rfl⟩, fun _ => rfl, Or.inl rfl⟩
      · rw [hclaimed]
        exact apart_append.mpr ⟨h.apart, hapart, hothers⟩
      · rw [hclaimed] at hp
        rcases List.mem_append.mp hp with hp | hp
        · exact h.within p hp
        · exact ⟨hproper p hp, hin p hp⟩
  · exact h

theorem inv_step (op : Op) (h : Inv offering) (hsubmit : SubmitsApart offering op) : Inv (step offering op) := by
  cases op with
  | submit id created createdBy name schedules now => exact inv_submit h hsubmit
  | approve id state => exact inv_update (.approve id state) h
  | process id backendIds => exact inv_update (.process id backendIds) h
  | accept id => exact inv_update (.accept id) h
  | cancel id => exact inv_update (.cancel id) h
  | reject id => exact inv_update (.reject id) h
  | terminate id => exact inv_update (.terminate id) h

theorem inv_empty : Inv { offering with resources := Table.empty } :=
  ⟨fun _ hr => absurd hr List.not_mem_nil, List.Pairwise.nil, fun _ hp => absurd hp List.not_mem_nil⟩

/-- **Bookings never overlap** in a run of submissions, approvals and rejections in which each submission is refused
for one of its periods or asks for periods of positive length that do not meet each other or those of another order:
after every step the held slots do not meet, and each has a positive length and lies within the schedules. -/
theorem no_overlap_along (offering : Offering) (ops : List Op)
    (hops : Along step SubmitsApart { offering with resources := Table.empty } ops) :
    Along step (fun s op => NoOverlap (step s op)) { offering with resources := Table.empty } ops :=
  along_of_invariant (fun _ op h hsubmit => ⟨inv_step op h hsubmit, (inv_step op h hsubmit).noOverlap⟩) ops _ inv_empty
    hops

/-- Opening hours of a hundred. -/
def hundred : Offering := { schedules := [⟨0, 100⟩] }

def visitor : User := ⟨"visitor@example.org", "Visitor"⟩

def request (id : ℕ) (periods : List Period) : Op :=
  .submit id 0 visitor "" (periods.map fun p => ⟨.moment p.start, .moment p.stop⟩) 0

/-- Two orders that touch, one inside the first that is refused, and one for a slot that a rejection has freed. -/
def apartRun : List Op :=
  [request 1 [⟨10, 20⟩, ⟨30, 40⟩], request 2 [⟨20, 30⟩], request 3 [⟨12, 18⟩], .approve 1 .executing, .process 1 [],
    .accept 1, .approve 2 .pendingProvider, .reject 2, request 4 [⟨22, 28⟩], .approve 4 .executing, .process 4 [],
    .cancel 4, request 5 [⟨20, 28⟩], .terminate 1]

theorem apart_run_never_overlaps :
    Along step (fun s op => NoOverlap (step s op)) { hundred with resources := Table.empty } apartRun :=
  no_overlap_along hundred apartRun (by decide +kernel)

/-- The second order starts inside the slot of the first. -/
theorem partial_overlap_accepted : ¬ ∀ (offering : Offering) (ops : List Op),
    Along step (fun s op => NoOverlap (step s op)) { offering with resources := Table.empty } ops := by
  intro h
  have hlast := (h hundred [request 1 [⟨10, 20⟩], .approve 1 .executing, .process 1 [], request 2 [⟨15, 25⟩],
    .approve 2 .executing, .process 2 []]).2.2.2.2.2.1.1
  revert hlast
  show ¬ Apart _
  decide +kernel

end Waldur.Booking
