import Mathlib
import Waldur.Lib.Intervals
import Waldur.Lib.Table
import Waldur.Marketplace.Models

/-!
# Booking.Models — booked resources of an offering and their time slots

`booking/models.py` and the queries of `booking/utils.py`.  Instants are numbers of microseconds.  A resource
comes with its creation order, if it has one; an identifier is a list of characters.
-/

namespace Waldur.Booking

open Intervals Marketplace Relational

abbrev Period := Intervals.Interval ℤ

/-- What an attendee is made of. -/
structure User where
  email : String
  fullName : String
deriving DecidableEq, Repr

structure BookingSlot where
  period : Period
  backendId : List Char
deriving DecidableEq, Repr

/-- The creation order of a resource; `queued` until its task has processed it. -/
structure CreationOrder where
  createdBy : User
  state : OrderState := .pendingConsumer
  schedules : List Period
  queued : Bool := false
deriving DecidableEq, Repr

structure Resource where
  id : ℕ
  created : ℤ
  name : String := ""
  state : ResourceState := .creating
  creationOrder : Option CreationOrder
  slots : List BookingSlot := []
deriving DecidableEq, Repr

abbrev Resources := Table ℕ Resource Resource.id

structure BusySlot where
  period : Period
  backendId : Option (List Char) := none
deriving DecidableEq, Repr

/-- A booking offering. -/
structure Offering where
  name : String := ""
  schedules : List Period
  location : Option String := none
  busySlots : List BusySlot := []
  resources : Resources := Table.empty

structure Attendee where
  displayName : Option String
  email : String
deriving DecidableEq, Repr

/-- `re.sub("[^a-z0-9]", "", period_id)`. -/
def stripId (periodId : List Char) : List Char :=
  periodId.filter fun c => 'a' ≤ c && c ≤ 'z' || '0' ≤ c && c ≤ '9'

theorem stripId_stripId (periodId : List Char) : stripId (stripId periodId) = stripId periodId := by
  unfold stripId
  rw [List.filter_filter]
  simp only [Bool.and_self]

/-- A `TimePeriod`; its identifier has been stripped. -/
structure TimePeriod where
  period : Period
  id : List Char
  location : Option String := none
  attendees : List Attendee := []
  name : String := ""
  id_clean : stripId id = id

/-- `is_interval_in_schedules`. -/
def isIntervalInSchedules (interval : Period) (schedules : List Period) : Bool :=
  schedules.any fun s => decide (interval.start ≥ s.start) && decide (interval.stop ≤ s.stop)

/-- The attendees of a creation order: its creator, if the creator has an e-mail. -/
def attendeesOf : Option CreationOrder → List Attendee
  | none => []
  | some order =>
    if order.createdBy.email = "" then []
    else [{ displayName := if order.createdBy.fullName = "" then none else some order.createdBy.fullName
            email := order.createdBy.email }]

namespace Offering

variable (offering : Offering)

/-- The resources of `get_offering_bookings`, by `created`. -/
def bookedResources : List Resource :=
  (offering.resources.rows.filter fun r => r.state == .ok || r.state == .creating).insertionSort
    fun a b => a.created ≤ b.created

/-- `get_offering_bookings`; the order is the one of the first resource. -/
def getOfferingBookings : List TimePeriod :=
  let resources := offering.bookedResources
  resources.flatMap fun resource =>
    let attendees := attendeesOf (resources.head?.bind (·.creationOrder))
    let schedule := resource.slots.insertionSort fun a b => a.period.start ≤ b.period.start
    schedule.map fun slot =>
      { period := slot.period, id := stripId slot.backendId, location := offering.location, attendees := attendees,
        name := resource.name, id_clean := stripId_stripId slot.backendId }

/-- `get_offering_bookings_and_busy_slots`. -/
def getOfferingBookingsAndBusySlots : List TimePeriod :=
  offering.getOfferingBookings ++
    offering.busySlots.map fun slot =>
      { period := slot.period, id := stripId (slot.backendId.getD []), id_clean := stripId_stripId _ }

/-- `get_other_offering_booking_requests`, for an order that is not saved yet. -/
def getOtherOfferingBookingRequests : List Period :=
  (offering.resources.rows.filterMap (·.creationOrder)).flatMap fun order =>
    if order.state == .pendingConsumer || order.state == .pendingProvider || order.state == .executing ||
        order.state == .done then order.schedules
    else []

end Offering

theorem isIntervalInSchedules_iff {interval : Period} {schedules : List Period} :
    isIntervalInSchedules interval schedules = true ↔ ∃ s ∈ schedules, Inside interval s := by
  unfold isIntervalInSchedules Inside
  simp only [List.any_eq_true, Bool.and_eq_true, decide_eq_true_eq, ge_iff_le]

/-- The slots of the booked resources are what the bookings of an offering consist of. -/
theorem mem_getOfferingBookings {offering : Offering} {period : Period} :
    period ∈ offering.getOfferingBookings.map (·.period) ↔ ∃ r ∈ offering.resources.rows,
      (r.state = .ok ∨ r.state = .creating) ∧ period ∈ r.slots.map (·.period) := by
  unfold Offering.getOfferingBookings Offering.bookedResources
  simp only [List.map_flatMap, List.map_map, List.mem_flatMap, List.mem_insertionSort, List.mem_filter, Bool.or_eq_true,
    beq_iff_eq, List.mem_map, Function.comp_apply]
  constructor
  · rintro ⟨r, ⟨hr, hstate⟩, slot, hslot, rfl⟩
    exact ⟨r, hr, hstate, slot, hslot, rfl⟩
  · rintro ⟨r, hr, hstate, slot, hslot, rfl⟩
    exact ⟨r, ⟨hr, hstate⟩, slot, hslot, rfl⟩

end Waldur.Booking
