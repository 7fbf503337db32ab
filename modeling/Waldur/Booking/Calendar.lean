import Mathlib
import Waldur.Booking.Models

/-!
# Booking.Calendar — the calendar of an offering mirrors its bookings

`SyncBookings`: the events of the calendar are compared with the slots of the booked resources, by identifier, and
created, deleted or updated; events with other identifiers become the busy slots of the offering.  Every slot gets
the attendees of the creation order of the first resource.  The calendar backend stores what it is given.
-/

namespace Waldur.Booking

open Intervals Relational

/-! ## The calendar -/

/-- A time of an event; an event of a whole day has a date, given by its midnight. -/
inductive EventTime
  | dateTime (instant : ℤ)
  | date (midnight : ℤ)
deriving DecidableEq, Repr

/-- A time as it is read, with or without a time zone. -/
inductive ReadTime
  | aware (instant : ℤ)
  | naive (wallClock : ℤ)
deriving DecidableEq, Repr

/-- An event; identifiers of events are lower-case letters and digits. -/
structure Event where
  id : List Char
  summary : String
  start : Option EventTime
  stop : Option EventTime
  location : Option String
  attendees : List Attendee
  id_clean : stripId id = id
deriving DecidableEq

abbrev Calendar := Table (List Char) Event Event.id

/-- The body of an event that is written for a booking. -/
def TimePeriod.event (b : TimePeriod) (id : List Char) (id_clean : stripId id = id) (summary : String) : Event where
  id := id
  summary := summary
  start := some (.dateTime b.period.start)
  stop := some (.dateTime b.period.stop)
  location := b.location
  attendees := b.attendees
  id_clean := id_clean

/-- `update_event`; the backend has no event to update under an unknown identifier. -/
def updateEvent (summary : String) (calendar : Calendar) (b : TimePeriod) : Calendar :=
  calendar.update b.id (fun e => b.event e.id e.id_clean summary) (fun _ => rfl)

/-- `create_event`: an event that exists is updated. -/
def createEvent (summary : TimePeriod → String) (calendar : Calendar) (b : TimePeriod) : Calendar :=
  if h : calendar.get? b.id = none then calendar.insert (b.event b.id b.id_clean (summary b)) h
  else updateEvent (summary b) calendar b

/-- `delete_event`. -/
def deleteEvent (calendar : Calendar) (id : List Char) : Calendar := calendar.filter (·.id != id)

/-! ## The comparison -/

/-- `"booking" in event["id"]`. -/
def isBookingId (id : List Char) : Bool := decide ("booking".toList <:+: id)

def EventTime.readStart : EventTime → ReadTime
  | .dateTime t => .aware t
  | .date midnight => .naive midnight

/-- The last second of the day before the date, where an event ends with a date. -/
def EventTime.readStop : EventTime → ReadTime
  | .dateTime t => .aware t
  | .date midnight => .naive (midnight - 1000000)

/-- A time without a zone is one of the calendar's zone. -/
def ReadTime.localize (zone : ℤ → ℤ) : ReadTime → ℤ
  | .aware t => t
  | .naive wallClock => zone wallClock

/-- A booking as it is read from the calendar. -/
structure GoogleBooking where
  start : ReadTime
  stop : ReadTime
  id : List Char
  location : Option String
  attendees : List Attendee
deriving DecidableEq, Repr

/-- The booking of an event; an event without a start or an end is passed over. -/
def Event.googleBooking (e : Event) : Option GoogleBooking :=
  match e.start, e.stop with
  | some start, some stop =>
    if isBookingId e.id then some ⟨start.readStart, stop.readStop, stripId e.id, e.location, e.attendees⟩ else none
  | _, _ => none

def Event.busySlot (zone : ℤ → ℤ) (e : Event) : Option BusySlot :=
  match e.start, e.stop with
  | some start, some stop =>
    if isBookingId e.id then none
    else some ⟨⟨start.readStart.localize zone, stop.readStop.localize zone⟩, some (stripId e.id)⟩
  | _, _ => none

def googleBookings (calendar : Calendar) : List GoogleBooking := calendar.rows.filterMap (·.googleBooking)

/-- The booking of the calendar under the identifier. -/
def googleBooking? (calendar : Calendar) (id : List Char) : Option GoogleBooking :=
  (googleBookings calendar).find? (·.id == id)

/-- One of the fields differs. -/
def differs (b : TimePeriod) (g : GoogleBooking) : Bool :=
  decide (.aware b.period.start ≠ g.start) || decide (.aware b.period.stop ≠ g.stop) ||
    decide (b.location ≠ g.location) || decide (b.attendees ≠ g.attendees)

def needToAdd (offering : Offering) (calendar : Calendar) : List TimePeriod :=
  offering.getOfferingBookings.filter fun b => (googleBooking? calendar b.id).isNone

def needToUpdate (offering : Offering) (calendar : Calendar) : List TimePeriod :=
  offering.getOfferingBookings.filter fun b => (googleBooking? calendar b.id).any (differs b)

def needToDelete (offering : Offering) (calendar : Calendar) : List (List Char) :=
  ((googleBookings calendar).map (·.id)).dedup.filter fun id =>
    !decide (id ∈ offering.getOfferingBookings.map (·.id))

/-- `booking.name or self.offering.name`. -/
def summaryOf (offering : Offering) (b : TimePeriod) : String := if b.name = "" then offering.name else b.name

/-- The calendar after `sync_events`. -/
def syncCalendar (offering : Offering) (calendar : Calendar) : Calendar :=
  let added := (needToAdd offering calendar).foldl (createEvent (summaryOf offering)) calendar
  let deleted := (needToDelete offering calendar).foldl deleteEvent added
  (needToUpdate offering calendar).foldl (updateEvent offering.name) deleted

/-- `sync_events`, with the time zone of the calendar. -/
def syncEvents (zone : ℤ → ℤ) (s : Offering × Calendar) : Offering × Calendar :=
  ({ s.1 with busySlots := s.2.rows.filterMap (·.busySlot zone) }, syncCalendar s.1 s.2)

/-! ## Mirroring -/

/-- The slots of the booked resources, each with its resource. -/
def bookedSlots (offering : Offering) : List (Resource × BookingSlot) :=
  offering.bookedResources.flatMap fun r => r.slots.map fun slot => (r, slot)

/-- Identifier, interval and attendees of an event. -/
structure Entry where
  id : List Char
  start : Option EventTime
  stop : Option EventTime
  attendees : List Attendee

def Event.entry (e : Event) : Entry := ⟨e.id, e.start, e.stop, e.attendees⟩

/-- The event that stands for a slot: the attendee is the creator of the order of its resource. -/
def slotEntry (x : Resource × BookingSlot) : Entry where
  id := stripId x.2.backendId
  start := some (.dateTime x.2.period.start)
  stop := some (.dateTime x.2.period.stop)
  attendees := attendeesOf x.1.creationOrder

/-- The booking events correspond one to one to the slots of the booked resources. -/
def Mirrors (offering : Offering) (calendar : Calendar) : Prop :=
  ((calendar.rows.filter fun e => isBookingId e.id).map (·.entry)).Perm ((bookedSlots offering).map slotEntry)

/-- The identifiers of slots are `booking_` with distinct `uuid4` values. -/
structure DistinctIds (offering : Offering) : Prop where
  nodup : ((offering.resources.rows.flatMap (·.slots)).map (·.backendId)).Nodup
  hex : ∀ r ∈ offering.resources.rows, ∀ slot ∈ r.slots, ∃ uuid, stripId uuid = uuid ∧
    slot.backendId = "booking_".toList ++ uuid

variable {offering : Offering} {calendar : Calendar} {k : List Char} {e : Event} {b : TimePeriod} {g : GoogleBooking}

/-! ## The operations of the backend -/

theorem updateEvent_ne (summary : String) (t : Calendar) (b : TimePeriod) (k : List Char) (hk : k ≠ b.id) :
    (updateEvent summary t b).get? k = t.get? k :=
  Table.get?_update_ne t (fun e => b.event e.id e.id_clean summary) (fun _ => rfl) hk

theorem updateEvent_self (summary : String) (t : Calendar) (b : TimePeriod) :
    (updateEvent summary t b).get? b.id = (t.get? b.id).map fun e => b.event e.id e.id_clean summary :=
  Table.get?_update_self t b.id (fun e => b.event e.id e.id_clean summary) (fun _ => rfl)

theorem createEvent_ne (summary : TimePeriod → String) (t : Calendar) (b : TimePeriod) (k : List Char) (hk : k ≠ b.id) :
    (createEvent summary t b).get? k = t.get? k := by
  unfold createEvent
  split
  · exact (Table.get?_insert t _ _ k).trans (if_neg hk)
  · exact updateEvent_ne (summary b) t b k hk

theorem createEvent_self (summary : TimePeriod → String) (t : Calendar) (b : TimePeriod) :
    (createEvent summary t b).get? b.id = some (b.event b.id b.id_clean (summary b)) := by
  unfold createEvent
  split
  · exact (Table.get?_insert t _ _ b.id).trans (if_pos rfl)
  · next hsome =>
    obtain ⟨e, he⟩ := Option.ne_none_iff_exists'.mp hsome
    obtain ⟨-, hid⟩ := Table.get?_eq_some.mp he
    rw [updateEvent_self, he, Option.map_some, Option.some.injEq]
    exact (Event.mk.injEq ..).mpr ⟨hid, rfl, rfl, rfl, rfl, rfl⟩

theorem deleteEvent_ne (t : Calendar) (id k : List Char) (hk : k ≠ id) : (deleteEvent t id).get? k = t.get? k := by
  unfold deleteEvent
  rw [Table.get?_filter]
  cases he : t.get? k with
  | none => rfl
  | some e =>
    obtain ⟨-, rfl⟩ := Table.get?_eq_some.mp he
    rw [Option.filter_some, if_pos (bne_iff_ne.mpr hk)]

theorem deleteEvent_self (t : Calendar) (id : List Char) : (deleteEvent t id).get? id = none := by
  unfold deleteEvent
  refine Table.get?_eq_none.mpr fun e he heq => ?_
  exact bne_iff_ne.mp (List.mem_filter.mp he).2 heq

/-! ## What is read from the calendar -/

theorem googleBooking_spec (h : e.googleBooking = some g) : g.id = e.id ∧ isBookingId e.id = true := by
  unfold Event.googleBooking at h
  split at h
  · split at h
    · next hid =>
      obtain rfl := Option.some.inj h
      exact ⟨e.id_clean, hid⟩
    · exact nomatch h
  · exact nomatch h

theorem googleBooking_none (hid : isBookingId e.id = true) :
    e.googleBooking = none ↔ e.start = none ∨ e.stop = none := by
  unfold Event.googleBooking
  cases hstart : e.start with
  | none => simp
  | some start =>
    cases hstop : e.stop with
    | none => simp
    | some stop => simp [hid]

/-- The booking under an identifier is that of the event with this identifier. -/
theorem googleBooking?_eq : googleBooking? calendar k = (calendar.get? k).bind (·.googleBooking) := by
  have hmem : ∀ g, g ∈ googleBookings calendar ∧ g.id = k ↔ ∃ e, calendar.get? k = some e ∧ e.googleBooking = some g := by
    intro g
    unfold googleBookings
    rw [List.mem_filterMap]
    constructor
    · rintro ⟨⟨e, he, hg⟩, rfl⟩
      exact ⟨e, Table.get?_eq_some.mpr ⟨he, (googleBooking_spec hg).1.symm⟩, hg⟩
    · rintro ⟨e, he, hg⟩
      obtain ⟨hrow, rfl⟩ := Table.get?_eq_some.mp he
      exact ⟨⟨e, hrow, hg⟩, (googleBooking_spec hg).1⟩
  cases hfind : googleBooking? calendar k with
  | some g =>
    have hg : g ∈ googleBookings calendar ∧ g.id = k :=
      ⟨List.mem_of_find?_eq_some hfind, beq_iff_eq.mp (List.find?_some (p := fun g : GoogleBooking => g.id == k) hfind)⟩
    obtain ⟨e, he, hbooking⟩ := (hmem g).mp hg
    rw [he, Option.bind_some, hbooking]
  | none =>
    cases he : calendar.get? k with
    | none => rfl
    | some e =>
      rw [Option.bind_some]
      cases hbooking : e.googleBooking with
      | none => rfl
      | some g =>
        obtain ⟨hg, hid⟩ := (hmem g).mpr ⟨e, he, hbooking⟩
        exact absurd (beq_iff_eq.mpr hid) (List.find?_eq_none.mp hfind g hg)

/-! ## Slots and their bookings -/

/-- The booking that stands for a slot, with the attendees of the first resource. -/
def bookingOf (offering : Offering) (x : Resource × BookingSlot) : TimePeriod where
  period := x.2.period
  id := stripId x.2.backendId
  location := offering.location
  attendees := attendeesOf (offering.bookedResources.head?.bind (·.creationOrder))
  name := x.1.name
  id_clean := stripId_stripId x.2.backendId

theorem getOfferingBookings_perm : offering.getOfferingBookings.Perm ((bookedSlots offering).map (bookingOf offering)) := by
  unfold Offering.getOfferingBookings bookedSlots
  rw [List.map_flatMap]
  refine List.Perm.flatMap_left _ fun r _ => ?_
  rw [List.map_map]
  exact (List.perm_insertionSort _ r.slots).map _

theorem mem_bookings : b ∈ offering.getOfferingBookings ↔ ∃ x ∈ bookedSlots offering, bookingOf offering x = b := by
  rw [getOfferingBookings_perm.mem_iff, List.mem_map]

theorem mem_bookedSlots {x : Resource × BookingSlot} :
    x ∈ bookedSlots offering ↔ x.1 ∈ offering.bookedResources ∧ x.2 ∈ x.1.slots := by
  unfold bookedSlots
  rw [List.mem_flatMap]
  constructor
  · rintro ⟨r, hr, hx⟩
    obtain ⟨slot, hslot, rfl⟩ := List.mem_map.mp hx
    exact ⟨hr, hslot⟩
  · rintro ⟨hr, hslot⟩
    exact ⟨x.1, hr, List.mem_map.mpr ⟨x.2, hslot, rfl⟩⟩

theorem bookedResource_mem {r : Resource} (h : r ∈ offering.bookedResources) : r ∈ offering.resources.rows :=
  List.mem_of_mem_filter ((List.mem_insertionSort _).mp h)

/-- The stripped identifier of a slot: `booking` and the `uuid4`. -/
theorem DistinctIds.stripId_eq (h : DistinctIds offering) {x : Resource × BookingSlot} (hx : x ∈ bookedSlots offering) :
    ∃ uuid, x.2.backendId = "booking_".toList ++ uuid ∧ stripId x.2.backendId = "booking".toList ++ uuid := by
  obtain ⟨hr, hslot⟩ := mem_bookedSlots.mp hx
  obtain ⟨uuid, hclean, huuid⟩ := h.hex x.1 (bookedResource_mem hr) x.2 hslot
  refine ⟨uuid, huuid, ?_⟩
  have happend : stripId ("booking_".toList ++ uuid) = stripId "booking_".toList ++ stripId uuid :=
    List.filter_append _ _
  have hprefix : stripId "booking_".toList = "booking".toList := by decide
  rw [huuid, happend, hclean, hprefix]

theorem DistinctIds.nodup_slots (h : DistinctIds offering) :
    ((bookedSlots offering).map fun x => stripId x.2.backendId).Nodup := by
  have hslots : (bookedSlots offering).map (·.2) = offering.bookedResources.flatMap (·.slots) := by
    unfold bookedSlots
    rw [List.map_flatMap]
    refine List.flatMap_congr fun r _ => ?_
    rw [List.map_map]
    exact List.map_id' _
  have hsub : (((offering.resources.rows.filter fun r => r.state == .ok || r.state == .creating).flatMap
      (·.slots)).map (·.backendId)).Nodup :=
    h.nodup.sublist ((List.filter_sublist.flatMap _).map _)
  have hraw : ((bookedSlots offering).map fun x => x.2.backendId).Nodup := by
    have hperm := ((List.perm_insertionSort (fun a b : Resource => a.created ≤ b.created)
      (offering.resources.rows.filter fun r => r.state == .ok || r.state == .creating)).flatMap_right
        (·.slots)).map (·.backendId)
    have hsplit : (bookedSlots offering).map (fun x => x.2.backendId) =
        ((bookedSlots offering).map (·.2)).map (·.backendId) := by
      rw [List.map_map]
      rfl
    rw [hsplit, hslots]
    exact hperm.nodup_iff.mpr hsub
  refine List.Nodup.map_on (fun x hx y hy heq => ?_) hraw.of_map
  obtain ⟨uuid, hraw₁, hstrip₁⟩ := h.stripId_eq hx
  obtain ⟨uuid', hraw₂, hstrip₂⟩ := h.stripId_eq hy
  rw [hstrip₁, hstrip₂] at heq
  refine List.inj_on_of_nodup_map hraw hx hy ?_
  rw [hraw₁, hraw₂, List.append_cancel_left heq]

theorem DistinctIds.nodup_bookings (h : DistinctIds offering) : (offering.getOfferingBookings.map (·.id)).Nodup := by
  have hperm := (getOfferingBookings_perm : offering.getOfferingBookings.Perm _).map (·.id)
  rw [List.map_map] at hperm
  exact hperm.nodup_iff.mpr h.nodup_slots

theorem DistinctIds.isBookingId (h : DistinctIds offering) (hb : b ∈ offering.getOfferingBookings) :
    isBookingId b.id = true := by
  obtain ⟨x, hx, rfl⟩ := mem_bookings.mp hb
  obtain ⟨uuid, -, hstrip⟩ := h.stripId_eq hx
  refine decide_eq_true ?_
  show "booking".toList <:+: stripId x.2.backendId
  rw [hstrip]
  exact (List.prefix_append _ _).isInfix

/-! ## The calendar after a synchronisation -/

/-- The event shows the booking, up to its summary. -/
def Shows (e : Event) (b : TimePeriod) : Prop :=
  e.start = some (.dateTime b.period.start) ∧ e.stop = some (.dateTime b.period.stop) ∧ e.location = b.location ∧
    e.attendees = b.attendees

theorem shows_event {id : List Char} {id_clean : stripId id = id} {summary : String} :
    Shows (b.event id id_clean summary) b := ⟨rfl, rfl, rfl, rfl⟩

/-- Where nothing differs the event already shows the booking. -/
theorem shows_of_not_differs (hg : e.googleBooking = some g) (h : differs b g = false) : Shows e b := by
  unfold Event.googleBooking at hg
  cases hstart : e.start with
  | none =>
    rw [hstart] at hg
    exact nomatch hg
  | some start =>
    cases hstop : e.stop with
    | none =>
      rw [hstart, hstop] at hg
      exact nomatch hg
    | some stop =>
      rw [hstart, hstop] at hg
      simp only at hg
      split at hg
      · obtain rfl := Option.some.inj hg
        unfold differs at h
        simp only [Bool.or_eq_false_iff, decide_eq_false_iff_not, not_not] at h
        obtain ⟨⟨⟨h₁, h₂⟩, hlocation⟩, hattendees⟩ := h
        refine ⟨?_, ?_, hlocation.symm, hattendees.symm⟩
        · cases start with
          | dateTime t =>
            rw [hstart, ReadTime.aware.inj h₁]
          | date midnight => exact nomatch h₁
        · cases stop with
          | dateTime t =>
            rw [hstop, ReadTime.aware.inj h₂]
          | date midnight => exact nomatch h₂
      · exact nomatch hg

theorem differs_of_shows (hid : isBookingId e.id = true) (h : Shows e b) :
    ∃ g, e.googleBooking = some g ∧ differs b g = false := by
  obtain ⟨hstart, hstop, hlocation, hattendees⟩ := h
  refine ⟨⟨.aware b.period.start, .aware b.period.stop, stripId e.id, e.location, e.attendees⟩, ?_, ?_⟩
  · unfold Event.googleBooking
    rw [hstart, hstop]
    exact if_pos hid
  · unfold differs
    simp [hlocation, hattendees]

theorem needToAdd_sublist : (needToAdd offering calendar).Sublist offering.getOfferingBookings := List.filter_sublist

theorem needToUpdate_sublist : (needToUpdate offering calendar).Sublist offering.getOfferingBookings :=
  List.filter_sublist

theorem mem_needToDelete : k ∈ needToDelete offering calendar ↔
    (googleBooking? calendar k).isSome = true ∧ ∀ b ∈ offering.getOfferingBookings, b.id ≠ k := by
  have hids : k ∈ (googleBookings calendar).map (·.id) ↔ (googleBooking? calendar k).isSome = true := by
    unfold googleBooking?
    rw [List.find?_isSome, List.mem_map]
    exact exists_congr fun g => and_congr_right fun _ => beq_iff_eq.symm
  unfold needToDelete
  rw [List.mem_filter, List.mem_dedup, hids, Bool.not_eq_true', decide_eq_false_iff_not, List.mem_map, not_exists]
  exact and_congr_right fun _ => forall_congr' fun b => not_and

variable (calendar) in
/-- Under the identifier of a slot the calendar shows its booking. -/
theorem syncCalendar_booking (h : DistinctIds offering) (hb : b ∈ offering.getOfferingBookings) :
    ∃ e, (syncCalendar offering calendar).get? b.id = some e ∧ Shows e b := by
  have hadd : ((needToAdd offering calendar).map (·.id)).Nodup :=
    h.nodup_bookings.sublist (needToAdd_sublist.map TimePeriod.id)
  have hupdate : ((needToUpdate offering calendar).map (·.id)).Nodup :=
    h.nodup_bookings.sublist (needToUpdate_sublist.map TimePeriod.id)
  have hkept : ∀ k ∈ needToDelete offering calendar, k ≠ b.id := fun k hk heq =>
    (mem_needToDelete.mp hk).2 b hb heq.symm
  have hsame : ∀ b' ∈ offering.getOfferingBookings, b'.id = b.id → b' = b := fun b' hb' heq =>
    List.inj_on_of_nodup_map h.nodup_bookings hb' hb heq
  unfold syncCalendar
  cases hg : googleBooking? calendar b.id with
  | none =>
    -- The slot has no event yet, and what is created for it is not updated again.
    have hmem : b ∈ needToAdd offering calendar := List.mem_filter.mpr ⟨hb, by rw [hg]; rfl⟩
    have hrest : ∀ b' ∈ needToUpdate offering calendar, b'.id ≠ b.id := by
      intro b' hb' heq
      obtain ⟨hb', hany⟩ := List.mem_filter.mp hb'
      rw [hsame b' hb' heq, hg] at hany
      exact nomatch hany
    refine ⟨b.event b.id b.id_clean (summaryOf offering b), ?_, shows_event⟩
    obtain ⟨t, -, hfold⟩ := Table.get?_foldl_mem (createEvent_ne (summaryOf offering)) (t := calendar) hadd hmem
    rw [Table.get?_foldl_ne (updateEvent_ne _) hrest, Table.get?_foldl_ne deleteEvent_ne hkept, hfold, createEvent_self]
  | some g =>
    have hnew : ∀ b' ∈ needToAdd offering calendar, b'.id ≠ b.id := by
      intro b' hb' heq
      obtain ⟨hb', hnone⟩ := List.mem_filter.mp hb'
      rw [hsame b' hb' heq, hg] at hnone
      exact nomatch hnone
    have hkeep : ((needToDelete offering calendar).foldl deleteEvent
        ((needToAdd offering calendar).foldl (createEvent (summaryOf offering)) calendar)).get? b.id =
          calendar.get? b.id := by
      rw [Table.get?_foldl_ne deleteEvent_ne hkept, Table.get?_foldl_ne (createEvent_ne _) hnew]
    obtain ⟨e, he, hbooking⟩ := Option.bind_eq_some_iff.mp (googleBooking?_eq.symm.trans hg)
    cases hdiffers : differs b g with
    | false =>
      have hrest : ∀ b' ∈ needToUpdate offering calendar, b'.id ≠ b.id := by
        intro b' hb' heq
        obtain ⟨hb', hany⟩ := List.mem_filter.mp hb'
        rw [hsame b' hb' heq, hg, Option.any_some, hdiffers] at hany
        exact nomatch hany
      refine ⟨e, ?_, shows_of_not_differs hbooking hdiffers⟩
      rw [Table.get?_foldl_ne (updateEvent_ne _) hrest, hkeep, he]
    | true =>
      have hmem : b ∈ needToUpdate offering calendar :=
        List.mem_filter.mpr ⟨hb, by rw [hg, Option.any_some, hdiffers]⟩
      obtain ⟨t, ht, hfold⟩ := Table.get?_foldl_mem (updateEvent_ne offering.name)
        (t := (needToDelete offering calendar).foldl deleteEvent
          ((needToAdd offering calendar).foldl (createEvent (summaryOf offering)) calendar)) hupdate hmem
      refine ⟨b.event e.id e.id_clean offering.name, ?_, shows_event⟩
      rw [hfold, updateEvent_self, ht, hkeep, he, Option.map_some]

/-- Under any other identifier the calendar loses what it read as a booking. -/
theorem syncCalendar_other (hk : ∀ b ∈ offering.getOfferingBookings, b.id ≠ k) :
    (syncCalendar offering calendar).get? k =
      if (googleBooking? calendar k).isSome then none else calendar.get? k := by
  have hadd : ∀ b ∈ needToAdd offering calendar, b.id ≠ k := fun b hb => hk b (needToAdd_sublist.subset hb)
  have hupdate : ∀ b ∈ needToUpdate offering calendar, b.id ≠ k := fun b hb => hk b (needToUpdate_sublist.subset hb)
  unfold syncCalendar
  rw [Table.get?_foldl_ne (updateEvent_ne _) hupdate]
  cases hg : (googleBooking? calendar k).isSome with
  | true =>
    have hmem : k ∈ needToDelete offering calendar := mem_needToDelete.mpr ⟨hg, hk⟩
    have hnodup : ((needToDelete offering calendar).map fun k => k).Nodup := by
      rw [List.map_id']
      exact (List.nodup_dedup _).filter _
    obtain ⟨t, -, hfold⟩ := Table.get?_foldl_mem deleteEvent_ne
      (t := (needToAdd offering calendar).foldl (createEvent (summaryOf offering)) calendar) hnodup hmem
    rw [hfold, deleteEvent_self]
    rfl
  | false =>
    have hrest : ∀ k' ∈ needToDelete offering calendar, k' ≠ k := by
      rintro k' hk' rfl
      rw [(mem_needToDelete.mp hk').1] at hg
      exact nomatch hg
    rw [Table.get?_foldl_ne deleteEvent_ne hrest, Table.get?_foldl_ne (createEvent_ne _) hadd]
    rfl

/-! ## Mirroring -/

/-- **Where the calendar mirrors the bookings**: the creation order of each booked resource with slots has the
attendees of the one of the first resource, and a booking event without a start or an end is one of a slot. -/
def Mirrorable (offering : Offering) (calendar : Calendar) : Prop :=
  (∀ x ∈ bookedSlots offering,
    attendeesOf x.1.creationOrder = attendeesOf (offering.bookedResources.head?.bind (·.creationOrder))) ∧
  ∀ e ∈ calendar.rows, isBookingId e.id = true → e.start = none ∨ e.stop = none →
    ∃ x ∈ bookedSlots offering, stripId x.2.backendId = e.id

theorem entries_nodup : ((calendar.rows.filter fun e => isBookingId e.id).map (·.entry)).Nodup := by
  have hids : ((calendar.rows.filter fun e => isBookingId e.id).map (Entry.id ∘ Event.entry)).Nodup :=
    calendar.nodup.sublist (List.filter_sublist.map _)
  rw [← List.map_map] at hids
  exact hids.of_map

theorem DistinctIds.slotEntries_nodup (h : DistinctIds offering) : ((bookedSlots offering).map slotEntry).Nodup := by
  have hids := h.nodup_slots
  rw [show (fun x : Resource × BookingSlot => stripId x.2.backendId) = Entry.id ∘ slotEntry from rfl,
    ← List.map_map] at hids
  exact hids.of_map

theorem mem_entries {x : Entry} : x ∈ (calendar.rows.filter fun e => isBookingId e.id).map (·.entry) ↔
    isBookingId x.id = true ∧ ∃ e, calendar.get? x.id = some e ∧ e.entry = x := by
  rw [List.mem_map]
  constructor
  · rintro ⟨e, he, rfl⟩
    obtain ⟨hrow, hid⟩ := List.mem_filter.mp he
    exact ⟨hid, e, Table.get?_eq_some.mpr ⟨hrow, rfl⟩, rfl⟩
  · rintro ⟨hid, e, he, rfl⟩
    exact ⟨e, List.mem_filter.mpr ⟨(Table.get?_eq_some.mp he).1, hid⟩, rfl⟩

variable (calendar) in
/-- The event of a slot after a synchronisation. -/
theorem syncCalendar_slot (h : DistinctIds offering) {x : Resource × BookingSlot} (hx : x ∈ bookedSlots offering) :
    ∃ e, (syncCalendar offering calendar).get? (stripId x.2.backendId) = some e ∧ e.entry =
      { slotEntry x with attendees := attendeesOf (offering.bookedResources.head?.bind (·.creationOrder)) } := by
  obtain ⟨e, he, hstart, hstop, -, hattendees⟩ := syncCalendar_booking calendar h
    (mem_bookings.mpr ⟨x, hx, rfl⟩)
  obtain ⟨-, hid⟩ := Table.get?_eq_some.mp he
  refine ⟨e, he, ?_⟩
  unfold Event.entry
  rw [hid, hstart, hstop, hattendees]
  rfl

theorem mirrors_syncCalendar_iff (h : DistinctIds offering) :
    Mirrors offering (syncCalendar offering calendar) ↔ Mirrorable offering calendar := by
  unfold Mirrors Mirrorable
  rw [List.perm_ext_iff_of_nodup entries_nodup h.slotEntries_nodup]
  constructor
  · intro hperm
    refine ⟨fun x hx => ?_, fun e he hid hmissing => ?_⟩
    · obtain ⟨-, e, he, hentry⟩ := mem_entries.mp ((hperm (slotEntry x)).mpr (List.mem_map_of_mem hx))
      obtain ⟨e', he', hentry'⟩ := syncCalendar_slot calendar h hx
      obtain rfl := Option.some.inj (he.symm.trans he')
      exact congrArg Entry.attendees (hentry.symm.trans hentry')
    · by_contra hnone
      have hother : ∀ b ∈ offering.getOfferingBookings, b.id ≠ e.id := by
        rintro b hb heq
        obtain ⟨x, hx, rfl⟩ := mem_bookings.mp hb
        exact hnone ⟨x, hx, heq⟩
      have hget : calendar.get? e.id = some e := Table.get?_eq_some.mpr ⟨he, rfl⟩
      have hkept : (syncCalendar offering calendar).get? e.id = some e := by
        rw [syncCalendar_other hother, googleBooking?_eq, hget, Option.bind_some, (googleBooking_none hid).mpr hmissing]
        rfl
      obtain ⟨x, hx, hentry⟩ := List.mem_map.mp ((hperm e.entry).mp (mem_entries.mpr ⟨hid, e, hkept, rfl⟩))
      exact hnone ⟨x, hx, congrArg Entry.id hentry⟩
  · rintro ⟨hattendees, hmissing⟩ y
    rw [mem_entries, List.mem_map]
    constructor
    · rintro ⟨hid, e, he, rfl⟩
      by_cases hslot : ∃ x ∈ bookedSlots offering, stripId x.2.backendId = e.entry.id
      · obtain ⟨x, hx, hxid⟩ := hslot
        obtain ⟨e', he', hentry'⟩ := syncCalendar_slot calendar h hx
        rw [hxid] at he'
        obtain rfl := Option.some.inj (he.symm.trans he')
        refine ⟨x, hx, ?_⟩
        rw [hentry', ← hattendees x hx]
        rfl
      · -- An event that is no slot's is only left where it was passed over.
        have hother : ∀ b ∈ offering.getOfferingBookings, b.id ≠ e.entry.id := by
          rintro b hb heq
          obtain ⟨x, hx, rfl⟩ := mem_bookings.mp hb
          exact hslot ⟨x, hx, heq⟩
        rw [syncCalendar_other hother] at he
        split at he
        · cases he
        · next hgoogle =>
          rw [googleBooking?_eq, he, Option.bind_some, Bool.not_eq_true, Option.isSome_eq_false_iff,
            Option.isNone_iff_eq_none] at hgoogle
          exact absurd (hmissing e (Table.get?_eq_some.mp he).1 hid ((googleBooking_none hid).mp hgoogle)) hslot
    · rintro ⟨x, hx, rfl⟩
      obtain ⟨e, he, hentry⟩ := syncCalendar_slot calendar h hx
      refine ⟨h.isBookingId (mem_bookings.mpr ⟨x, hx, rfl⟩), e, he, ?_⟩
      rw [hentry, ← hattendees x hx]
      rfl

/-! ## A second synchronisation -/

theorem needToAdd_synced (h : DistinctIds offering) :
    needToAdd offering (syncCalendar offering calendar) = [] := by
  refine List.filter_eq_nil_iff.mpr fun b hb => ?_
  obtain ⟨e, he, hshows⟩ := syncCalendar_booking calendar h hb
  obtain ⟨-, hid⟩ := Table.get?_eq_some.mp he
  obtain ⟨g, hg, -⟩ := differs_of_shows (hid ▸ h.isBookingId hb) hshows
  rw [googleBooking?_eq, he, Option.bind_some, hg]
  exact nofun

theorem needToUpdate_synced (h : DistinctIds offering) :
    needToUpdate offering (syncCalendar offering calendar) = [] := by
  refine List.filter_eq_nil_iff.mpr fun b hb => ?_
  obtain ⟨e, he, hshows⟩ := syncCalendar_booking calendar h hb
  obtain ⟨-, hid⟩ := Table.get?_eq_some.mp he
  obtain ⟨g, hg, hsame⟩ := differs_of_shows (hid ▸ h.isBookingId hb) hshows
  rw [googleBooking?_eq, he, Option.bind_some, hg, Option.any_some, hsame]
  exact nofun

theorem needToDelete_synced : needToDelete offering (syncCalendar offering calendar) = [] := by
  refine List.eq_nil_iff_forall_not_mem.mpr fun k hk => ?_
  obtain ⟨hgoogle, hother⟩ := mem_needToDelete.mp hk
  rw [googleBooking?_eq, syncCalendar_other hother] at hgoogle
  split at hgoogle
  · cases hgoogle
  · next hnone =>
    rw [googleBooking?_eq] at hnone
    exact hnone hgoogle

theorem syncCalendar_synced (h : DistinctIds offering) :
    syncCalendar offering (syncCalendar offering calendar) = syncCalendar offering calendar := by
  show (needToUpdate offering (syncCalendar offering calendar)).foldl (updateEvent offering.name) _ = _
  rw [needToUpdate_synced h, needToDelete_synced, needToAdd_synced h]
  rfl

/-- The busy slots are read from the events that a synchronisation leaves. -/
theorem busySlot_booking {zone : ℤ → ℤ} (hid : isBookingId e.id = true) : e.busySlot zone = none := by
  unfold Event.busySlot
  split
  · exact if_pos hid
  · rfl

theorem busySlots_update {zone : ℤ → ℤ} {summary : String} (hid : isBookingId b.id = true) :
    (updateEvent summary calendar b).rows.filterMap (·.busySlot zone) = calendar.rows.filterMap (·.busySlot zone) := by
  show (calendar.rows.map _).filterMap _ = _
  rw [List.filterMap_map]
  refine List.filterMap_congr fun e _ => ?_
  rw [Function.comp_apply]
  split
  · next heq =>
    have he : isBookingId e.id = true := heq ▸ hid
    rw [busySlot_booking he]
    exact busySlot_booking he
  · rfl

theorem busySlots_create {zone : ℤ → ℤ} {summary : TimePeriod → String} (hid : isBookingId b.id = true) :
    (createEvent summary calendar b).rows.filterMap (·.busySlot zone) = calendar.rows.filterMap (·.busySlot zone) := by
  unfold createEvent
  split
  · show (calendar.rows ++ [_]).filterMap _ = _
    rw [List.filterMap_append, List.filterMap_cons, busySlot_booking hid]
    exact List.append_nil _
  · exact busySlots_update hid

theorem busySlots_delete {zone : ℤ → ℤ} (hid : isBookingId k = true) :
    (deleteEvent calendar k).rows.filterMap (·.busySlot zone) = calendar.rows.filterMap (·.busySlot zone) := by
  show (calendar.rows.filter _).filterMap _ = _
  rw [List.filterMap_filter]
  refine List.filterMap_congr fun e _ => ?_
  split
  · rfl
  · next heq =>
    have he : e.id = k := by simpa using heq
    exact (busySlot_booking (he ▸ hid)).symm

theorem busySlots_foldl {β : Type} {zone : ℤ → ℤ} {write : Calendar → β → Calendar} : ∀ {l : List β} {t : Calendar},
    (∀ x ∈ l, ∀ t, (write t x).rows.filterMap (·.busySlot zone) = t.rows.filterMap (·.busySlot zone)) →
      (l.foldl write t).rows.filterMap (·.busySlot zone) = t.rows.filterMap (·.busySlot zone)
  | [], _, _ => rfl
  | x :: l, t, h => by
    obtain ⟨hx, hl⟩ := List.forall_mem_cons.mp h
    rw [List.foldl_cons, busySlots_foldl hl, hx t]

theorem busySlots_synced {zone : ℤ → ℤ} (h : DistinctIds offering) :
    (syncCalendar offering calendar).rows.filterMap (·.busySlot zone) = calendar.rows.filterMap (·.busySlot zone) := by
  have hdelete : ∀ k ∈ needToDelete offering calendar, isBookingId k = true := by
    intro k hk
    obtain ⟨g, hg⟩ := Option.isSome_iff_exists.mp (mem_needToDelete.mp hk).1
    rw [googleBooking?_eq] at hg
    obtain ⟨e, he, hbooking⟩ := Option.bind_eq_some_iff.mp hg
    obtain ⟨-, rfl⟩ := Table.get?_eq_some.mp he
    exact (googleBooking_spec hbooking).2
  unfold syncCalendar
  rw [busySlots_foldl fun b hb t => busySlots_update (h.isBookingId (needToUpdate_sublist.subset hb)),
    busySlots_foldl fun k hk t => busySlots_delete (hdelete k hk),
    busySlots_foldl fun b hb t => busySlots_create (h.isBookingId (needToAdd_sublist.subset hb))]

/-- **Calendar synchronisation**: the booking events are the slots of the booked resources, each with its own attendees,
and a second synchronisation changes nothing, exactly where the condition holds. -/
theorem syncEvents_mirrors_iff (zone : ℤ → ℤ) (offering : Offering) (calendar : Calendar) (h : DistinctIds offering) :
    Mirrors (syncEvents zone (offering, calendar)).1 (syncEvents zone (offering, calendar)).2 ∧
        syncEvents zone (syncEvents zone (offering, calendar)) = syncEvents zone (offering, calendar) ↔
      Mirrorable offering calendar := by
  have hsecond : syncEvents zone (syncEvents zone (offering, calendar)) = syncEvents zone (offering, calendar) := by
    refine Prod.ext ?_ ?_
    · show { offering with busySlots := (syncCalendar offering calendar).rows.filterMap (Event.busySlot zone) } = _
      rw [busySlots_synced h]
      rfl
    · show syncCalendar offering (syncCalendar offering calendar) = syncCalendar offering calendar
      exact syncCalendar_synced h
  rw [and_iff_left hsecond]
  show Mirrors offering (syncCalendar offering calendar) ↔ _
  exact mirrors_syncCalendar_iff h

/-- Two booked resources with a slot each. -/
def twoBookings (first second : User) : Offering where
  schedules := [⟨0, 100⟩]
  resources := ⟨[
    { id := 1, created := 1, name := "first", state := .ok,
      creationOrder := some { createdBy := first, state := .done, schedules := [⟨10, 20⟩] },
      slots := [⟨⟨10, 20⟩, "booking_1a".toList⟩] },
    { id := 2, created := 2, name := "second", state := .ok,
      creationOrder := some { createdBy := second, state := .done, schedules := [⟨30, 40⟩] },
      slots := [⟨⟨30, 40⟩, "booking_2b".toList⟩] }], show ([1, 2] : List ℕ).Nodup by decide⟩

theorem twoBookings_ids (first second : User) : DistinctIds (twoBookings first second) := by
  refine ⟨?_, fun r hr slot hslot => ?_⟩
  · show (["booking_1a".toList, "booking_2b".toList] : List (List Char)).Nodup
    decide
  · rcases List.mem_cons.mp hr with rfl | hr
    · obtain rfl := List.mem_singleton.mp hslot
      exact ⟨"1a".toList, by decide, rfl⟩
    · obtain rfl := List.mem_singleton.mp hr
      obtain rfl := List.mem_singleton.mp hslot
      exact ⟨"2b".toList, by decide, rfl⟩

def alice : User := ⟨"alice@example.org", "Alice"⟩

def bob : User := ⟨"bob@example.org", "Bob"⟩

/-- An event of a slot at another time, one of a slot that is gone, and one of somebody else. -/
def oldCalendar : Calendar where
  rows := [
    ⟨"booking1a".toList, "old", some (.dateTime 0), some (.dateTime 5), none, [], by decide⟩,
    ⟨"booking9f".toList, "gone", some (.dateTime 50), some (.dateTime 60), none, [], by decide⟩,
    ⟨"holiday".toList, "holiday", some (.date 0), some (.date 100), none, [], by decide⟩]
  nodup := by decide

theorem same_creator_mirrored :
    Mirrors (syncEvents id (twoBookings alice alice, oldCalendar)).1 (syncEvents id (twoBookings alice alice, oldCalendar)).2 ∧
      syncEvents id (syncEvents id (twoBookings alice alice, oldCalendar)) =
        syncEvents id (twoBookings alice alice, oldCalendar) := by
  refine (syncEvents_mirrors_iff id (twoBookings alice alice) oldCalendar (twoBookings_ids alice alice)).mpr ⟨?_, ?_⟩
  · decide +kernel
  · decide +kernel

/-- The slot of the second resource gets the creator of the first order as attendee. -/
theorem other_creator_attends : ¬ ∀ (zone : ℤ → ℤ) (offering : Offering) (calendar : Calendar), DistinctIds offering →
    Mirrors (syncEvents zone (offering, calendar)).1 (syncEvents zone (offering, calendar)).2 ∧
      syncEvents zone (syncEvents zone (offering, calendar)) = syncEvents zone (offering, calendar) := by
  intro h
  have hperm := (h id (twoBookings alice bob) Table.empty (twoBookings_ids alice bob)).1
  have hattendees := hperm.map Entry.attendees
  revert hattendees
  decide +kernel

end Waldur.Booking
