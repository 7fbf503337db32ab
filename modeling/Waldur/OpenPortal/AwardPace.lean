import Mathlib
import Waldur.Lib.DateRange

/-!
# OpenPortal.AwardPace — how an award tracks against its window

`build_award_pace`, with rationals for floats.  The day on which an allocation runs out is a whole date, the projection
a fraction: an allocation that outlasts the end by some hours is both used up and lost.  The day is computed before it
is compared with the end, and has to be a date of Python (`consistent_iff`).
-/

namespace Waldur.OpenPortal

open Calendar PyDate

/-! ## The pace -/

/-- `SETTLING_IN_DAYS`. -/
def settlingInDays : ℤ := 14

/-- `SETTLING_IN_MAX_FRACTION`. -/
def settlingInMaxFraction : ℚ := 1 / 4

/-- `PACE_TOLERANCE`. -/
def paceTolerance : ℚ := 1 / 20

inductive PaceStatus
  | settling
  | behind
  | onTrack
  | ahead
  | exhausted
  | ended
deriving DecidableEq, Repr

structure AwardPace where
  startDate : PyDate
  endDate : PyDate
  allocation : ℚ
  used : ℚ
  remaining : ℚ
  totalDays : ℤ
  elapsedDays : ℤ
  remainingDays : ℤ
  elapsedFraction : ℚ
  usedFraction : ℚ
  requiredPerDay : Option ℚ
  requiredPerDayOverall : ℚ
  actualPerDay : ℚ
  projectedTotal : ℚ
  projectedDifference : ℚ
  exhaustionDate : Option PyDate
  status : PaceStatus

/-- `projected_loss`. -/
def AwardPace.projectedLoss (p : AwardPace) : ℚ := max 0 (-p.projectedDifference)

/-- The `exhaustion_date` of `build_award_pace`. -/
def exhaustionDate (endDate today : PyDate) (remaining actualPerDay : ℚ) : Except OverflowError (Option PyDate) :=
  if 0 < actualPerDay ∧ 0 < remaining then do
    let runsOutOn ← today.addDays (← timedelta (remaining / actualPerDay))
    return if runsOutOn ≤ endDate then some runsOutOn else none
  else .ok none

/-- The `status` of `build_award_pace`. -/
def paceStatus (endDate today : PyDate) (allocation used : ℚ) (totalDays elapsedDays : ℤ) : PaceStatus :=
  let settlingDays := min settlingInDays ⌊totalDays * settlingInMaxFraction⌋
  let delta := used / allocation - elapsedDays / totalDays
  if endDate ≤ today then .ended
  else if allocation ≤ used then .exhausted
  else if elapsedDays < settlingDays then .settling
  else if delta < -paceTolerance then .behind
  else if paceTolerance < delta then .ahead
  else .onTrack

/-- `build_award_pace`. -/
def buildAwardPace (startDate endDate : Option PyDate) (allocation used : Option ℚ) (today : PyDate) :
    Except OverflowError (Option AwardPace) :=
  match startDate, endDate, allocation with
  | some startDate, some endDate, some allocation =>
    let totalDays := endDate.daysSince startDate
    if allocation ≤ 0 then .ok none
    else if totalDays ≤ 0 then .ok none
    else do
      let used := max 0 (used.getD 0)
      let elapsedDays := min (max (today.daysSince startDate) 0) totalDays
      let remainingDays := totalDays - elapsedDays
      let actualPerDay := if 0 < elapsedDays then used / elapsedDays else 0
      let projectedTotal := actualPerDay * totalDays
      let remaining := allocation - used
      let exhaustion ← exhaustionDate endDate today remaining actualPerDay
      return some {
        startDate := startDate
        endDate := endDate
        allocation := allocation
        used := used
        remaining := remaining
        totalDays := totalDays
        elapsedDays := elapsedDays
        remainingDays := remainingDays
        elapsedFraction := elapsedDays / totalDays
        usedFraction := used / allocation
        requiredPerDay := if 0 < remainingDays then some (max 0 remaining / remainingDays) else none
        requiredPerDayOverall := allocation / totalDays
        actualPerDay := actualPerDay
        projectedTotal := projectedTotal
        projectedDifference := projectedTotal - allocation
        exhaustionDate := exhaustion
        status := paceStatus endDate today allocation used totalDays elapsedDays }
  | _, _, _ => .ok none

/-! ## Consistent figures -/

/-- The figures of a pace agree with one another. -/
structure AwardPace.Agrees (p : AwardPace) (today : PyDate) : Prop where
  exhausts : p.used < p.allocation → p.startDate ≤ today → today ≤ p.endDate →
    (p.exhaustionDate.isSome = true ↔ p.allocation ≤ p.projectedTotal)
  notLost : ¬ (p.exhaustionDate.isSome = true ∧ 0 < p.projectedLoss)
  within : ∀ d, p.exhaustionDate = some d → today ≤ d ∧ d ≤ p.endDate

/-- A pace is built, or there is none, and its figures agree. -/
def Consistent (startDate endDate : Option PyDate) (allocation used : Option ℚ) (today : PyDate) : Prop :=
  ∃ result, buildAwardPace startDate endDate allocation used today = .ok result ∧ ∀ p ∈ result, p.Agrees today

/-- How many days what is left lasts, at the rate of the days of the window that have gone. -/
def lasts (startDate endDate : PyDate) (allocation used : ℚ) (today : PyDate) : ℚ :=
  (allocation - used) * min (today.daysSince startDate) (endDate.daysSince startDate) / used

/-- **Where the figures agree**: of an award in use, what is left does not outlast the calendar, and before the end it
does not run out between the last whole day that it has and the next one. -/
def Foreseeable (startDate endDate : Option PyDate) (allocation used : Option ℚ) (today : PyDate) : Prop :=
  ∀ s ∈ startDate, ∀ e ∈ endDate, ∀ a ∈ allocation, ∀ u ∈ used, s < e → s < today → 0 < u → u < a →
    today.ordinal + ⌊lasts s e a u today⌋ ≤ maxOrdinal ∧
      (today ≤ e → ¬ (e.daysSince today < lasts s e a u today ∧ lasts s e a u today < e.daysSince today + 1))

section Exhaustion

variable {s e today d : PyDate} {remaining rate a u : ℚ} {p : AwardPace}

theorem exhaustionDate_none (h : ¬ (0 < rate ∧ 0 < remaining)) : exhaustionDate e today remaining rate = .ok none :=
  if_neg h

/-- The day of the ordinal that the rate leads to, if the calendar has it. -/
theorem exhaustionDate_some (hrate : 0 < rate) (hremaining : 0 < remaining)
    (h : today.ordinal + ⌊remaining / rate⌋ ≤ maxOrdinal) :
    ∃ d : PyDate, (d.ordinal : ℤ) = today.ordinal + ⌊remaining / rate⌋ ∧
      exhaustionDate e today remaining rate = .ok (if d ≤ e then some d else none) := by
  have hnonneg : 0 ≤ ⌊remaining / rate⌋ := Int.floor_nonneg.mpr (div_pos hremaining hrate).le
  obtain ⟨k, hk⟩ := Int.eq_ofNat_of_zero_le hnonneg
  rw [hk] at h
  have hmax : maxOrdinal = 3652059 := rfl
  obtain ⟨d, hd, hordinal⟩ := addDays_eq_ok (d := today) (k := k) (by omega)
  refine ⟨d, by rw [hk]; omega, ?_⟩
  have hdelta : timedelta (remaining / rate) = .ok (k : ℤ) := by
    unfold timedelta
    rw [hk, if_pos (by rw [Nat.abs_cast]; omega)]
  unfold exhaustionDate
  rw [if_pos ⟨hrate, hremaining⟩, hdelta]
  show (do let runsOutOn ← today.addDays k; pure (if runsOutOn ≤ e then some runsOutOn else none)) = _
  rw [hd]
  rfl

theorem exhaustionDate_error (hrate : 0 < rate) (hremaining : 0 < remaining)
    (h : (maxOrdinal : ℤ) < today.ordinal + ⌊remaining / rate⌋) :
    exhaustionDate e today remaining rate = .error .overflow := by
  have hnonneg : 0 ≤ ⌊remaining / rate⌋ := Int.floor_nonneg.mpr (div_pos hremaining hrate).le
  obtain ⟨k, hk⟩ := Int.eq_ofNat_of_zero_le hnonneg
  rw [hk] at h
  unfold exhaustionDate timedelta
  rw [if_pos ⟨hrate, hremaining⟩, hk]
  split_ifs with hsmall
  · show (do let runsOutOn ← today.addDays k; pure (if runsOutOn ≤ e then some runsOutOn else none)) = _
    rw [addDays_error (by omega)]
    rfl
  · rfl

/-- Without a date the projection must not reach the allocation. -/
theorem agrees_of_none (h : p.exhaustionDate = none) : p.Agrees today ↔
    (p.used < p.allocation → p.startDate ≤ today → today ≤ p.endDate → p.projectedTotal < p.allocation) := by
  constructor
  · intro hagrees hused hstart hend
    have hiff := hagrees.exhausts hused hstart hend
    rw [h] at hiff
    exact not_le.mp fun hle => Bool.false_ne_true (hiff.mpr hle)
  · intro hless
    refine ⟨fun hused hstart hend => ?_, fun hboth => ?_, fun d hd => ?_⟩
    · rw [h]
      exact iff_of_false Bool.false_ne_true (not_le.mpr (hless hused hstart hend))
    · rw [h] at hboth
      exact Bool.false_ne_true hboth.1
    · rw [h] at hd
      cases hd

/-- With a date of the window the projection must reach the allocation. -/
theorem agrees_of_some (h : p.exhaustionDate = some d) (hused : p.used < p.allocation) (hstart : p.startDate ≤ today)
    (htoday : today ≤ d) (hend : d ≤ p.endDate)
    (hdifference : p.projectedDifference = p.projectedTotal - p.allocation) :
    p.Agrees today ↔ p.allocation ≤ p.projectedTotal := by
  have hwindow : today ≤ p.endDate := by
    rw [le_iff] at *
    omega
  constructor
  · intro hagrees
    refine (hagrees.exhausts hused hstart hwindow).mp ?_
    rw [h]
    rfl
  · intro hreach
    refine ⟨fun _ _ _ => ?_, fun hboth => ?_, fun d' hd' => ?_⟩
    · rw [h]
      exact iff_of_true rfl hreach
    · have hloss := hboth.2
      unfold AwardPace.projectedLoss at hloss
      rw [hdifference] at hloss
      rcases lt_max_iff.mp hloss with hzero | hneg
      · exact lt_irrefl _ hzero
      · linarith
    · rw [h] at hd'
      obtain rfl := Option.some.inj hd'
      exact ⟨htoday, hend⟩

/-- The rate reaches the allocation by the end exactly if what is left lasts no longer than the window. -/
theorem projected_iff {elapsed total : ℚ} (hu : 0 < u) (helapsed : 0 < elapsed) :
    a ≤ u / elapsed * total ↔ (a - u) / (u / elapsed) ≤ total - elapsed := by
  have hrate : 0 < u / elapsed := div_pos hu helapsed
  have hwhole : elapsed * (u / elapsed) = u := by rw [mul_comm, div_mul_cancel₀ u helapsed.ne']
  rw [div_le_iff₀ hrate, sub_mul, hwhole, mul_comm total]
  constructor <;> intro h <;> linarith

end Exhaustion

section Consistency

variable {s e today : PyDate} {a : ℚ} {used : Option ℚ}

/-- The pace of an award with a window and an allocation. -/
def paceOf (s e : PyDate) (a : ℚ) (used : Option ℚ) (today : PyDate) (exhaustion : Option PyDate) : AwardPace :=
  let totalDays := e.daysSince s
  let u := max 0 (used.getD 0)
  let elapsedDays := min (max (today.daysSince s) 0) totalDays
  let actualPerDay := if 0 < elapsedDays then u / elapsedDays else 0
  { startDate := s
    endDate := e
    allocation := a
    used := u
    remaining := a - u
    totalDays := totalDays
    elapsedDays := elapsedDays
    remainingDays := totalDays - elapsedDays
    elapsedFraction := elapsedDays / totalDays
    usedFraction := u / a
    requiredPerDay :=
      if 0 < totalDays - elapsedDays then some (max 0 (a - u) / ((totalDays - elapsedDays : ℤ) : ℚ)) else none
    requiredPerDayOverall := a / totalDays
    actualPerDay := actualPerDay
    projectedTotal := actualPerDay * totalDays
    projectedDifference := actualPerDay * totalDays - a
    exhaustionDate := exhaustion
    status := paceStatus e today a u totalDays elapsedDays }

theorem buildAwardPace_eq (ha : 0 < a) (hwindow : s < e) : buildAwardPace (some s) (some e) (some a) used today =
    (exhaustionDate e today (paceOf s e a used today none).remaining (paceOf s e a used today none).actualPerDay).map
      fun exhaustion => some (paceOf s e a used today exhaustion) := by
  have hdays : ¬ e.daysSince s ≤ 0 := by
    have hlt := lt_iff.mp hwindow
    unfold daysSince
    omega
  unfold buildAwardPace
  simp only
  rw [if_neg (not_le.mpr ha), if_neg hdays]
  show (do
    let exhaustion ← exhaustionDate e today (paceOf s e a used today none).remaining
      (paceOf s e a used today none).actualPerDay
    pure (some (paceOf s e a used today exhaustion))) = _
  cases exhaustionDate e today (paceOf s e a used today none).remaining
    (paceOf s e a used today none).actualPerDay with
  | error _ => rfl
  | ok _ => rfl

theorem consistent_eq (ha : 0 < a) (hwindow : s < e) : Consistent (some s) (some e) (some a) used today ↔
    ∃ exhaustion, exhaustionDate e today (paceOf s e a used today none).remaining
      (paceOf s e a used today none).actualPerDay = .ok exhaustion ∧
        (paceOf s e a used today exhaustion).Agrees today := by
  unfold Consistent
  rw [buildAwardPace_eq ha hwindow]
  cases exhaustionDate e today (paceOf s e a used today none).remaining (paceOf s e a used today none).actualPerDay with
  | error err =>
    refine iff_of_false ?_ ?_
    · rintro ⟨result, h, -⟩
      cases h
    · rintro ⟨result, h, -⟩
      cases h
  | ok exhaustion =>
    constructor
    · rintro ⟨result, h, hagrees⟩
      obtain rfl := Except.ok.inj h
      exact ⟨exhaustion, rfl, hagrees _ rfl⟩
    · rintro ⟨exhaustion', h, hagrees⟩
      obtain rfl := Except.ok.inj h
      refine ⟨_, rfl, fun p hp => ?_⟩
      obtain rfl := Option.some.inj hp
      exact hagrees

/-- Nothing is projected where nothing is used or no day has gone. -/
theorem consistent_of_unused (ha : 0 < a) (hwindow : s < e) (h : used.getD 0 ≤ 0 ∨ today ≤ s) :
    Consistent (some s) (some e) (some a) used today := by
  have hrate : (paceOf s e a used today none).actualPerDay = 0 := by
    show (if 0 < min (max (today.daysSince s) 0) (e.daysSince s) then max 0 (used.getD 0) /
      ((min (max (today.daysSince s) 0) (e.daysSince s) : ℤ) : ℚ) else 0) = 0
    rcases h with hused | hearly
    · rw [max_eq_left hused, zero_div, ite_self]
    · have hdays : today.daysSince s ≤ 0 := by
        have hle := le_iff.mp hearly
        unfold daysSince
        omega
      rw [if_neg (by rw [max_eq_right hdays]; omega)]
  refine (consistent_eq ha hwindow).mpr ⟨none, exhaustionDate_none (by rw [hrate]; simp), (agrees_of_none rfl).mpr ?_⟩
  intro _ _ _
  show (paceOf s e a used today none).actualPerDay * _ < a
  rw [hrate, zero_mul]
  exact ha

/-- Nothing is projected for an award that is used up. -/
theorem consistent_of_spent (ha : 0 < a) (hwindow : s < e) (h : a ≤ used.getD 0) :
    Consistent (some s) (some e) (some a) used today := by
  have hspent : a ≤ max 0 (used.getD 0) := le_max_of_le_right h
  refine (consistent_eq ha hwindow).mpr ⟨none, exhaustionDate_none ?_, (agrees_of_none rfl).mpr ?_⟩
  · rintro ⟨-, hremaining⟩
    have hleft : 0 < a - max 0 (used.getD 0) := hremaining
    linarith
  · intro hused _ _
    exact absurd hused (not_lt.mpr hspent)

section InUse

variable {u : ℚ} {d : PyDate} {exhaustion : Option PyDate}

theorem elapsed_pos (hwindow : s < e) (htoday : s < today) : 0 < min (today.daysSince s) (e.daysSince s) := by
  have hse := lt_iff.mp hwindow
  have hst := lt_iff.mp htoday
  unfold daysSince
  omega

theorem rate_in_use (hwindow : s < e) (htoday : s < today) (hu : 0 < u) :
    (paceOf s e a (some u) today exhaustion).actualPerDay =
      u / ((min (today.daysSince s) (e.daysSince s) : ℤ) : ℚ) := by
  have hpos := elapsed_pos hwindow htoday
  have hmin : min (max (today.daysSince s) 0) (e.daysSince s) = min (today.daysSince s) (e.daysSince s) := by
    rw [max_eq_left ((lt_min_iff.mp hpos).1.le)]
  show (if 0 < min (max (today.daysSince s) 0) (e.daysSince s) then max 0 u /
    ((min (max (today.daysSince s) 0) (e.daysSince s) : ℤ) : ℚ) else 0) = _
  rw [hmin, if_pos hpos, max_eq_right hu.le]

theorem remaining_in_use (hu : 0 < u) : (paceOf s e a (some u) today exhaustion).remaining = a - u := by
  show a - max 0 u = a - u
  rw [max_eq_right hu.le]

theorem div_rate_eq_lasts :
    (a - u) / (u / ((min (today.daysSince s) (e.daysSince s) : ℤ) : ℚ)) = lasts s e a u today := by
  unfold lasts
  rw [div_div_eq_mul_div]

/-- The rate reaches the allocation if what is left lasts no longer than the days that are left. -/
theorem reaches_iff (hwindow : s < e) (htoday : s < today) (hu : 0 < u) :
    (paceOf s e a (some u) today exhaustion).allocation ≤ (paceOf s e a (some u) today exhaustion).projectedTotal ↔
      lasts s e a u today ≤ ((e.daysSince s - min (today.daysSince s) (e.daysSince s) : ℤ) : ℚ) := by
  have hposℚ : (0 : ℚ) < ((min (today.daysSince s) (e.daysSince s) : ℤ) : ℚ) := by
    exact_mod_cast elapsed_pos hwindow htoday
  show a ≤ (paceOf s e a (some u) today none).actualPerDay * ((e.daysSince s : ℤ) : ℚ) ↔ _
  rw [rate_in_use hwindow htoday hu, projected_iff hu hposℚ, div_rate_eq_lasts, Int.cast_sub]

/-- The day is within the window if what is left lasts less than a day longer. -/
theorem within_iff (hd : (d.ordinal : ℤ) = today.ordinal + ⌊lasts s e a u today⌋) :
    d ≤ e ↔ lasts s e a u today < e.daysSince today + 1 := by
  have hfloor : ⌊lasts s e a u today⌋ < e.daysSince today + 1 ↔
      lasts s e a u today < ((e.daysSince today + 1 : ℤ) : ℚ) :=
    Int.floor_lt
  rw [Int.cast_add, Int.cast_one] at hfloor
  rw [← hfloor, le_iff]
  unfold daysSince
  omega

/-- The figures around the day on which the allocation runs out. -/
theorem agrees_in_use (hwindow : s < e) (htoday : s < today) (hu : 0 < u) (hua : u < a)
    (hd : (d.ordinal : ℤ) = today.ordinal + ⌊lasts s e a u today⌋) (hafter : today ≤ d) :
    (paceOf s e a (some u) today (if d ≤ e then some d else none)).Agrees today ↔
      (today ≤ e → ¬ (e.daysSince today < lasts s e a u today ∧ lasts s e a u today < e.daysSince today + 1)) := by
  by_cases hend : today ≤ e
  · have hremainingDays : e.daysSince s - min (today.daysSince s) (e.daysSince s) = e.daysSince today := by
      have hle := le_iff.mp hend
      unfold daysSince
      omega
    by_cases hde : d ≤ e
    · have hused : (paceOf s e a (some u) today (some d)).used < a := by
        show max 0 u < a
        rw [max_eq_right hu.le]
        exact hua
      have hstart : s ≤ today := by
        rw [le_iff]
        exact (lt_iff.mp htoday).le
      rw [if_pos hde, agrees_of_some (p := paceOf s e a (some u) today (some d)) rfl hused hstart hafter hde rfl,
        reaches_iff hwindow htoday hu, hremainingDays]
      have hlt := (within_iff hd).mp hde
      exact ⟨fun hle _ hgap => absurd hgap.1 (not_lt.mpr hle), fun hgap => not_lt.mp fun h => hgap hend ⟨h, hlt⟩⟩
    · rw [if_neg hde, agrees_of_none rfl]
      have hge := not_lt.mp (mt (within_iff hd).mpr hde)
      refine iff_of_true (fun _ _ _ => not_le.mp fun hle => ?_) fun _ hgap => absurd hgap.2 (not_lt.mpr hge)
      have hshort := (reaches_iff hwindow htoday hu).mp hle
      rw [hremainingDays] at hshort
      linarith
  · have hlate : ¬ d ≤ e := by
      rw [le_iff] at hend hafter ⊢
      omega
    rw [if_neg hlate, agrees_of_none rfl]
    exact iff_of_true (fun _ _ hle => absurd hle hend) fun hle => absurd hle hend

/-- An award in use. -/
theorem consistent_in_use (hwindow : s < e) (htoday : s < today) (hu : 0 < u) (hua : u < a) :
    Consistent (some s) (some e) (some a) (some u) today ↔
      today.ordinal + ⌊lasts s e a u today⌋ ≤ maxOrdinal ∧
        (today ≤ e → ¬ (e.daysSince today < lasts s e a u today ∧ lasts s e a u today < e.daysSince today + 1)) := by
  have hrate : 0 < u / ((min (today.daysSince s) (e.daysSince s) : ℤ) : ℚ) :=
    div_pos hu (by exact_mod_cast elapsed_pos hwindow htoday)
  have hleft : 0 < a - u := sub_pos.mpr hua
  rw [consistent_eq (hu.trans hua) hwindow, rate_in_use hwindow htoday hu, remaining_in_use hu]
  rcases le_or_gt ((today.ordinal : ℤ) + ⌊lasts s e a u today⌋) maxOrdinal with hfits | hover
  · rw [and_iff_right hfits]
    obtain ⟨d, hd, hdate⟩ := exhaustionDate_some (e := e) hrate hleft (by rw [div_rate_eq_lasts]; exact hfits)
    rw [div_rate_eq_lasts] at hd
    have hnonneg : 0 ≤ ⌊lasts s e a u today⌋ := by
      rw [← div_rate_eq_lasts]
      exact Int.floor_nonneg.mpr (div_pos hleft hrate).le
    have hafter : today ≤ d := by
      rw [le_iff]
      omega
    rw [hdate, ← agrees_in_use hwindow htoday hu hua hd hafter]
    exact ⟨fun ⟨_, h, hagrees⟩ => Except.ok.inj h ▸ hagrees, fun hagrees => ⟨_, rfl, hagrees⟩⟩
  · rw [exhaustionDate_error hrate hleft (by rw [div_rate_eq_lasts]; exact hover)]
    refine iff_of_false ?_ fun h => absurd h.1 (not_le.mpr hover)
    rintro ⟨_, h, -⟩
    cases h

end InUse

/-- **When the figures of a pace agree**: exactly for awards whose end can be foreseen. -/
theorem consistent_iff (startDate endDate : Option PyDate) (allocation used : Option ℚ) (today : PyDate) :
    Consistent startDate endDate allocation used today ↔ Foreseeable startDate endDate allocation used today := by
  have hnone : ∀ {x}, buildAwardPace startDate endDate allocation used today = .ok x → x = none →
      Consistent startDate endDate allocation used today := by
    rintro x hx rfl
    exact ⟨none, hx, fun p hp => by cases hp⟩
  cases startDate with
  | none => exact iff_of_true (hnone rfl rfl) fun s hs => by cases hs
  | some s =>
  cases endDate with
  | none => exact iff_of_true (hnone rfl rfl) fun _ _ e he => by cases he
  | some e =>
  cases allocation with
  | none => exact iff_of_true (hnone rfl rfl) fun _ _ _ _ a ha => by cases ha
  | some a =>
  have hforesee : Foreseeable (some s) (some e) (some a) used today ↔
      ∀ u ∈ used, s < e → s < today → 0 < u → u < a → today.ordinal + ⌊lasts s e a u today⌋ ≤ maxOrdinal ∧
        (today ≤ e → ¬ (e.daysSince today < lasts s e a u today ∧ lasts s e a u today < e.daysSince today + 1)) := by
    unfold Foreseeable
    simp only [Option.mem_def, Option.some.injEq, forall_eq']
  rw [hforesee]
  by_cases ha : a ≤ 0
  · refine iff_of_true (hnone (if_pos ha) rfl) fun u _ _ _ hu hua => ?_
    linarith
  · rw [not_le] at ha
    by_cases hwindow : s < e
    · by_cases hunused : used.getD 0 ≤ 0 ∨ today ≤ s
      · refine iff_of_true (consistent_of_unused ha hwindow hunused) fun u hu _ hst hpos _ => ?_
        rcases hunused with hzero | hearly
        · rw [Option.mem_def.mp hu] at hzero
          exact absurd hpos (not_lt.mpr hzero)
        · exact absurd hst hearly
      · by_cases hspent : a ≤ used.getD 0
        · refine iff_of_true (consistent_of_spent ha hwindow hspent) fun u hu _ _ _ hua => ?_
          rw [Option.mem_def.mp hu] at hspent
          exact absurd hua (not_lt.mpr hspent)
        · rw [not_or, not_le] at hunused
          rw [not_le] at hspent
          cases used with
          | none => exact absurd hunused.1 (lt_irrefl _)
          | some u =>
            have hst : s < today := not_not.mp hunused.2
            rw [consistent_in_use (u := u) hwindow hst hunused.1 hspent]
            constructor
            · intro h u' hu' _ _ _ _
              obtain rfl := Option.some.inj hu'
              exact h
            · exact fun h => h u rfl hwindow hst hunused.1 hspent
    · have hdays : e.daysSince s ≤ 0 := by
        have hle := not_lt.mp (mt lt_iff.mpr hwindow)
        unfold daysSince
        omega
      refine iff_of_true (hnone ?_ rfl) fun u _ hse => absurd hse hwindow
      show (if a ≤ 0 then _ else if e.daysSince s ≤ 0 then _ else _) = _
      rw [if_neg (not_le.mpr ha), if_pos hdays]

end Consistency

/-! ## A trickle

15000 GPU hours over the June of 2024, of which a thousandth was used in the first ten days. -/

theorem award_start : 1 ≤ 1 ∧ 1 ≤ monthDays 2024 6 := by decide

theorem award_today : 1 ≤ 11 ∧ 11 ≤ monthDays 2024 6 := by decide

theorem award_end : 1 ≤ 30 ∧ 30 ≤ monthDays 2024 6 := by decide

theorem award_year : 1 ≤ 2024 ∧ 2024 ≤ 9999 := by decide

def awardStart : PyDate := ⟨⟨2024, 6, 1, june_valid, award_start⟩, award_year⟩

def awardToday : PyDate := ⟨⟨2024, 6, 11, june_valid, award_today⟩, award_year⟩

def awardEnd : PyDate := ⟨⟨2024, 6, 30, june_valid, award_end⟩, award_year⟩

theorem awardStart_ordinal : awardStart.ordinal = 739038 := by decide

theorem awardToday_ordinal : awardToday.ordinal = 739048 := by decide

theorem awardEnd_ordinal : awardEnd.ordinal = 739067 := by decide

/-- The day on which the allocation would run out is no date. -/
theorem trickle_overflows :
    ¬ Consistent (some awardStart) (some awardEnd) (some 15000) (some (1 / 1000)) awardToday := by
  have hlasts : lasts awardStart awardEnd 15000 (1 / 1000) awardToday = 149999990 := by
    unfold lasts daysSince
    rw [awardStart_ordinal, awardToday_ordinal, awardEnd_ordinal]
    norm_num
  have hwindow : awardStart < awardEnd := by
    rw [lt_iff, awardStart_ordinal, awardEnd_ordinal]
    norm_num
  have htoday : awardStart < awardToday := by
    rw [lt_iff, awardStart_ordinal, awardToday_ordinal]
    norm_num
  rw [consistent_in_use hwindow htoday (by norm_num) (by norm_num), hlasts, awardToday_ordinal]
  rintro ⟨hfits, -⟩
  rw [show ⌊(149999990 : ℚ)⌋ = 149999990 from Int.floor_ofNat _] at hfits
  exact absurd hfits (by decide)

end Waldur.OpenPortal
