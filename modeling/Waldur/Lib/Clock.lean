import Mathlib

/-!
# Clock — instants in microseconds, and the days they span

An instant is a number of microseconds since midnight of day 0, in one time zone without shifts.
`fullDays` counts the days from one instant to another, a started day as a whole one; it is the ceiling
of the quotient (`fullDays_eq_iff`).  `atDayStart` and `atDayEnd` replace the hour, minute and second of
an instant and keep its microsecond.
-/

namespace Clock

/-- 24 hours. -/
abbrev dayLength : ℤ := 86400000000

/-- One second. -/
abbrev second : ℤ := 1000000

def day (t : ℤ) : ℤ := t / dayLength

def timeOfDay (t : ℤ) : ℤ := t % dayLength

def microsecond (t : ℤ) : ℤ := t % second

/-- The hour, minute and second set to 0:00:00. -/
def atDayStart (t : ℤ) : ℤ := day t * dayLength + microsecond t

/-- The hour, minute and second set to 23:59:59. -/
def atDayEnd (t : ℤ) : ℤ := day t * dayLength + (dayLength - second) + microsecond t

/-- Days between two instants: `divmod` by the length of a day, and one more for a remainder. -/
def fullDays (start stop : ℤ) : ℤ :=
  (stop - start) / dayLength + if (stop - start) % dayLength > 0 then 1 else 0

theorem fullDays_eq_iff {start stop n : ℤ} :
    fullDays start stop = n ↔ (n - 1) * dayLength < stop - start ∧ stop - start ≤ n * dayLength := by
  unfold fullDays dayLength
  split <;> omega

theorem microsecond_bounds (t : ℤ) : 0 ≤ microsecond t ∧ microsecond t < second := by
  unfold microsecond second
  omega

theorem day_timeOfDay (t : ℤ) : t = day t * dayLength + timeOfDay t ∧ 0 ≤ timeOfDay t ∧ timeOfDay t < dayLength := by
  unfold day timeOfDay dayLength
  omega

theorem day_mono {t t' : ℤ} (h : t ≤ t') : day t ≤ day t' := by
  unfold day dayLength
  omega

/-- From within the first second of day `d` to the last second of a day. -/
theorem fullDays_secondToLast {d x m m' : ℤ} (hm : 0 ≤ m ∧ m < second) (hm' : 0 ≤ m' ∧ m' < second) :
    fullDays (d * dayLength + m) (x * dayLength + (dayLength - second) + m') = x + 1 - d := by
  rw [fullDays_eq_iff]
  unfold second dayLength at *
  omega

/-- From within the first second of day `d` to the last instant before day `e`. -/
theorem fullDays_toLastInstant {d e m : ℤ} (hm : 0 ≤ m ∧ m < second) :
    fullDays (d * dayLength + m) (e * dayLength - 1) = e - d := by
  rw [fullDays_eq_iff]
  unfold second dayLength at *
  omega

/-- From any instant to the last one before day `e`: the last instant of a day is not counted. -/
theorem fullDays_toMonthEnd (start e : ℤ) :
    fullDays start (e * dayLength - 1) = e - day start - if timeOfDay start = dayLength - 1 then 1 else 0 := by
  obtain ⟨hstart, h₀, h₁⟩ := day_timeOfDay start
  rw [fullDays_eq_iff]
  unfold dayLength at *
  split <;> omega

/-- From any instant to the last second of day `x`: that second is not counted. -/
theorem fullDays_toLastSecond (start x : ℤ) {m : ℤ} (hm : 0 ≤ m ∧ m < second) :
    fullDays start (x * dayLength + (dayLength - second) + m) =
      x + 1 - day start - if timeOfDay start < dayLength - second + m then 0 else 1 := by
  obtain ⟨hstart, h₀, h₁⟩ := day_timeOfDay start
  rw [fullDays_eq_iff]
  unfold dayLength second at *
  split <;> omega

end Clock
