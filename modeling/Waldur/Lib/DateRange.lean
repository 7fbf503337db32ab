import Mathlib
import Waldur.Lib.Calendar

/-!
# Lib.DateRange — the dates of Python

`datetime.date` knows the years 1 to 9999.  Days are added through ordinals, and a day outside of the range is an
`OverflowError`.
-/

namespace Calendar

/-- A date of the years 1 to 9999. -/
structure PyDate where
  date : Date
  year_range : 1 ≤ date.year ∧ date.year ≤ 9999

namespace PyDate

/-- `date.max.toordinal()`. -/
def maxOrdinal : ℕ := 3652059

def ordinal (d : PyDate) : ℕ := d.date.toOrdinal

instance : LT PyDate where
  lt a b := a.date < b.date

instance : LE PyDate where
  le a b := ¬ b < a

instance (a b : PyDate) : Decidable (a < b) := inferInstanceAs (Decidable (a.date < b.date))

instance (a b : PyDate) : Decidable (a ≤ b) := inferInstanceAs (Decidable (¬ b < a))

/-- `(a - b).days`. -/
def daysSince (a b : PyDate) : ℤ := (a.ordinal : ℤ) - b.ordinal

variable {a b d : PyDate} {n : ℕ}

theorem daysBeforeYear_end : Date.daysBeforeYear 10000 = maxOrdinal := by decide

theorem lt_iff : a < b ↔ a.ordinal < b.ordinal := by
  refine ⟨Date.toOrdinal_lt_of_lt a.year_range.1, fun h => ?_⟩
  rcases Date.lt_trichotomy a.date b.date with hlt | heq | hlt
  · exact hlt
  · unfold ordinal at h
    rw [heq] at h
    exact absurd h (lt_irrefl _)
  · exact absurd (Date.toOrdinal_lt_of_lt b.year_range.1 hlt) (not_lt.mpr h.le)

theorem le_iff : a ≤ b ↔ a.ordinal ≤ b.ordinal := by
  show ¬ b < a ↔ _
  rw [lt_iff, not_lt]

/-- The date of an ordinal of the range. -/
def ofOrdinal (n : ℕ) (h : 1 ≤ n ∧ n ≤ maxOrdinal) : PyDate where
  date := Date.ofOrdinal n h.1
  year_range := by
    obtain ⟨hone, hlt, -⟩ := Date.yearOf_spec h.1
    refine ⟨hone, ?_⟩
    by_contra hyear
    have hmono : Date.daysBeforeYear 10000 ≤ Date.daysBeforeYear (Date.yearOf n) :=
      Date.daysBeforeYear_mono (by omega) (by
        have hlate : ¬ Date.yearOf n ≤ 9999 := hyear
        omega)
    rw [daysBeforeYear_end] at hmono
    omega

theorem ordinal_ofOrdinal {h : 1 ≤ n ∧ n ≤ maxOrdinal} : (ofOrdinal n h).ordinal = n := Date.toOrdinal_ofOrdinal h.1

/-- "date value out of range" and "days=...; must have magnitude <= 999999999". -/
inductive OverflowError
  | overflow
deriving DecidableEq, Repr

/-- `datetime.timedelta(days=x)`, with the fraction of a day dropped. -/
def timedelta (x : ℚ) : Except OverflowError ℤ := if |⌊x⌋| ≤ 999999999 then .ok ⌊x⌋ else .error .overflow

/-- `date + timedelta`. -/
def addDays (d : PyDate) (days : ℤ) : Except OverflowError PyDate :=
  let n := (d.ordinal + days).toNat
  if h : 1 ≤ n ∧ n ≤ maxOrdinal then .ok (ofOrdinal n h) else .error .overflow

/-- A later day of the range is its ordinal. -/
theorem addDays_eq_ok {k : ℕ} (h : d.ordinal + k ≤ maxOrdinal) :
    ∃ d', d.addDays k = .ok d' ∧ d'.ordinal = d.ordinal + k := by
  have hone : 1 ≤ d.ordinal := Date.one_le_toOrdinal d.date
  have hn : ((d.ordinal : ℤ) + (k : ℤ)).toNat = d.ordinal + k := by omega
  have hrange : 1 ≤ ((d.ordinal : ℤ) + (k : ℤ)).toNat ∧ ((d.ordinal : ℤ) + (k : ℤ)).toNat ≤ maxOrdinal := by omega
  refine ⟨ofOrdinal _ hrange, dif_pos hrange, ?_⟩
  rw [ordinal_ofOrdinal, hn]

theorem addDays_error {k : ℕ} (h : maxOrdinal < d.ordinal + k) : d.addDays k = .error .overflow := by
  refine dif_neg ?_
  omega

end PyDate

end Calendar
