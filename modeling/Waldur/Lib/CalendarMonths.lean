import Mathlib
import Waldur.Lib.Calendar

/-!
# Lib.CalendarMonths — months of a calendar, and windows along a time line

The months are counted through; `addMonths` moves the count and cuts the day to the month it arrives in
(`day_addMonths`), so that two steps may arrive before one step of the same length (`addMonths_addMonths_eq_iff`).
A `Grid` is a row of windows, each of which ends before the next one starts: windows never meet, and every moment is
in one exactly when the grid has no gaps.
-/

namespace Calendar

/-- The length of a month that is counted from year 0. -/
def monthLength (i : ℕ) : ℕ := monthDays (i / 12) (i % 12 + 1)

/-- The months before a month, from year 0. -/
def monthIndex (year month : ℕ) : ℕ := year * 12 + (month - 1)

theorem monthLength_monthIndex {year month : ℕ} (h : 1 ≤ month ∧ month ≤ 12) :
    monthLength (monthIndex year month) = monthDays year month := by
  have hyear : (year * 12 + (month - 1)) / 12 = year := by omega
  have hmonth : (year * 12 + (month - 1)) % 12 + 1 = month := by omega
  unfold monthLength monthIndex
  rw [hyear, hmonth]

namespace Date

variable {a b d : Date} {k n : ℕ}

/-- The month of a date, counted from year 0. -/
def index (d : Date) : ℕ := monthIndex d.year d.month

theorem monthLength_index (d : Date) : monthLength d.index = monthDays d.year d.month :=
  monthLength_monthIndex d.month_valid

theorem day_le_monthLength (d : Date) : d.day ≤ monthLength d.index := by
  rw [monthLength_index]
  exact d.day_valid.2

theorem lt_iff_index : a < b ↔ a.index < b.index ∨ (a.index = b.index ∧ a.day < b.day) := by
  have ha := a.month_valid
  have hb := b.month_valid
  show a.year < b.year ∨ (a.year = b.year ∧ (a.month < b.month ∨ (a.month = b.month ∧ a.day < b.day))) ↔ _
  unfold index monthIndex
  omega

theorem eq_of_index (hindex : a.index = b.index) (hday : a.day = b.day) : a = b := by
  rcases lt_trichotomy a b with hlt | rfl | hlt
  · rw [lt_iff_index] at hlt
    omega
  · rfl
  · rw [lt_iff_index] at hlt
    omega

@[simp] theorem index_addMonths (d : Date) (k : ℕ) : (d.addMonths k).index = d.index + k := by
  show (d.year * 12 + (d.month - 1) + k) / 12 * 12 + ((d.year * 12 + (d.month - 1) + k) % 12 + 1 - 1) = _
  unfold index monthIndex
  omega

@[simp] theorem day_addMonths (d : Date) (k : ℕ) : (d.addMonths k).day = min d.day (monthLength (d.index + k)) := rfl

@[simp] theorem addMonths_zero (d : Date) : d.addMonths 0 = d :=
  eq_of_index (index_addMonths d 0) (min_eq_left (day_le_monthLength d))

theorem one_le_year_addMonths (h : 1 ≤ d.year) (k : ℕ) : 1 ≤ (d.addMonths k).year := by
  show 1 ≤ (d.year * 12 + (d.month - 1) + k) / 12
  omega

theorem addMonths_lt (d : Date) (h : k < n) : d.addMonths k < d.addMonths n := by
  rw [lt_iff_index, index_addMonths, index_addMonths]
  exact Or.inl (by omega)

theorem index_addMonths_addMonths (d : Date) (k n : ℕ) : ((d.addMonths k).addMonths n).index = d.index + (k + n) := by
  rw [index_addMonths, index_addMonths, Nat.add_assoc]

theorem day_addMonths_addMonths (d : Date) (k n : ℕ) : ((d.addMonths k).addMonths n).day =
    min (min d.day (monthLength (d.index + k))) (monthLength (d.index + (k + n))) := by
  rw [day_addMonths, day_addMonths, index_addMonths, Nat.add_assoc]

/-- Two steps arrive where one step does if the first one cuts no more off the day than the whole way. -/
theorem addMonths_addMonths_eq_iff : (d.addMonths k).addMonths n = d.addMonths (k + n) ↔
    min d.day (monthLength (d.index + (k + n))) ≤ monthLength (d.index + k) := by
  have hday := day_addMonths_addMonths d k n
  have hday' := day_addMonths d (k + n)
  constructor
  · intro heq
    rw [heq, hday'] at hday
    omega
  · intro hle
    refine eq_of_index ?_ (by omega)
    rw [index_addMonths_addMonths, index_addMonths]

/-- Two steps never arrive after one step. -/
theorem addMonths_addMonths_lt_or_eq (d : Date) (k n : ℕ) :
    (d.addMonths k).addMonths n < d.addMonths (k + n) ∨ (d.addMonths k).addMonths n = d.addMonths (k + n) := by
  have hday := day_addMonths_addMonths d k n
  have hday' := day_addMonths d (k + n)
  have hindex : ((d.addMonths k).addMonths n).index = (d.addMonths (k + n)).index := by
    rw [index_addMonths_addMonths, index_addMonths]
  rw [lt_iff_index]
  by_cases hlt : ((d.addMonths k).addMonths n).day < (d.addMonths (k + n)).day
  · exact Or.inl (Or.inr ⟨hindex, hlt⟩)
  · exact Or.inr (eq_of_index hindex (by omega))

end Date

/-- Windows along a time line of whole units. -/
structure Grid where
  start : ℕ → ℤ
  stop : ℕ → ℤ
  start_lt_stop : ∀ q, start q < stop q
  stop_le_start : ∀ q, stop q ≤ start (q + 1)

namespace Grid

variable (g : Grid) {q q' : ℕ} {t : ℤ}

/-- The first and the last unit of a window. -/
def window (q : ℕ) : ℤ × ℤ := (g.start q, g.stop q - 1)

/-- A unit is in a window. -/
def Within (w : ℤ × ℤ) (t : ℤ) : Prop := w.1 ≤ t ∧ t ≤ w.2

instance (w : ℤ × ℤ) (t : ℤ) : Decidable (Within w t) := inferInstanceAs (Decidable (_ ∧ _))

/-- From the start of a window to the start of the next one. -/
def Covers (q : ℕ) (t : ℤ) : Prop := g.start q ≤ t ∧ t < g.start (q + 1)

theorem start_strictMono : StrictMono g.start :=
  strictMono_nat_of_lt_succ fun q => (g.start_lt_stop q).trans_le (g.stop_le_start q)

/-- A moment has one place in the grid. -/
theorem covers_unique (h : g.Covers q t) (h' : g.Covers q' t) : q = q' := by
  rcases lt_trichotomy q q' with hlt | heq | hlt
  · exact absurd ((g.start_strictMono.monotone hlt).trans h'.1) h.2.not_ge
  · exact heq
  · exact absurd ((g.start_strictMono.monotone hlt).trans h.1) h'.2.not_ge

theorem covers_of_within (h : Within (g.window q) t) : g.Covers q t :=
  ⟨h.1, (Int.lt_of_le_sub_one h.2).trans_le (g.stop_le_start q)⟩

theorem within_iff (h : g.Covers q t) : Within (g.window q) t ↔ t < g.stop q := by
  unfold Within window
  have := h.1
  omega

/-- Windows in two places do not meet. -/
theorem window_disjoint (h : q ≠ q') (t : ℤ) : ¬ (Within (g.window q) t ∧ Within (g.window q') t) :=
  fun hboth => h (g.covers_unique (g.covers_of_within hboth.1) (g.covers_of_within hboth.2))

/-- The first unit after a window is in its place still, unless the next window starts there. -/
theorem covers_stop (h : g.stop q ≠ g.start (q + 1)) : g.Covers q (g.stop q) :=
  ⟨(g.start_lt_stop q).le, lt_of_le_of_ne (g.stop_le_start q) h⟩

/-- Every moment lies in the window at its place if and only if the grid has no gaps. -/
theorem within_all_iff : (∀ q t, g.Covers q t → Within (g.window q) t) ↔ ∀ q, g.stop q = g.start (q + 1) := by
  constructor
  · intro h q
    by_contra hne
    exact absurd ((g.within_iff (g.covers_stop hne)).mp (h q _ (g.covers_stop hne))) (lt_irrefl _)
  · intro h q t hcovers
    rw [g.within_iff hcovers, h q]
    exact hcovers.2

end Grid

end Calendar
