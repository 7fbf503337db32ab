import Mathlib

/-!
# Calendar — dates of the proleptic Gregorian calendar

A `Date` carries the proof that its month and day exist.  Order is by year, month and day; day
arithmetic goes through the ordinal (1 January of year 1 is day 1), and back through `ofOrdinal`.
-/

namespace Calendar

def isLeap (year : ℕ) : Bool := year % 4 == 0 && (year % 100 != 0 || year % 400 == 0)

/-- Number of days of a month. -/
def monthDays (year month : ℕ) : ℕ :=
  if month = 2 then (if isLeap year then 29 else 28)
  else if month = 4 ∨ month = 6 ∨ month = 9 ∨ month = 11 then 30 else 31

theorem one_le_monthDays (year month : ℕ) : 1 ≤ monthDays year month := by
  unfold monthDays
  split_ifs <;> omega

structure Date where
  year : ℕ
  month : ℕ
  day : ℕ
  month_valid : 1 ≤ month ∧ month ≤ 12
  day_valid : 1 ≤ day ∧ day ≤ monthDays year month
deriving DecidableEq

namespace Date

instance : LT Date where
  lt a b := a.year < b.year ∨ (a.year = b.year ∧ (a.month < b.month ∨ (a.month = b.month ∧ a.day < b.day)))

instance (a b : Date) : Decidable (a < b) :=
  inferInstanceAs (Decidable (a.year < b.year ∨
    (a.year = b.year ∧ (a.month < b.month ∨ (a.month = b.month ∧ a.day < b.day)))))

/-- `date.replace(day=1)`. -/
def replaceDayOne (d : Date) : Date :=
  { d with day := 1, day_valid := ⟨le_refl 1, one_le_monthDays _ _⟩ }

/-- `date + relativedelta(months=k)`: the day is cut down to the length of the month. -/
def addMonths (d : Date) (k : ℕ) : Date :=
  let months := d.year * 12 + (d.month - 1) + k
  let year := months / 12
  let month := months % 12 + 1
  { year := year
    month := month
    day := min d.day (monthDays year month)
    month_valid := by omega
    day_valid := ⟨le_min d.day_valid.1 (one_le_monthDays _ _), min_le_right _ _⟩ }

def daysBeforeYear (year : ℕ) : ℕ := (year - 1) * 365 + (year - 1) / 4 - (year - 1) / 100 + (year - 1) / 400

def daysBeforeMonth (year month : ℕ) : ℕ := ((List.range (month - 1)).map (fun m => monthDays year (m + 1))).sum

/-- Days since the start of the calendar. -/
def toOrdinal (d : Date) : ℕ := daysBeforeYear d.year + daysBeforeMonth d.year d.month + d.day

/-- `(a - b).days`. -/
def daysSince (a b : Date) : ℤ := (a.toOrdinal : ℤ) - b.toOrdinal

/-! ## From ordinals to dates -/

theorem daysBeforeMonth_succ {year month : ℕ} (h : 1 ≤ month) :
    daysBeforeMonth year (month + 1) = daysBeforeMonth year month + monthDays year month := by
  obtain ⟨m, rfl⟩ : ∃ m, month = m + 1 := ⟨month - 1, by omega⟩
  unfold daysBeforeMonth
  rw [Nat.add_sub_cancel, Nat.add_sub_cancel, List.range_succ, List.map_append, List.sum_append, List.map_singleton,
    List.sum_singleton]

/-- A year has 365 days, or 366. -/
theorem daysBeforeMonth_thirteen (year : ℕ) : daysBeforeMonth year 13 = if isLeap year then 366 else 365 := by
  unfold daysBeforeMonth
  cases h : isLeap year <;> simp [monthDays, h, List.range_succ]

theorem succ_div_eq (y k : ℕ) : (y + 1) / k = y / k + if (y + 1) % k = 0 then 1 else 0 := by
  rw [Nat.succ_div]
  simp only [Nat.dvd_iff_mod_eq_zero]

theorem daysBeforeYear_succ {year : ℕ} (h : 1 ≤ year) :
    daysBeforeYear (year + 1) = daysBeforeYear year + daysBeforeMonth year 13 := by
  obtain ⟨y, rfl⟩ : ∃ y, year = y + 1 := ⟨year - 1, by omega⟩
  have h100 : (y + 1) % 100 = 0 → (y + 1) % 4 = 0 := by omega
  have h400 : (y + 1) % 400 = 0 → (y + 1) % 100 = 0 := by omega
  have hle : y / 100 ≤ y / 4 := Nat.div_le_div_left (by omega) (by omega)
  rw [daysBeforeMonth_thirteen]
  unfold daysBeforeYear isLeap
  rw [Nat.add_sub_cancel, Nat.add_sub_cancel, succ_div_eq y 4, succ_div_eq y 100, succ_div_eq y 400]
  generalize y / 4 = q₄ at *
  generalize y / 100 = q₁₀₀ at *
  generalize y / 400 = q₄₀₀
  generalize (y + 1) % 4 = r₄ at *
  generalize (y + 1) % 100 = r₁₀₀ at *
  generalize (y + 1) % 400 = r₄₀₀ at *
  by_cases h₄ : r₄ = 0 <;> by_cases h₁₀₀ : r₁₀₀ = 0 <;> by_cases h₄₀₀ : r₄₀₀ = 0 <;>
    simp [h₄, h₁₀₀, h₄₀₀] at h100 h400 ⊢ <;> omega

theorem le_daysBeforeYear (year : ℕ) : (year - 1) * 365 ≤ daysBeforeYear year := by
  unfold daysBeforeYear
  omega

/-- The year of an ordinal. -/
def yearOf (n : ℕ) : ℕ := Nat.findGreatest (fun y => daysBeforeYear y < n) (n / 365 + 2)

/-- The month of the `r`-th day of a year. -/
def monthOf (year r : ℕ) : ℕ := Nat.findGreatest (fun m => daysBeforeMonth year m < r) 12

theorem yearOf_spec {n : ℕ} (h : 1 ≤ n) :
    1 ≤ yearOf n ∧ daysBeforeYear (yearOf n) < n ∧ n ≤ daysBeforeYear (yearOf n + 1) := by
  have hone : daysBeforeYear 1 < n := h
  refine ⟨Nat.le_findGreatest (by omega) hone, Nat.findGreatest_spec (P := fun y => daysBeforeYear y < n) (by omega) hone, ?_⟩
  by_contra hlt
  rw [not_le] at hlt
  have hbound := le_daysBeforeYear (yearOf n + 1)
  have hle : yearOf n + 1 ≤ n / 365 + 2 := by omega
  have := Nat.le_findGreatest (P := fun y => daysBeforeYear y < n) hle hlt
  exact absurd this (Nat.not_succ_le_self _)

theorem monthOf_spec {year r : ℕ} (h₁ : 1 ≤ r) (h₂ : r ≤ daysBeforeMonth year 13) :
    (1 ≤ monthOf year r ∧ monthOf year r ≤ 12) ∧ daysBeforeMonth year (monthOf year r) < r ∧
      r ≤ daysBeforeMonth year (monthOf year r + 1) := by
  have hone : daysBeforeMonth year 1 < r := h₁
  have hle : monthOf year r ≤ 12 := Nat.findGreatest_le 12
  refine ⟨⟨Nat.le_findGreatest (by omega) hone, hle⟩,
    Nat.findGreatest_spec (P := fun m => daysBeforeMonth year m < r) (m := 1) (by omega) hone, ?_⟩
  rcases hle.lt_or_eq with hlt | heq
  · by_contra hgt
    rw [not_le] at hgt
    exact absurd (Nat.le_findGreatest (P := fun m => daysBeforeMonth year m < r) hlt hgt) (Nat.not_succ_le_self _)
  · rw [heq]
    exact h₂

/-- The day of the year of an ordinal. -/
def dayOfYear (n : ℕ) : ℕ := n - daysBeforeYear (yearOf n)

theorem dayOfYear_spec {n : ℕ} (h : 1 ≤ n) : 1 ≤ dayOfYear n ∧ dayOfYear n ≤ daysBeforeMonth (yearOf n) 13 := by
  obtain ⟨hy, hlt, hle⟩ := yearOf_spec h
  rw [daysBeforeYear_succ hy] at hle
  unfold dayOfYear
  omega

/-- The date of an ordinal. -/
def ofOrdinal (n : ℕ) (h : 1 ≤ n) : Date where
  year := yearOf n
  month := monthOf (yearOf n) (dayOfYear n)
  day := dayOfYear n - daysBeforeMonth (yearOf n) (monthOf (yearOf n) (dayOfYear n))
  month_valid := (monthOf_spec (dayOfYear_spec h).1 (dayOfYear_spec h).2).1
  day_valid := by
    obtain ⟨⟨h₁, -⟩, hlt, hle⟩ := monthOf_spec (dayOfYear_spec h).1 (dayOfYear_spec h).2
    rw [daysBeforeMonth_succ h₁] at hle
    omega

theorem toOrdinal_ofOrdinal {n : ℕ} (h : 1 ≤ n) : (ofOrdinal n h).toOrdinal = n := by
  obtain ⟨-, hlt, -⟩ := yearOf_spec h
  obtain ⟨-, hlt', -⟩ := monthOf_spec (dayOfYear_spec h).1 (dayOfYear_spec h).2
  show daysBeforeYear (yearOf n) + daysBeforeMonth (yearOf n) (monthOf (yearOf n) (dayOfYear n)) +
    (dayOfYear n - daysBeforeMonth (yearOf n) (monthOf (yearOf n) (dayOfYear n))) = n
  unfold dayOfYear at *
  omega

/-! ## Ordinals determine dates -/

theorem daysBeforeMonth_mono {year month month' : ℕ} (h : 1 ≤ month) (hle : month ≤ month') :
    daysBeforeMonth year month ≤ daysBeforeMonth year month' := by
  induction month', hle using Nat.le_induction with
  | base => exact le_refl _
  | succ m hm ih =>
    rw [daysBeforeMonth_succ (h.trans hm)]
    omega

theorem daysBeforeYear_mono {year year' : ℕ} (h : 1 ≤ year) (hle : year ≤ year') :
    daysBeforeYear year ≤ daysBeforeYear year' := by
  induction year', hle using Nat.le_induction with
  | base => exact le_refl _
  | succ y hy ih =>
    rw [daysBeforeYear_succ (h.trans hy)]
    omega

/-- Within its year, a date comes after the months before it and not after the next one begins. -/
theorem dayOfMonth_bounds (d : Date) : daysBeforeMonth d.year d.month < daysBeforeMonth d.year d.month + d.day ∧
    daysBeforeMonth d.year d.month + d.day ≤ daysBeforeMonth d.year (d.month + 1) := by
  have hday := d.day_valid
  rw [daysBeforeMonth_succ d.month_valid.1]
  omega

theorem toOrdinal_bounds {d : Date} (h : 1 ≤ d.year) :
    daysBeforeYear d.year < d.toOrdinal ∧ d.toOrdinal ≤ daysBeforeYear (d.year + 1) := by
  have hmonth := dayOfMonth_bounds d
  have hmono : daysBeforeMonth d.year (d.month + 1) ≤ daysBeforeMonth d.year 13 :=
    daysBeforeMonth_mono (by omega) (by have := d.month_valid; omega)
  rw [daysBeforeYear_succ h]
  unfold toOrdinal
  omega

/-- Dates are ordered as their ordinals. -/
theorem toOrdinal_lt_of_lt {a b : Date} (ha : 1 ≤ a.year) (h : a < b) : a.toOrdinal < b.toOrdinal := by
  rcases h with hyear | ⟨hyear, hmonth | ⟨hmonth, hday⟩⟩
  · have hle : daysBeforeYear (a.year + 1) ≤ daysBeforeYear b.year := daysBeforeYear_mono (by omega) hyear
    have hbounds := toOrdinal_bounds ha
    have hbounds' := toOrdinal_bounds (d := b) (by omega)
    omega
  · have hle : daysBeforeMonth a.year (a.month + 1) ≤ daysBeforeMonth a.year b.month :=
      daysBeforeMonth_mono (by omega) hmonth
    have hbounds := dayOfMonth_bounds a
    have hbounds' := dayOfMonth_bounds b
    unfold toOrdinal
    rw [← hyear] at hbounds' ⊢
    omega
  · unfold toOrdinal
    rw [← hyear, ← hmonth]
    omega

theorem lt_trichotomy (a b : Date) : a < b ∨ a = b ∨ b < a := by
  obtain ⟨y, m, d, hm, hd⟩ := a
  obtain ⟨y', m', d', hm', hd'⟩ := b
  rcases Nat.lt_trichotomy y y' with hy | rfl | hy
  · exact Or.inl (Or.inl hy)
  · rcases Nat.lt_trichotomy m m' with h | rfl | h
    · exact Or.inl (Or.inr ⟨rfl, Or.inl h⟩)
    · rcases Nat.lt_trichotomy d d' with h | rfl | h
      · exact Or.inl (Or.inr ⟨rfl, Or.inr ⟨rfl, h⟩⟩)
      · exact Or.inr (Or.inl rfl)
      · exact Or.inr (Or.inr (Or.inr ⟨rfl, Or.inr ⟨rfl, h⟩⟩))
    · exact Or.inr (Or.inr (Or.inr ⟨rfl, Or.inl h⟩))
  · exact Or.inr (Or.inr (Or.inl hy))

theorem toOrdinal_inj {a b : Date} (ha : 1 ≤ a.year) (hb : 1 ≤ b.year) (h : a.toOrdinal = b.toOrdinal) : a = b := by
  rcases lt_trichotomy a b with hlt | rfl | hlt
  · exact absurd h (toOrdinal_lt_of_lt ha hlt).ne
  · rfl
  · exact absurd h.symm (toOrdinal_lt_of_lt hb hlt).ne

theorem one_le_toOrdinal (d : Date) : 1 ≤ d.toOrdinal := by
  have hday := d.day_valid
  unfold toOrdinal
  omega

end Date

theorem april_valid : 1 ≤ 4 ∧ 4 ≤ 12 := by omega

theorem may_valid : 1 ≤ 5 ∧ 5 ≤ 12 := by omega

theorem june_valid : 1 ≤ 6 ∧ 6 ≤ 12 := by omega

end Calendar
