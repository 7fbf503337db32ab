import Mathlib
import Waldur.Lib.CalendarMonths
import Waldur.Marketplace.AnnualBilling

/-!
# Marketplace.PrepaidWindows — the periods that a prepaid balance is counted over

The periods of `get_prepaid_balance` are the windows of a grid: each starts a whole number of steps after the creation of
the resource, and ends one step after its own start.  A day that the start was cut to is not restored at the end, so a
period may end days before the next one starts; it never does so exactly for the days of creation that are `Steady`
(`tiles_iff`).
-/

namespace Waldur.Marketplace

open Calendar Clock Invoices Grid

/-- The months of a period; what is counted over the lifetime has no steps of its own. -/
def stepMonths : LimitPeriods → ℕ
  | .month => 1
  | .quarterly => 3
  | .annual => 12
  | .total => 1

theorem stepMonths_pos (p : LimitPeriods) : 0 < stepMonths p := by
  cases p <;> decide

/-! ## Months after a creation -/

section Steps

variable {c t : Instant} {d d' : Date} {k n : ℕ}

theorem midnight_add_lt (hd : 1 ≤ d.year) (h : d < d') (x : ℤ) : midnight d + x < midnight d' + x := by
  have hord := Date.toOrdinal_lt_of_lt hd h
  show @LT.lt ℤ _ (((d.toOrdinal : ℤ) - epochOrdinal) * dayLength + x)
    (((d'.toOrdinal : ℤ) - epochOrdinal) * dayLength + x)
  unfold dayLength
  omega

theorem midnight_add_inj (hd : 1 ≤ d.year) (hd' : 1 ≤ d'.year) (x : ℤ) : midnight d + x = midnight d' + x ↔ d = d' := by
  constructor
  · intro heq
    have heq' : ((d.toOrdinal : ℤ) - epochOrdinal) * dayLength + x =
        ((d'.toOrdinal : ℤ) - epochOrdinal) * dayLength + x := heq
    unfold dayLength at heq'
    exact Date.toOrdinal_inj hd hd' (by omega)
  · rintro rfl
    rfl

/-- An instant of an earlier day is earlier. -/
theorem lt_of_date_lt (hc : InCalendar c) (ht : InCalendar t) (h : c.date < t.date) : c < t := by
  have hord := Date.toOrdinal_lt_of_lt (one_le_year_date c) h
  have hc' := toOrdinal_date hc
  have ht' := toOrdinal_date ht
  obtain ⟨hceq, -, hclt⟩ := day_timeOfDay c
  obtain ⟨hteq, htle, -⟩ := day_timeOfDay t
  show @LT.lt ℤ _ c t
  unfold dayLength at *
  omega

theorem one_le_year_step (c : Instant) (k : ℕ) : 1 ≤ (c.date.addMonths k).year :=
  Date.one_le_year_addMonths (one_le_year_date c) k

theorem date_addMonths (c : Instant) (k : ℕ) : (addMonths c k).date = c.date.addMonths k :=
  date_midnight_add (one_le_year_step c k) (timeOfDay_bounds c)

theorem timeOfDay_addMonths (c : Instant) (k : ℕ) : timeOfDay (addMonths c k) = timeOfDay c :=
  timeOfDay_midnight_add _ (timeOfDay_bounds c)

theorem addMonths_addMonths (c : Instant) (k n : ℕ) :
    addMonths (addMonths c k) n = midnight ((c.date.addMonths k).addMonths n) + timeOfDay c := by
  show midnight ((addMonths c k).date.addMonths n) + timeOfDay (addMonths c k) = _
  rw [date_addMonths, timeOfDay_addMonths]

theorem inCalendar_addMonths (c : Instant) (k : ℕ) : InCalendar (addMonths c k) := by
  have hord := Date.one_le_toOrdinal (c.date.addMonths k)
  have htime := timeOfDay_bounds c
  unfold InCalendar addMonths day midnight dayLength at *
  omega

theorem addMonths_zero (hc : InCalendar c) : addMonths c 0 = c := by
  have hord := toOrdinal_date hc
  obtain ⟨heq, -, -⟩ := day_timeOfDay c
  unfold addMonths
  rw [Date.addMonths_zero]
  show ((c.date.toOrdinal : ℤ) - epochOrdinal) * dayLength + timeOfDay c = c
  rw [hord]
  unfold dayLength at *
  omega

theorem addMonths_le (c : Instant) (h : k ≤ n) : addMonths c k ≤ addMonths c n := by
  rcases h.lt_or_eq with hlt | rfl
  · exact (midnight_add_lt (one_le_year_step c k) (Date.addMonths_lt _ hlt) _).le
  · exact le_refl _

/-- A later month comes after every instant of an earlier one. -/
theorem lt_addMonths (ht : InCalendar t) (h : t.date.index < c.date.index + k) : t < addMonths c k := by
  refine lt_of_date_lt ht (inCalendar_addMonths c k) ?_
  rw [date_addMonths, Date.lt_iff_index, Date.index_addMonths]
  exact Or.inl h

theorem addMonths_lt_of_index (ht : InCalendar t) (h : c.date.index + k < t.date.index) : addMonths c k < t := by
  refine lt_of_date_lt (inCalendar_addMonths c k) ht ?_
  rw [date_addMonths, Date.lt_iff_index, Date.index_addMonths]
  exact Or.inl h

theorem inCalendar_mono (hc : InCalendar c) (h : c ≤ t) : InCalendar t := by
  have hday := day_mono h
  unfold InCalendar at *
  omega

theorem index_mono (hc : InCalendar c) (h : c ≤ t) : c.date.index ≤ t.date.index := by
  by_contra hlt
  rw [not_le] at hlt
  refine absurd (lt_of_date_lt (inCalendar_mono hc h) hc ?_) h.not_gt
  exact Date.lt_iff_index.mpr (Or.inl hlt)

theorem monthsSince_eq (c t : Instant) : monthsSince t c =
    if addMonths c (t.date.index - c.date.index) ≤ t then t.date.index - c.date.index
    else t.date.index - c.date.index - 1 := by
  have hmonths : (t.date.year * 12 + t.date.month) - (c.date.year * 12 + c.date.month) = t.date.index - c.date.index := by
    have hc := c.date.month_valid
    have ht := t.date.month_valid
    unfold Date.index monthIndex
    omega
  unfold monthsSince
  rw [hmonths]

/-- **The whole months since the creation**: so many have passed, and not one more. -/
theorem monthsSince_spec (hc : InCalendar c) (h : c ≤ t) :
    addMonths c (monthsSince t c) ≤ t ∧ t < addMonths c (monthsSince t c + 1) := by
  have ht := inCalendar_mono hc h
  have hindex := index_mono hc h
  rw [monthsSince_eq]
  split_ifs with hle
  · exact ⟨hle, lt_addMonths ht (by omega)⟩
  · have hpos : t.date.index - c.date.index ≠ 0 := by
      intro hzero
      rw [hzero, addMonths_zero hc] at hle
      exact hle h
    refine ⟨(addMonths_lt_of_index ht (by omega)).le, ?_⟩
    rw [Nat.sub_add_cancel (by omega)]
    exact not_le.mp hle

end Steps

/-! ## The grid of the periods -/

/-- The periods of `n` months of a subscription. -/
def subscription (c : Instant) (n : ℕ) (hn : 0 < n) : Grid where
  start q := addMonths c (q * n)
  stop q := addMonths (addMonths c (q * n)) n
  start_lt_stop q := by
    rw [addMonths_addMonths]
    refine midnight_add_lt (one_le_year_step c _) ?_ _
    rw [Date.lt_iff_index, Date.index_addMonths _ n]
    exact Or.inl (by omega)
  stop_le_start q := by
    rw [addMonths_addMonths, Nat.succ_mul]
    rcases Date.addMonths_addMonths_lt_or_eq c.date (q * n) n with hlt | heq
    · exact (midnight_add_lt (Date.one_le_year_addMonths (one_le_year_step c _) n) hlt _).le
    · rw [heq]
      exact le_refl _

section Subscription

variable {c t : Instant} {n : ℕ} (hn : 0 < n)

theorem prepaidPeriod_eq {r : BilledResource} {p : LimitPeriods} (hp : p ≠ .total) : prepaidPeriod p r t =
    (subscription r.created (stepMonths p) (stepMonths_pos p)).window (monthsSince t r.created / stepMonths p) := by
  unfold prepaidPeriod window subscription
  cases p with
  | month => simp only [stepMonths, Nat.div_one, Nat.mul_one]
  | quarterly => simp only [stepMonths]
  | annual => simp only [stepMonths]
  | total => exact absurd rfl hp

/-- The period that is counted at a moment is the one at its place. -/
theorem covers_monthsSince (hc : InCalendar c) (h : c ≤ t) : (subscription c n hn).Covers (monthsSince t c / n) t := by
  obtain ⟨hle, hlt⟩ := monthsSince_spec hc h
  have hdiv := Nat.div_mul_le_self (monthsSince t c) n
  have hmod := Nat.lt_div_mul_add (a := monthsSince t c) hn
  constructor
  · exact (addMonths_le c hdiv).trans hle
  · exact hlt.trans_le (addMonths_le c (by rw [Nat.succ_mul]; exact hmod))

/-- A period ends where the next one starts if the month it starts in has the day it is to end on. -/
theorem stop_eq_start_iff (q : ℕ) : (subscription c n hn).stop q = (subscription c n hn).start (q + 1) ↔
    min c.date.day (monthLength (c.date.index + (q * n + n))) ≤ monthLength (c.date.index + q * n) := by
  have hyear := Date.one_le_year_addMonths (one_le_year_step c (q * n)) n
  show addMonths (addMonths c (q * n)) n = addMonths c ((q + 1) * n) ↔ _
  rw [addMonths_addMonths, Nat.succ_mul, ← Date.addMonths_addMonths_eq_iff]
  exact midnight_add_inj hyear (one_le_year_step c _) _

end Subscription

/-! ## The days that every month of the grid has -/

/-- **A day of creation that no step cuts and restores**: for months up to the 28th, for quarters also the 29th and 30th
where they never start in February, for years every day except 29 February. -/
def Steady (d : Date) : LimitPeriods → Prop
  | .month => d.day ≤ 28
  | .quarterly => d.day ≤ 28 ∨ (d.day ≤ 30 ∧ d.month % 3 ≠ 2)
  | .annual => ¬ (d.month = 2 ∧ d.day = 29)
  | .total => True

instance (d : Date) : (p : LimitPeriods) → Decidable (Steady d p)
  | .month => inferInstanceAs (Decidable (_ ≤ _))
  | .quarterly => inferInstanceAs (Decidable (_ ∨ _))
  | .annual => inferInstanceAs (Decidable (¬ _))
  | .total => inferInstanceAs (Decidable True)

section MonthLengths

variable {i y : ℕ} {d : Date}

theorem le_monthLength (i : ℕ) : 28 ≤ monthLength i := by
  unfold monthLength monthDays
  split_ifs <;> omega

theorem le_monthLength_of_ne (h : i % 12 ≠ 1) : 30 ≤ monthLength i := by
  unfold monthLength monthDays
  rw [if_neg (by omega)]
  split_ifs <;> omega

/-- Outside of February a month has the same length every year. -/
theorem monthLength_add_years (h : i % 12 ≠ 1) (k : ℕ) : monthLength (i + 12 * k) = monthLength i := by
  have hmod : (i + 12 * k) % 12 = i % 12 := by omega
  have hfebruary : i % 12 + 1 ≠ 2 := by omega
  unfold monthLength monthDays
  rw [hmod, if_neg hfebruary, if_neg hfebruary]

theorem monthLength_year_add {j : ℕ} (hj : j < 12) : monthLength (y * 12 + j) = monthDays y (j + 1) := by
  have hdiv : (y * 12 + j) / 12 = y := by omega
  have hmod : (y * 12 + j) % 12 = j := by omega
  unfold monthLength
  rw [hdiv, hmod]

/-- An odd year has no leap day. -/
theorem isLeap_odd (y : ℕ) : isLeap (2 * y + 1) = false := by
  have hmod : (2 * y + 1) % 4 ≠ 0 := by omega
  unfold isLeap
  rw [beq_false_of_ne hmod, Bool.false_and]

theorem isLeap_add (y : ℕ) : isLeap (y + 400) = isLeap y := by
  have h₄ : (y + 400) % 4 = y % 4 := by omega
  have h₁₀₀ : (y + 400) % 100 = y % 100 := by omega
  have h₄₀₀ : (y + 400) % 400 = y % 400 := by omega
  unfold isLeap
  rw [h₄, h₁₀₀, h₄₀₀]

theorem isLeap_of_leapDay (hmonth : d.month = 2) (hday : d.day = 29) : isLeap d.year = true := by
  have hvalid := d.day_valid.2
  rw [hmonth, hday] at hvalid
  unfold monthDays at hvalid
  cases hleap : isLeap d.year with
  | true => rfl
  | false => simp [hleap] at hvalid

/-- The months that a grid starts a period in are the ones a whole number of steps away. -/
theorem exists_step {n i j : ℕ} (hle : i ≤ j) (hmod : j % n = i % n) : ∃ q, i + q * n = j := by
  obtain ⟨q, hq⟩ := (Nat.modEq_iff_dvd' hle).mp (Eq.symm hmod)
  exact ⟨q, by rw [Nat.mul_comm, ← hq]; omega⟩

end MonthLengths

/-- No step of `n` months arrives at a day that the month before it did not have. -/
def Seamless (d : Date) (n : ℕ) : Prop :=
  ∀ q, min d.day (monthLength (d.index + (q * n + n))) ≤ monthLength (d.index + q * n)

section Seamless

variable {d : Date} {n j y : ℕ}

theorem Seamless.step (h : Seamless d n) (hle : d.index ≤ j) (hmod : j % n = d.index % n) :
    min d.day (monthLength (j + n)) ≤ monthLength j := by
  obtain ⟨q, rfl⟩ := exists_step hle hmod
  have hq := h q
  rwa [← Nat.add_assoc] at hq

/-- February of a year without a leap day. -/
theorem length_february (y : ℕ) : monthLength ((2 * y + 1) * 12 + 1) = 28 := by
  rw [monthLength_year_add (by decide)]
  unfold monthDays
  simp [isLeap_odd]

theorem length_march (y : ℕ) : monthLength (y * 12 + 2) = 31 := monthLength_year_add (by decide)

theorem length_april (y : ℕ) : monthLength (y * 12 + 3) = 30 := monthLength_year_add (by decide)

theorem length_may (y : ℕ) : monthLength (y * 12 + 4) = 31 := monthLength_year_add (by decide)

theorem length_july (y : ℕ) : monthLength (y * 12 + 6) = 31 := monthLength_year_add (by decide)

theorem length_september (y : ℕ) : monthLength (y * 12 + 8) = 30 := monthLength_year_add (by decide)

theorem length_december (y : ℕ) : monthLength (y * 12 + 11) = 31 := monthLength_year_add (by decide)

/-- The months of some later year without a leap day come after the creation. -/
theorem index_le_oddYear (d : Date) (j : ℕ) : d.index ≤ (2 * d.year + 1) * 12 + j := by
  have hmonth := d.month_valid
  unfold Date.index monthIndex
  omega

theorem seamless_month_iff (d : Date) : Seamless d 1 ↔ d.day ≤ 28 := by
  constructor
  · intro h
    have hstep : min d.day (monthLength ((2 * d.year + 1) * 12 + 2)) ≤ monthLength ((2 * d.year + 1) * 12 + 1) :=
      h.step (index_le_oddYear d 1) (by omega)
    rw [length_february, length_march] at hstep
    omega
  · intro hday q
    have := le_monthLength (d.index + q * 1)
    omega

theorem seamless_quarterly_iff (d : Date) : Seamless d 3 ↔ d.day ≤ 28 ∨ (d.day ≤ 30 ∧ d.month % 3 ≠ 2) := by
  have hmonth := d.month_valid
  have hindex : d.index = d.year * 12 + (d.month - 1) := rfl
  constructor
  · intro h
    by_contra hnot
    rw [not_or, not_and_or, not_not] at hnot
    have hclass : d.month % 3 = 0 ∨ d.month % 3 = 1 ∨ d.month % 3 = 2 := by omega
    rcases hclass with hzero | hone | htwo
    · have hstep : min d.day (monthLength ((2 * d.year + 1) * 12 + 11)) ≤ monthLength ((2 * d.year + 1) * 12 + 8) :=
        h.step (index_le_oddYear d 8) (by omega)
      rw [length_september, length_december] at hstep
      omega
    · have hstep : min d.day (monthLength ((2 * d.year + 1) * 12 + 6)) ≤ monthLength ((2 * d.year + 1) * 12 + 3) :=
        h.step (index_le_oddYear d 3) (by omega)
      rw [length_april, length_july] at hstep
      omega
    · have hstep : min d.day (monthLength ((2 * d.year + 1) * 12 + 4)) ≤ monthLength ((2 * d.year + 1) * 12 + 1) :=
        h.step (index_le_oddYear d 1) (by omega)
      rw [length_february, length_may] at hstep
      omega
  · rintro (hday | ⟨hday, hclass⟩) q
    · have := le_monthLength (d.index + q * 3)
      omega
    · have := le_monthLength_of_ne (i := d.index + q * 3) (by omega)
      omega

theorem seamless_annual_iff (d : Date) : Seamless d 12 ↔ ¬ (d.month = 2 ∧ d.day = 29) := by
  have hmonth := d.month_valid
  have hindex : d.index = d.year * 12 + (d.month - 1) := rfl
  have hlength := Date.day_le_monthLength d
  constructor
  · rintro h ⟨hfebruary, hday⟩
    have hleap := isLeap_of_leapDay hfebruary hday
    have hodd : isLeap (d.year + 399) = false := by
      have hmod : d.year % 4 = 0 := by
        unfold isLeap at hleap
        rw [Bool.and_eq_true, beq_iff_eq] at hleap
        exact hleap.1
      unfold isLeap
      rw [beq_false_of_ne (by omega), Bool.false_and]
    have hnext : (d.year + 399) * 12 + 1 + 12 = (d.year + 400) * 12 + 1 := by omega
    have hstep := h.step (j := (d.year + 399) * 12 + 1) (by omega) (by omega)
    rw [hnext, monthLength_year_add (by decide), monthLength_year_add (by decide), hday] at hstep
    simp [monthDays, isLeap_add, hleap, hodd] at hstep
  · intro hday q
    by_cases hfebruary : d.index % 12 = 1
    · have hnot : d.day ≠ 29 := fun heq => hday ⟨by omega, heq⟩
      have hle : monthLength d.index ≤ 29 := by
        rw [Date.monthLength_index]
        unfold monthDays
        rw [if_pos (by omega)]
        split_ifs <;> omega
      have := le_monthLength (d.index + q * 12)
      omega
    · have hyears := monthLength_add_years (i := d.index) hfebruary q
      rw [Nat.mul_comm] at hyears
      omega

theorem seamless_iff_steady {p : LimitPeriods} (hp : p ≠ .total) (d : Date) : Seamless d (stepMonths p) ↔ Steady d p := by
  cases p with
  | month => exact seamless_month_iff d
  | quarterly => exact seamless_quarterly_iff d
  | annual => exact seamless_annual_iff d
  | total => exact absurd rfl hp

end Seamless

/-! ## Tiling -/

/-- **The periods tile the time since the creation**: the period that is counted at a moment contains the moment, two
periods are the same or do not meet, and a reported usage is counted in exactly one. -/
structure Tiles (r : BilledResource) (p : LimitPeriods) : Prop where
  contains : ∀ t, r.created ≤ t → Within (prepaidPeriod p r t) t
  identical_or_disjoint : ∀ t t', r.created ≤ t → r.created ≤ t' → prepaidPeriod p r t = prepaidPeriod p r t' ∨
    ∀ x, ¬ (Within (prepaidPeriod p r t) x ∧ Within (prepaidPeriod p r t') x)
  counted_once : ∀ u : ComponentUsage, r.created ≤ u.date →
    ∃! w, (∃ t, r.created ≤ t ∧ prepaidPeriod p r t = w) ∧ Within w u.date

section Tiling

variable {r : BilledResource} {p : LimitPeriods}

/-- Two periods are the same or do not meet, whatever the day of creation. -/
theorem prepaidPeriod_disjoint (hp : p ≠ .total) (t t' : Instant) : prepaidPeriod p r t = prepaidPeriod p r t' ∨
    ∀ x, ¬ (Within (prepaidPeriod p r t) x ∧ Within (prepaidPeriod p r t') x) := by
  rw [prepaidPeriod_eq hp, prepaidPeriod_eq hp]
  by_cases hsame : monthsSince t r.created / stepMonths p = monthsSince t' r.created / stepMonths p
  · rw [hsame]
    exact Or.inl rfl
  · exact Or.inr (window_disjoint _ hsame)

/-- The moments in a place of the grid are the ones that its period is counted at. -/
theorem prepaidPeriod_of_covers (hc : InCalendar r.created) (hp : p ≠ .total) {q : ℕ} {t : Instant}
    (h : (subscription r.created (stepMonths p) (stepMonths_pos p)).Covers q t) (ht : r.created ≤ t) :
    prepaidPeriod p r t = (subscription r.created (stepMonths p) (stepMonths_pos p)).window q := by
  rw [prepaidPeriod_eq hp, covers_unique _ (covers_monthsSince (stepMonths_pos p) hc ht) h]

/-- A period contains every moment that it is counted at just if every step is seamless. -/
theorem contains_iff (hc : InCalendar r.created) (hp : p ≠ .total) :
    (∀ t, r.created ≤ t → Within (prepaidPeriod p r t) t) ↔ Seamless r.created.date (stepMonths p) := by
  have hstart : ∀ q, r.created ≤ (subscription r.created (stepMonths p) (stepMonths_pos p)).start q := fun q => by
    have hle := addMonths_le r.created (Nat.zero_le (q * stepMonths p))
    rwa [addMonths_zero hc] at hle
  have hseams : Seamless r.created.date (stepMonths p) ↔ ∀ q,
      (subscription r.created (stepMonths p) (stepMonths_pos p)).stop q =
        (subscription r.created (stepMonths p) (stepMonths_pos p)).start (q + 1) :=
    forall_congr' fun q => (stop_eq_start_iff (stepMonths_pos p) q).symm
  rw [hseams, ← within_all_iff]
  constructor
  · intro h q t hcovers
    have ht := (hstart q).trans hcovers.1
    rw [← prepaidPeriod_of_covers hc hp hcovers ht]
    exact h t ht
  · intro h t ht
    rw [prepaidPeriod_eq hp]
    exact h _ t (covers_monthsSince (stepMonths_pos p) hc ht)

/-- **The periods tile the time since the creation exactly for a steady day of creation.** -/
theorem tiles_iff (hc : InCalendar r.created) (hp : p ≠ .total) : Tiles r p ↔ Steady r.created.date p := by
  rw [← seamless_iff_steady hp, ← contains_iff hc hp]
  constructor
  · exact fun h => h.contains
  · intro h
    refine ⟨h, fun t t' _ _ => prepaidPeriod_disjoint hp t t', fun u hu => ?_⟩
    refine ⟨prepaidPeriod p r u.date, ⟨⟨u.date, hu, rfl⟩, h u.date hu⟩, ?_⟩
    rintro w ⟨⟨t, -, rfl⟩, hwithin⟩
    rcases prepaidPeriod_disjoint (r := r) hp t u.date with heq | hdisjoint
    · exact heq
    · exact absurd ⟨hwithin, h u.date hu⟩ (hdisjoint u.date)

theorem seamless_of_tiles (hc : InCalendar r.created) (hp : p ≠ .total) (h : Tiles r p) :
    Seamless r.created.date (stepMonths p) :=
  (contains_iff hc hp).mp h.contains

end Tiling

theorem fifteenth_valid : 1 ≤ 15 ∧ 15 ≤ monthDays 2025 1 := by decide

theorem lastDay_valid : 1 ≤ 31 ∧ 31 ≤ monthDays 2025 1 := by decide

theorem january_valid : 1 ≤ 1 ∧ 1 ≤ 12 := by decide

def fifteenthOfJanuary : Date := ⟨2025, 1, 15, january_valid, fifteenth_valid⟩

def lastOfJanuary : Date := ⟨2025, 1, 31, january_valid, lastDay_valid⟩

/-- A resource that is created at midnight. -/
def prepaidResource (created : Date) : BilledResource where
  ref := ⟨1, 1, ⟨10, 1⟩⟩
  offeringType := "Marketplace.Basic"
  state := .ok
  plan := none
  offeringComponents := []
  limits := [("cores", 4)]
  created := midnight created

theorem date_prepaidResource {d : Date} (hd : 1 ≤ d.year) : (prepaidResource d).created.date = d := by
  have h := date_midnight_add (x := 0) hd ⟨le_refl 0, by decide⟩
  rwa [add_zero] at h

theorem inCalendar_midnight (d : Date) : InCalendar (midnight d) := by
  have hord := Date.one_le_toOrdinal d
  unfold InCalendar midnight day dayLength
  omega

theorem tiles_fifteenth : Tiles (prepaidResource fifteenthOfJanuary) .month := by
  refine (tiles_iff (inCalendar_midnight _) (by decide)).mpr ?_
  rw [date_prepaidResource (by decide)]
  decide

/-- Created on 31 January, the period from 28 February ends on 27 March, and the next one starts on the 31st. -/
theorem not_tiles_lastDay : ¬ Tiles (prepaidResource lastOfJanuary) .month := by
  intro h
  have hseamless := seamless_of_tiles (inCalendar_midnight _) (by decide) h 1
  rw [date_prepaidResource (by decide)] at hseamless
  revert hseamless
  decide

end Waldur.Marketplace
