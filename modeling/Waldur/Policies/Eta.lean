import Mathlib
import Waldur.Lib.TwoRateLine
import Waldur.Policies.Costs

/-!
# Policies.Eta — when a cost policy will cross its limit

The projection of `policy/eta.py`.  The cost grows at a slow rate while a credit absorbs the rest, and at the
full rate once the credit is gone; the policy can fire when the cost has reached the limit and the balance of
the credit is down to the limit.  `projectEtaDays` is compared with the first time at which both hold.
-/

namespace Waldur.Policies

open Calendar TwoRateLine

/-! ## The credit -/

/-- `DAYS_PER_MONTH`. -/
def daysPerMonth : ℚ := 30

/-- `MAX_PROJECTION_DAYS`. -/
def maxProjectionDays : ℤ := 365

/-- What a projection reads of a credit. -/
structure ProjectionCredit where
  value : ℚ
  spendableValue : Option ℚ := none
  consumptionLastMonth : ℚ := 0
  minimalConsumption : ℚ := 0

namespace ProjectionCredit

variable (credit : ProjectionCredit) (grossPerDay : ℚ)

/-- `_daily_draw`. -/
def dailyDraw : Option ℚ :=
  let contractual := max credit.consumptionLastMonth credit.minimalConsumption
  let daily := max (contractual / daysPerMonth) (max 0 grossPerDay)
  if 0 < daily then some daily else none

/-- `_balance`. -/
def balance : ℚ := max 0 (credit.spendableValue.getD credit.value)

end ProjectionCredit

/-- `credit_days_remaining`. -/
def creditDaysRemaining (credit : Option ProjectionCredit) (grossPerDay : ℚ) : Option ℚ :=
  match credit with
  | none => some 0
  | some credit => (credit.dailyDraw grossPerDay).map (credit.balance / ·)

/-- `credit_days_to_limit`. -/
def creditDaysToLimit (credit : Option ProjectionCredit) (limitCost grossPerDay : ℚ) : Option ℚ :=
  match credit with
  | none => some 0
  | some credit =>
    let excess := credit.balance - limitCost
    if excess ≤ 0 then some 0 else (credit.dailyDraw grossPerDay).map (excess / ·)

theorem dailyDraw_pos {credit : ProjectionCredit} {grossPerDay daily : ℚ}
    (h : credit.dailyDraw grossPerDay = some daily) : 0 < daily := by
  unfold ProjectionCredit.dailyDraw at h
  dsimp only at h
  split at h
  · next hpos => exact Option.some.inj h ▸ hpos
  · cases h

theorem creditDaysRemaining_nonneg {credit : Option ProjectionCredit} {grossPerDay days : ℚ}
    (h : days ∈ creditDaysRemaining credit grossPerDay) : 0 ≤ days := by
  cases credit with
  | none => exact (Option.some.inj h).le
  | some credit =>
    obtain ⟨daily, hdaily, rfl⟩ := Option.map_eq_some_iff.mp h
    exact div_nonneg (le_max_left _ _) (dailyDraw_pos hdaily).le

theorem creditDaysToLimit_nonneg {credit : Option ProjectionCredit} {limitCost grossPerDay days : ℚ}
    (h : days ∈ creditDaysToLimit credit limitCost grossPerDay) : 0 ≤ days := by
  cases credit with
  | none => exact (Option.some.inj h).le
  | some credit =>
    simp only [creditDaysToLimit, Option.mem_def] at h
    split at h
    · exact (Option.some.inj h).le
    · next hexcess =>
      obtain ⟨daily, hdaily, rfl⟩ := Option.map_eq_some_iff.mp h
      exact div_nonneg (not_le.mp hexcess).le (dailyDraw_pos hdaily).le

/-! ## The projection -/

/-- The arguments of `project_eta_days`. -/
structure EtaInput where
  limitCost : ℚ
  currentCost : ℚ
  grossThisMonth : ℚ
  uncompensatedThisMonth : ℚ
  creditDays : Option ℚ
  creditLimitDays : Option ℚ
  period : Period
  today : Date
  creditDays_nonneg : ∀ days ∈ creditDays, 0 ≤ days
  creditLimitDays_nonneg : ∀ days ∈ creditLimitDays, 0 ≤ days

namespace EtaInput

/-- The arguments that `get_eta_days` puts together. -/
def ofCredit (limitCost currentCost gross uncompensated : ℚ) (credit : Option ProjectionCredit) (period : Period)
    (today : Date) : EtaInput where
  limitCost := limitCost
  currentCost := currentCost
  grossThisMonth := gross
  uncompensatedThisMonth := uncompensated
  creditDays := creditDaysRemaining credit (gross / today.day)
  creditLimitDays := creditDaysToLimit credit limitCost (gross / today.day)
  period := period
  today := today
  creditDays_nonneg := fun _ => creditDaysRemaining_nonneg
  creditLimitDays_nonneg := fun _ => creditDaysToLimit_nonneg

variable (x : EtaInput)

/-- The rate once compensation stops. -/
def fast : ℚ := max 0 x.grossThisMonth / x.today.day

/-- The rate while the credit lasts. -/
def slow : ℚ := max 0 x.uncompensatedThisMonth / x.today.day

def remaining : ℚ := x.limitCost - x.currentCost

/-- The `days` of the cost, before the gate. -/
def costDays : Option ℚ :=
  if x.limitCost < x.currentCost then some 0
  else if 0 < x.slow ∧ ∀ creditDays ∈ x.creditDays, x.remaining ≤ x.slow * creditDays then some (x.remaining / x.slow)
  else
    match x.creditDays with
    | none => none
    | some creditDays => if 0 < x.fast then some (creditDays + (x.remaining - x.slow * creditDays) / x.fast) else none

/-- The days that a one-month policy has left. -/
def daysLeft : ℤ := (monthDays x.today.year x.today.month : ℤ) - x.today.day

/-- The horizon, and the end of the month for a one-month policy. -/
def horizon (days : ℤ) : Option ℤ :=
  if maxProjectionDays < days then none
  else if x.period = .month1 ∧ x.daysLeft < days then none
  else some days

/-- `project_eta_days`. -/
def projectEtaDays : Option ℤ :=
  if x.limitCost < x.currentCost ∧ x.creditLimitDays = some 0 then some 0
  else
    match x.costDays, x.creditLimitDays with
    | some days, some creditLimitDays => x.horizon ⌈max days creditLimitDays⌉
    | _, _ => none

/-! ## What the projection is for -/

/-- `current + slow * min(t, credit_days) + fast * max(0, t - credit_days)`. -/
def cost (t : ℚ) : ℚ := x.currentCost + rise x.slow x.fast x.creditDays t

/-- The first time from now on at which the cost has reached the limit. -/
def Reaches (t : ℚ) : Prop := IsLeast {t | 0 ≤ t ∧ x.limitCost ≤ x.cost t} t

/-- A day that is not beyond the horizon or the end of the month. -/
def Within (days : ℤ) : Prop := days ≤ maxProjectionDays ∧ (x.period = .month1 → days ≤ x.daysLeft)

/-- A result that dates the crossing: 0 for a limit that has been crossed and only then, else the day, rounded up,
of the later of the gate and the first time at which the cost has reached the limit. -/
structure Dates (result : Option ℤ) : Prop where
  crossed : result = some 0 ↔ x.limitCost < x.currentCost ∧ x.creditLimitDays = some 0
  day : ∀ d ≠ 0, result = some d → ∃ t, ∃ gate ∈ x.creditLimitDays, x.Reaches t ∧ d = ⌈max t gate⌉
  none : result = none ↔ ¬ ∃ t, ∃ gate ∈ x.creditLimitDays, x.Reaches t ∧ x.Within ⌈max t gate⌉

variable {x}

theorem reaches_iff {t : ℚ} : x.Reaches t ↔ FirstReached x.slow x.fast x.creditDays x.remaining t := by
  unfold Reaches FirstReached cost remaining
  simp only [sub_le_iff_le_add']

theorem day_pos : (0 : ℚ) < x.today.day := by
  exact_mod_cast x.today.day_valid.1

theorem fast_nonneg : 0 ≤ x.fast := div_nonneg (le_max_left _ _) day_pos.le

theorem slow_nonneg : 0 ≤ x.slow := div_nonneg (le_max_left _ _) day_pos.le

theorem fast_pos_iff : 0 < x.fast ↔ 0 < x.grossThisMonth := by
  unfold fast
  rw [div_pos_iff_of_pos_right day_pos, lt_max_iff, or_iff_right (lt_irrefl _)]

theorem slow_pos_iff : 0 < x.slow ↔ 0 < x.uncompensatedThisMonth := by
  unfold slow
  rw [div_pos_iff_of_pos_right day_pos, lt_max_iff, or_iff_right (lt_irrefl _)]

theorem horizon_eq_some {days d : ℤ} : x.horizon days = some d ↔ x.Within days ∧ days = d := by
  unfold horizon Within
  split_ifs with hmax hleft
  · exact iff_of_false nofun fun h => absurd h.1.1 (not_le.mpr hmax)
  · exact iff_of_false nofun fun h => absurd (h.1.2 hleft.1) (not_le.mpr hleft.2)
  · rw [Option.some.injEq]
    refine ⟨fun h => ⟨⟨not_lt.mp hmax, fun hp => not_lt.mp fun hlt => hleft ⟨hp, hlt⟩⟩, h⟩, fun h => h.2⟩

theorem horizon_eq_none {days : ℤ} : x.horizon days = none ↔ ¬ x.Within days := by
  rw [Option.eq_none_iff_forall_ne_some]
  constructor
  · exact fun h hw => h days (horizon_eq_some.mpr ⟨hw, rfl⟩)
  · exact fun h d hd => h (horizon_eq_some.mp hd).1

theorem Within.mono {d d' : ℤ} (h : x.Within d') (hle : d ≤ d') : x.Within d :=
  ⟨hle.trans h.1, fun hp => hle.trans (h.2 hp)⟩

/-- At or above the limit the cost has reached it now. -/
theorem reaches_zero (h : x.limitCost ≤ x.currentCost) : x.Reaches 0 :=
  reaches_iff.mpr (firstReached_zero x.creditDays_nonneg (sub_nonpos.mpr h))

/-! ### The days of the cost -/

/-- The goal is out of reach of the slow phase. -/
theorem late_of_not_slow (hremaining : 0 < x.remaining) {creditDays : ℚ} (hc : x.creditDays = some creditDays)
    (hslow : ¬ (0 < x.slow ∧ ∀ creditDays ∈ x.creditDays, x.remaining ≤ x.slow * creditDays)) :
    x.slow * creditDays < x.remaining := by
  rcases slow_nonneg.eq_or_lt with hzero | hpos
  · rwa [← hzero, zero_mul]
  · by_contra hle
    refine hslow ⟨hpos, fun days hdays => ?_⟩
    rw [hc] at hdays
    exact Option.some.inj hdays ▸ not_lt.mp hle

theorem costDays_of_not_slow (hcrossed : ¬ x.limitCost < x.currentCost)
    (hslow : ¬ (0 < x.slow ∧ ∀ creditDays ∈ x.creditDays, x.remaining ≤ x.slow * creditDays)) :
    x.costDays = x.creditDays.bind fun creditDays =>
      if 0 < x.fast then some (creditDays + (x.remaining - x.slow * creditDays) / x.fast) else none := by
  unfold costDays
  rw [if_neg hcrossed, if_neg hslow]
  cases x.creditDays <;> rfl

theorem costDays_iff_of_reaches {t₀ t : ℚ} (hcost : x.costDays = some t₀) (hreaches : x.Reaches t₀) :
    x.costDays = some t ↔ x.Reaches t := by
  rw [hcost, Option.some.injEq]
  constructor
  · rintro rfl
    exact hreaches
  · exact fun h => (reaches_iff.mp hreaches).unique (reaches_iff.mp h)

theorem costDays_iff_of_never {t : ℚ} (hcost : x.costDays = none) (hnever : ∀ t, ¬ x.Reaches t) :
    x.costDays = some t ↔ x.Reaches t := by
  rw [hcost]
  exact iff_of_false nofun (hnever t)

/-- **Off the limit** the days of the cost are the first time at which it is reached. -/
theorem costDays_eq_some (hne : x.currentCost ≠ x.limitCost) {t : ℚ} : x.costDays = some t ↔ x.Reaches t := by
  by_cases hcrossed : x.limitCost < x.currentCost
  · exact costDays_iff_of_reaches (if_pos hcrossed) (reaches_zero hcrossed.le)
  have hremaining : 0 < x.remaining := sub_pos.mpr (lt_of_le_of_ne (not_lt.mp hcrossed) hne)
  by_cases hslow : 0 < x.slow ∧ ∀ creditDays ∈ x.creditDays, x.remaining ≤ x.slow * creditDays
  · refine costDays_iff_of_reaches ?_ (reaches_iff.mpr (firstReached_slow hslow.1 hremaining.le hslow.2))
    unfold costDays
    rw [if_neg hcrossed, if_pos hslow]
  have hcost := costDays_of_not_slow hcrossed hslow
  cases hc : x.creditDays with
  | none =>
    -- nothing accrues past a credit that never runs out
    have hzero : x.slow = 0 := by
      refine (slow_nonneg.eq_or_lt.resolve_right fun hpos => hslow ⟨hpos, fun days hdays => ?_⟩).symm
      rw [hc] at hdays
      cases hdays
    rw [hc] at hcost
    refine costDays_iff_of_never hcost fun t ht => ?_
    rw [reaches_iff, hc, hzero] at ht
    exact not_reached_of_no_switch hremaining ht
  | some creditDays =>
    have hlate := late_of_not_slow hremaining hc hslow
    rw [hc, Option.bind_some] at hcost
    by_cases hfast : 0 < x.fast
    · rw [if_pos hfast] at hcost
      refine costDays_iff_of_reaches hcost (reaches_iff.mpr ?_)
      rw [hc]
      exact firstReached_fast slow_nonneg hfast (x.creditDays_nonneg creditDays hc) hlate
    · rw [if_neg hfast] at hcost
      have hzero : x.fast = 0 := (fast_nonneg.eq_or_lt.resolve_right hfast).symm
      refine costDays_iff_of_never hcost fun t ht => ?_
      rw [reaches_iff, hc, hzero] at ht
      exact not_reached_of_no_fast slow_nonneg hlate ht

/-! ### The result -/

theorem within_zero : x.Within 0 := by
  refine ⟨by decide, fun _ => ?_⟩
  have hday : x.today.day ≤ monthDays x.today.year x.today.month := x.today.day_valid.2
  unfold daysLeft
  omega

/-- The early return of a limit that has been crossed is what the projection gives too. -/
theorem projectEtaDays_eq : x.projectEtaDays =
    x.costDays.bind fun days => x.creditLimitDays.bind fun gate => x.horizon ⌈max days gate⌉ := by
  unfold projectEtaDays
  split
  · next h =>
    have hcost : x.costDays = some 0 := if_pos h.1
    rw [hcost, h.2, Option.bind_some, Option.bind_some, max_self, Int.ceil_zero]
    exact (horizon_eq_some.mpr ⟨within_zero, rfl⟩).symm
  · cases x.costDays with
    | none => rfl
    | some days => cases x.creditLimitDays <;> rfl

theorem projectEtaDays_of_gate {gate : ℚ} (hgate : x.creditLimitDays = some gate) {days : ℚ}
    (hcost : x.costDays = some days) : x.projectEtaDays = x.horizon ⌈max days gate⌉ := by
  rw [projectEtaDays_eq, hcost, hgate, Option.bind_some, Option.bind_some]

theorem projectEtaDays_eq_some (hne : x.currentCost ≠ x.limitCost) {d : ℤ} : x.projectEtaDays = some d ↔
    ∃ t, ∃ gate ∈ x.creditLimitDays, x.Reaches t ∧ x.Within ⌈max t gate⌉ ∧ ⌈max t gate⌉ = d := by
  rw [projectEtaDays_eq]
  constructor
  · intro h
    obtain ⟨t, ht, h⟩ := Option.bind_eq_some_iff.mp h
    obtain ⟨gate, hgate, h⟩ := Option.bind_eq_some_iff.mp h
    exact ⟨t, gate, hgate, (costDays_eq_some hne).mp ht, horizon_eq_some.mp h⟩
  · rintro ⟨t, gate, hgate, ht, h⟩
    exact Option.bind_eq_some_iff.mpr ⟨t, (costDays_eq_some hne).mpr ht,
      Option.bind_eq_some_iff.mpr ⟨gate, hgate, horizon_eq_some.mpr h⟩⟩

theorem cost_zero : x.cost 0 = x.currentCost := by
  unfold cost
  rw [rise_of_le x.creditDays_nonneg, mul_zero, add_zero]

/-- Day 0 is that of a gate of 0 and of a limit that is reached now. -/
theorem ceil_max_eq_zero {t gate : ℚ} (ht : 0 ≤ t) (hgate : 0 ≤ gate) : ⌈max t gate⌉ = 0 ↔ t = 0 ∧ gate = 0 := by
  constructor
  · intro h
    have hmax : max t gate ≤ 0 := by
      have hceil := Int.le_ceil (max t gate)
      rwa [h, Int.cast_zero] at hceil
    exact ⟨le_antisymm ((le_max_left t gate).trans hmax) ht, le_antisymm ((le_max_right t gate).trans hmax) hgate⟩
  · rintro ⟨rfl, rfl⟩
    rw [max_self, Int.ceil_zero]

/-- **Off the limit** the result dates the crossing. -/
theorem dates_of_ne (hne : x.currentCost ≠ x.limitCost) : x.Dates x.projectEtaDays where
  crossed := by
    rw [projectEtaDays_eq_some hne]
    constructor
    · rintro ⟨t, gate, hgate, ht, -, hzero⟩
      obtain ⟨rfl, rfl⟩ := (ceil_max_eq_zero ht.1.1 (x.creditLimitDays_nonneg gate hgate)).mp hzero
      have hreached := ht.1.2
      rw [cost_zero] at hreached
      exact ⟨lt_of_le_of_ne hreached hne.symm, hgate⟩
    · rintro ⟨hcrossed, hgate⟩
      refine ⟨0, 0, hgate, reaches_zero hcrossed.le, ?_, ?_⟩
      · rw [max_self, Int.ceil_zero]
        exact within_zero
      · rw [max_self, Int.ceil_zero]
  day := by
    intro d _ hd
    obtain ⟨t, gate, hgate, ht, -, rfl⟩ := (projectEtaDays_eq_some hne).mp hd
    exact ⟨t, gate, hgate, ht, rfl⟩
  none := by
    rw [Option.eq_none_iff_forall_ne_some]
    constructor
    · rintro h ⟨t, gate, hgate, ht, hw⟩
      exact h _ ((projectEtaDays_eq_some hne).mpr ⟨t, gate, hgate, ht, hw, rfl⟩)
    · rintro h d hd
      obtain ⟨t, gate, hgate, ht, hw, -⟩ := (projectEtaDays_eq_some hne).mp hd
      exact h ⟨t, gate, hgate, ht, hw⟩

/-! ### A cost exactly at the limit -/

section AtLimit

variable {gate : ℚ} (heq : x.currentCost = x.limitCost)

include heq

theorem reaches_at_limit {t : ℚ} : x.Reaches t ↔ t = 0 := by
  constructor
  · exact fun h => h.unique (reaches_zero heq.ge)
  · rintro rfl
    exact reaches_zero heq.ge

/-- No result dates a cost at the limit with an open gate: it has been reached, and it has not been crossed. -/
theorem not_dates_of_open_gate (hgate : x.creditLimitDays = some 0) (result : Option ℤ) : ¬ x.Dates result := by
  intro h
  have hceil : ⌈max (0 : ℚ) 0⌉ = 0 := (ceil_max_eq_zero (le_refl 0) (le_refl 0)).mpr ⟨rfl, rfl⟩
  have hsome : result ≠ none := fun hn =>
    h.none.mp hn ⟨0, 0, hgate, (reaches_at_limit heq).mpr rfl, hceil.symm ▸ within_zero⟩
  obtain ⟨d, rfl⟩ := Option.ne_none_iff_exists'.mp hsome
  have hd : d ≠ 0 := fun hd => absurd (h.crossed.mp (congrArg some hd)).1 (heq ▸ lt_irrefl _)
  obtain ⟨t, gate, hgate', ht, hday⟩ := h.day d hd rfl
  rw [hgate] at hgate'
  rw [(reaches_at_limit heq).mp ht, ← Option.some.inj hgate', hceil] at hday
  exact hd hday

/-- With a gate that opens later the day is that of the gate. -/
theorem dates_at_limit (hgate : x.creditLimitDays = some gate) (hpos : 0 < gate) (result : Option ℤ) :
    x.Dates result ↔ result = x.horizon ⌈gate⌉ := by
  have hmax : max 0 gate = gate := max_eq_right hpos.le
  have hceil : ⌈gate⌉ ≠ 0 := (Int.ceil_pos.mpr hpos).ne'
  have hexists : (∃ t, ∃ g ∈ x.creditLimitDays, x.Reaches t ∧ x.Within ⌈max t g⌉) ↔ x.Within ⌈gate⌉ := by
    constructor
    · rintro ⟨t, g, hg, ht, hw⟩
      rw [hgate] at hg
      rwa [(reaches_at_limit heq).mp ht, ← Option.some.inj hg, hmax] at hw
    · exact fun hw => ⟨0, gate, hgate, (reaches_at_limit heq).mpr rfl, hmax.symm ▸ hw⟩
  constructor
  · intro h
    by_cases hw : x.Within ⌈gate⌉
    · rw [horizon_eq_some.mpr ⟨hw, rfl⟩]
      have hsome : result ≠ none := fun hn => h.none.mp hn (hexists.mpr hw)
      obtain ⟨d, rfl⟩ := Option.ne_none_iff_exists'.mp hsome
      have hd : d ≠ 0 := fun hd => absurd (h.crossed.mp (congrArg some hd)).1 (heq ▸ lt_irrefl _)
      obtain ⟨t, g, hg, ht, hday⟩ := h.day d hd rfl
      rw [hgate] at hg
      rw [hday, (reaches_at_limit heq).mp ht, ← Option.some.inj hg, hmax]
    · rw [horizon_eq_none.mpr hw]
      exact h.none.mpr fun hex => hw (hexists.mp hex)
  · rintro rfl
    refine ⟨?_, fun d _ hd => ?_, ?_⟩
    · refine iff_of_false (fun h => hceil (horizon_eq_some.mp h).2) fun h => ?_
      exact absurd h.1 (heq ▸ lt_irrefl _)
    · exact ⟨0, gate, hgate, (reaches_at_limit heq).mpr rfl, hmax.symm ▸ (horizon_eq_some.mp hd).2.symm⟩
    · rw [horizon_eq_none, hexists]

theorem remaining_at_limit : x.remaining = 0 := sub_eq_zero.mpr heq.symm

theorem costDays_at_limit_slow (hslow : 0 < x.slow) : x.costDays = some 0 := by
  have hremaining := remaining_at_limit heq
  have hphase : 0 < x.slow ∧ ∀ creditDays ∈ x.creditDays, x.remaining ≤ x.slow * creditDays := by
    refine ⟨hslow, fun days hdays => ?_⟩
    rw [hremaining]
    exact mul_nonneg hslow.le (x.creditDays_nonneg days hdays)
  unfold costDays
  rw [if_neg (heq ▸ lt_irrefl _), if_pos hphase, hremaining, zero_div]

/-- Without a slow rate the code waits for the end of the credit although the limit is reached. -/
theorem costDays_at_limit_credit (hslow : x.slow = 0) :
    x.costDays = x.creditDays.bind fun creditDays => if 0 < x.fast then some creditDays else none := by
  have hremaining := remaining_at_limit heq
  rw [costDays_of_not_slow (heq ▸ lt_irrefl _) (fun h => absurd h.1 (hslow ▸ lt_irrefl _)), hremaining, hslow]
  refine congrArg _ (funext fun creditDays => ?_)
  rw [zero_mul, sub_zero, zero_div, add_zero]

end AtLimit

/-! ## When the projection is right -/

/-- The cost is not exactly at the limit, or the gate opens later than now and what the code waits for beside it does
not matter. -/
def OffLimit (x : EtaInput) : Prop :=
  x.currentCost ≠ x.limitCost ∨ ∀ gate ∈ x.creditLimitDays, 0 < gate ∧
    (0 < x.uncompensatedThisMonth ∨ ¬ x.Within ⌈gate⌉ ∨
      0 < x.grossThisMonth ∧ ∃ creditDays ∈ x.creditDays, creditDays ≤ ⌈gate⌉)

theorem projectEtaDays_at_limit (heq : x.currentCost = x.limitCost) {gate : ℚ}
    (hgate : x.creditLimitDays = some gate) (hpos : 0 < gate) :
    x.projectEtaDays = x.horizon ⌈gate⌉ ↔ 0 < x.uncompensatedThisMonth ∨ ¬ x.Within ⌈gate⌉ ∨
      0 < x.grossThisMonth ∧ ∃ creditDays ∈ x.creditDays, creditDays ≤ ⌈gate⌉ := by
  rw [← slow_pos_iff, ← fast_pos_iff]
  rcases slow_nonneg.eq_or_lt with hslow | hslow
  · rw [← hslow, or_iff_right (lt_irrefl _)]
    have hcost := costDays_at_limit_credit heq hslow.symm
    by_cases hw : x.Within ⌈gate⌉
    · rw [or_iff_right (not_not.mpr hw), horizon_eq_some.mpr ⟨hw, rfl⟩]
      constructor
      · intro h
        rw [projectEtaDays_eq, hgate] at h
        obtain ⟨days, hdays, h⟩ := Option.bind_eq_some_iff.mp h
        rw [hcost] at hdays
        obtain ⟨creditDays, hc, hdays⟩ := Option.bind_eq_some_iff.mp hdays
        split at hdays
        · next hfast =>
          obtain rfl := Option.some.inj hdays
          have hceil := (horizon_eq_some.mp h).2
          refine ⟨hfast, creditDays, hc, ?_⟩
          rw [← hceil]
          exact (le_max_left _ _).trans (Int.le_ceil _)
        · cases hdays
      · rintro ⟨hfast, creditDays, hc, hle⟩
        have hdays : x.costDays = some creditDays := by
          rw [hcost, hc, Option.bind_some, if_pos hfast]
        have hceil : ⌈max creditDays gate⌉ = ⌈gate⌉ :=
          le_antisymm (Int.ceil_le.mpr (max_le hle (Int.le_ceil gate))) (Int.ceil_le_ceil (le_max_right _ _))
        rw [projectEtaDays_of_gate hgate hdays, hceil]
        exact horizon_eq_some.mpr ⟨hw, rfl⟩
    · refine iff_of_true ?_ (Or.inl hw)
      rw [horizon_eq_none.mpr hw]
      cases hdays : x.costDays with
      | none => rw [projectEtaDays_eq, hdays, Option.bind_none]
      | some days =>
        rw [projectEtaDays_of_gate hgate hdays, horizon_eq_none]
        exact fun h => hw (h.mono (Int.ceil_le_ceil (le_max_right _ _)))
  · refine iff_of_true ?_ (Or.inl hslow)
    rw [projectEtaDays_of_gate hgate (costDays_at_limit_slow heq hslow), max_eq_right hpos.le]

/-- **When the projection dates the crossing.** -/
theorem dates_iff (x : EtaInput) : x.Dates x.projectEtaDays ↔ x.OffLimit := by
  unfold OffLimit
  by_cases heq : x.currentCost = x.limitCost
  · rw [or_iff_right (not_not.mpr heq)]
    cases hgate : x.creditLimitDays with
    | none =>
      -- the gate never opens
      refine iff_of_true ?_ fun gate h => nomatch h
      have hnone : x.projectEtaDays = none := by
        rw [projectEtaDays_eq, hgate]
        cases x.costDays <;> rfl
      rw [hnone]
      refine ⟨iff_of_false nofun fun h => ?_, fun d _ h => (nomatch h), iff_of_true rfl ?_⟩
      · rw [hgate] at h
        exact nomatch h.2
      · rintro ⟨t, gate, h, -⟩
        rw [hgate] at h
        cases h
    | some gate =>
      simp only [Option.mem_def, Option.some.injEq, forall_eq']
      rcases (x.creditLimitDays_nonneg gate hgate).eq_or_lt with hzero | hpos
      · refine iff_of_false (not_dates_of_open_gate heq (hzero ▸ hgate) _) fun h => ?_
        exact absurd h.1 (hzero ▸ lt_irrefl _)
      · rw [dates_at_limit heq hgate hpos, projectEtaDays_at_limit heq hgate hpos, and_iff_right hpos]
        rfl
  · exact iff_of_true (dates_of_ne heq) (Or.inl heq)

/-- 100 of 100 have been spent by 15 June, 30 of them this month, without a credit. -/
def atLimit : EtaInput := ofCredit 100 100 30 30 none .month1 Invoices.midJune

/-- The limit is not crossed, and the projection says it is. -/
theorem atLimit_zero : ¬ atLimit.Dates atLimit.projectEtaDays := by
  intro h
  have hzero : atLimit.projectEtaDays = some 0 := by decide +kernel
  exact absurd (h.crossed.mp hzero).1 (by decide +kernel)

end EtaInput

end Waldur.Policies
