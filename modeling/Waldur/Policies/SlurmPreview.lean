import Mathlib
import Waldur.Lib.Decimal
import Waldur.Policies.UsagePolicies

/-!
# Policies.SlurmPreview — the preview of a SLURM policy and the allocation it enforces

`preview_policy_impact` of `slurm_preview.py` and `_calculate_allocation_with_carryover` of
`SlurmPeriodicUsagePolicy`: what was not used in the previous period is carried over, at most a percentage of
the base.  Floats are rationals; the preview rounds what it shows to two decimals.  A component is named by its
key, which is unique within the offering of the resource.
-/

namespace Waldur.Policies

open Calendar Decimal

/-- What both read of the policy. -/
structure SlurmConfig where
  carryoverEnabled : Bool := true
  carryoverFactor : ℕ := 50
  graceRatio : ℚ := 1 / 5

/-! ## The preview -/

/-- The result of `calculate_carryover`. -/
structure Carryover where
  previousUsage : ℚ
  carryoverFactor : ℕ
  baseAllocation : ℚ
  unused : ℚ
  carryoverCap : ℚ
  carryover : ℚ
  totalAllocation : ℚ

/-- `calculate_carryover`. -/
def calculateCarryover (baseAllocation previousUsage : ℚ) (carryoverFactor : ℕ) : Carryover :=
  let carryoverRatio : ℚ := carryoverFactor / 100
  let unused := max 0 (baseAllocation - previousUsage)
  let carryoverCap := carryoverRatio * baseAllocation
  let carryover := min unused carryoverCap
  let total := baseAllocation + carryover
  { previousUsage := previousUsage
    carryoverFactor := carryoverFactor
    baseAllocation := baseAllocation
    unused := quantizeHalfEven 2 unused
    carryoverCap := quantizeHalfEven 2 carryoverCap
    carryover := quantizeHalfEven 2 carryover
    totalAllocation := quantizeHalfEven 2 total }

/-- The result of `preview_qos_thresholds`. -/
structure Thresholds where
  allocation : ℚ
  graceRatio : ℚ
  notificationRatio : ℚ
  notificationThreshold : ℚ
  slowdownThreshold : ℚ
  blockedThreshold : ℚ

/-- `preview_qos_thresholds`, with its default notification ratio. -/
def previewQosThresholds (allocation graceRatio : ℚ) : Thresholds where
  allocation := allocation
  graceRatio := graceRatio
  notificationRatio := 4 / 5
  notificationThreshold := quantizeHalfEven 2 (allocation * (4 / 5))
  slowdownThreshold := quantizeHalfEven 2 allocation
  blockedThreshold := quantizeHalfEven 2 (allocation * (1 + graceRatio))

/-- The result of `preview_policy_impact`. -/
structure Preview where
  baseAllocation : ℚ
  effectiveAllocation : ℚ
  carryoverEnabled : Bool
  carryover : Option Carryover
  thresholds : Thresholds
  graceRatio : ℚ
  carryoverFactor : ℕ

/-- `preview_policy_impact`. -/
def previewPolicyImpact (allocation previousUsage : ℚ) (config : SlurmConfig) : Preview :=
  let carryover :=
    if config.carryoverEnabled ∧ 0 < previousUsage then
      some (calculateCarryover allocation previousUsage config.carryoverFactor)
    else none
  let effectiveAllocation := (carryover.map (·.totalAllocation)).getD allocation
  { baseAllocation := allocation
    effectiveAllocation := effectiveAllocation
    carryoverEnabled := config.carryoverEnabled
    carryover := carryover
    thresholds := previewQosThresholds effectiveAllocation config.graceRatio
    graceRatio := config.graceRatio
    carryoverFactor := config.carryoverFactor }

/-! ## The enforced allocation -/

/-- The period strings `2026-03`, `2026-Q1`, `2026` and `total`. -/
inductive SlurmPeriod
  | month (year month : ℕ)
  | quarter (year quarter : ℕ)
  | annual (year : ℕ)
  | total
deriving DecidableEq

/-- `_get_previous_period`. -/
def SlurmPeriod.previous : SlurmPeriod → Option SlurmPeriod
  | .month y m => some (if m = 1 then .month (y - 1) 12 else .month y (m - 1))
  | .quarter y q => some (if q = 1 then .quarter (y - 1) 4 else .quarter y (q - 1))
  | .annual y => some (.annual (y - 1))
  | .total => none

/-- `_get_period_date_range`, as a filter on `billing_period`. -/
def SlurmPeriod.covers (p : SlurmPeriod) (d : Date) : Bool :=
  match p with
  | .month y m => d.year == y && d.month == m
  | .quarter y q => d.year == y && decide ((q - 1) * 3 + 1 ≤ d.month) && decide (d.month ≤ (q - 1) * 3 + 3)
  | .annual y => d.year == y
  | .total => true

/-- `_get_period_usage` of a component, 0 where it has none. -/
def periodUsage (usages : List ComponentUsage) (resource : ℕ) (period : SlurmPeriod) (component : ℕ) : ℚ :=
  summedUsage (usages.filter fun u => u.resource.id == resource && period.covers u.billingPeriod) component

/-- The details of a component that the allocation is explained with. -/
structure ComponentCarryover where
  base : ℚ
  previousUsage : ℚ
  unused : ℚ
  carryoverCap : ℚ
  carryover : ℚ
  total : ℚ

inductive CarryoverDetails
  | carryoverDisabled
  | noPreviousPeriod
  | applied (previousPeriod : SlurmPeriod) (carryoverFactor : ℕ) (perComponent : List (ℕ × ComponentCarryover))

/-- A turn of the loop over the components. -/
def componentCarryover (carryoverFactor : ℕ) (base previousUsage : ℚ) : ComponentCarryover :=
  let unused := max 0 (base - previousUsage)
  let cap := (carryoverFactor : ℚ) / 100 * base
  let carry := min unused cap
  { base := base, previousUsage := previousUsage, unused := unused, carryoverCap := cap, carryover := carry
    total := base + carry }

/-- `_calculate_allocation_with_carryover`. -/
def calculateAllocationWithCarryover (usages : List ComponentUsage) (resource : ℕ) (baseAllocation : List (ℕ × ℚ))
    (currentPeriod : SlurmPeriod) (config : SlurmConfig) : List (ℕ × ℚ) × CarryoverDetails :=
  if !config.carryoverEnabled then (baseAllocation, .carryoverDisabled)
  else
    match currentPeriod.previous with
    | none => (baseAllocation, .noPreviousPeriod)
    | some previousPeriod =>
      let perComponent := baseAllocation.map fun (component, base) =>
        (component, componentCarryover config.carryoverFactor base
          (periodUsage usages resource previousPeriod component))
      (perComponent.map fun (component, details) => (component, details.total),
        .applied previousPeriod config.carryoverFactor perComponent)

/-- The usage of the period before the current one, which the preview is asked for; none before a single shot. -/
def previousUsage (usages : List ComponentUsage) (resource : ℕ) (currentPeriod : SlurmPeriod) (component : ℕ) : ℚ :=
  (currentPeriod.previous.map fun period => periodUsage usages resource period component).getD 0

/-! ## The preview and the enforcement -/

section Agreement

variable {usages : List ComponentUsage} {resource component : ℕ} {period : SlurmPeriod} {config : SlurmConfig}
  {base usage : ℚ}

/-- The allocation of a single component. -/
def enforced (usages : List ComponentUsage) (resource component : ℕ) (base : ℚ) (period : SlurmPeriod)
    (config : SlurmConfig) : Option ℚ :=
  (calculateAllocationWithCarryover usages resource [(component, base)] period config).1.lookup component

/-- Both compute the same carry-over. -/
theorem calculateCarryover_total (base usage : ℚ) (factor : ℕ) :
    (calculateCarryover base usage factor).totalAllocation =
      quantizeHalfEven 2 (componentCarryover factor base usage).total := rfl

theorem enforced_of_disabled (h : config.carryoverEnabled = false) :
    enforced usages resource component base period config = some base := by
  unfold enforced calculateAllocationWithCarryover
  rw [h]
  exact List.lookup_cons_self

theorem enforced_of_no_previous (hp : period.previous = none) :
    enforced usages resource component base period config = some base := by
  unfold enforced calculateAllocationWithCarryover
  rw [hp]
  cases config.carryoverEnabled
  · exact List.lookup_cons_self
  · exact List.lookup_cons_self

theorem enforced_of_previous (h : config.carryoverEnabled = true) {previous : SlurmPeriod}
    (hp : period.previous = some previous) :
    enforced usages resource component base period config =
      some (componentCarryover config.carryoverFactor base (periodUsage usages resource previous component)).total := by
  unfold enforced calculateAllocationWithCarryover
  rw [h, hp]
  exact List.lookup_cons_self

/-- With usage in the previous period the preview shows the enforced allocation, rounded. -/
theorem effective_of_pos (h : config.carryoverEnabled = true) (hpos : 0 < usage) :
    (previewPolicyImpact base usage config).effectiveAllocation =
      quantizeHalfEven 2 (componentCarryover config.carryoverFactor base usage).total := by
  unfold previewPolicyImpact
  rw [if_pos ⟨h, hpos⟩]
  exact calculateCarryover_total base usage config.carryoverFactor

/-- Without usage it shows the base. -/
theorem effective_of_not_pos (h : ¬ (config.carryoverEnabled = true ∧ 0 < usage)) :
    (previewPolicyImpact base usage config).effectiveAllocation = base := by
  unfold previewPolicyImpact
  rw [if_neg h]
  rfl

/-- An unused allocation carries over as a whole, up to the cap. -/
theorem carryover_of_unused (hbase : 0 ≤ base) (factor : ℕ) :
    (componentCarryover factor base 0).total = base + base * min 1 ((factor : ℚ) / 100) := by
  have hmin : min base ((factor : ℚ) / 100 * base) = base * min 1 ((factor : ℚ) / 100) := by
    rw [mul_min_of_nonneg _ _ hbase, mul_one, mul_comm]
  unfold componentCarryover
  dsimp only
  rw [sub_zero, max_eq_right hbase, hmin]

/-- The preview shows what is enforced, up to its rounding. -/
def ShowsEnforced (usages : List ComponentUsage) (resource component : ℕ) (base : ℚ) (period : SlurmPeriod)
    (config : SlurmConfig) : Prop :=
  ∃ total, enforced usages resource component base period config = some total ∧
    |(previewPolicyImpact base (previousUsage usages resource period component) config).effectiveAllocation - total| ≤
      1 / 200

theorem showsEnforced_iff_of_enforced {total : ℚ}
    (h : enforced usages resource component base period config = some total) :
    ShowsEnforced usages resource component base period config ↔
      |(previewPolicyImpact base (previousUsage usages resource period component) config).effectiveAllocation -
        total| ≤ 1 / 200 := by
  unfold ShowsEnforced
  rw [h]
  simp

/-- **When the preview shows what is enforced**: if something was used in the previous period, or nothing is carried
over that the rounding would show. -/
theorem showsEnforced_iff (hbase : 0 ≤ base) (husage : 0 ≤ previousUsage usages resource period component) :
    ShowsEnforced usages resource component base period config ↔
      config.carryoverEnabled = false ∨ period.previous = none ∨ 0 < previousUsage usages resource period component ∨
        base * min 1 ((config.carryoverFactor : ℚ) / 100) ≤ 1 / 200 := by
  by_cases hdisabled : config.carryoverEnabled = false
  · refine iff_of_true ?_ (Or.inl hdisabled)
    rw [showsEnforced_iff_of_enforced (enforced_of_disabled hdisabled), effective_of_not_pos (by simp [hdisabled]),
      sub_self, abs_zero]
    norm_num
  have henabled : config.carryoverEnabled = true := Bool.eq_true_of_not_eq_false hdisabled
  rw [or_iff_right hdisabled]
  cases hprevious : period.previous with
  | none =>
    refine iff_of_true ?_ (Or.inl rfl)
    have hnone : previousUsage usages resource period component = 0 := by
      unfold previousUsage
      rw [hprevious]
      rfl
    rw [showsEnforced_iff_of_enforced (enforced_of_no_previous hprevious),
      effective_of_not_pos (by rw [hnone]; exact fun h => lt_irrefl _ h.2), sub_self, abs_zero]
    norm_num
  | some previous =>
    have husage_eq : previousUsage usages resource period component =
        periodUsage usages resource previous component := by
      unfold previousUsage
      rw [hprevious]
      rfl
    rw [showsEnforced_iff_of_enforced (enforced_of_previous henabled hprevious), or_iff_right (Option.some_ne_none _),
      ← husage_eq]
    rcases husage.eq_or_lt with hzero | hpos
    · rw [← hzero, effective_of_not_pos (fun h => lt_irrefl _ h.2), carryover_of_unused hbase,
        or_iff_right (lt_irrefl _), sub_add_cancel_left, abs_neg, abs_of_nonneg]
      exact mul_nonneg hbase (le_min zero_le_one (by positivity))
    · refine iff_of_true ?_ (Or.inl hpos)
      rw [effective_of_pos henabled hpos]
      refine (abs_quantizeHalfEven_sub_le 2 _).trans ?_
      norm_num

end Agreement

theorem slurmSample_base : (0 : ℚ) ≤ 1000 := by norm_num

/-- 300 of 1000 used in May. -/
theorem showsEnforced_sample : ShowsEnforced [⟨⟨1, ⟨1, 1, false⟩, ⟨1, false, false, false⟩, .ok, false, false, false⟩,
    2, 300, ⟨2024, 5, 1, may_valid, by decide⟩⟩] 1 2 1000 (.month 2024 6) {} :=
  (showsEnforced_iff slurmSample_base (by decide +kernel)).mpr (Or.inr (Or.inr (Or.inl (by decide +kernel))))

/-- An allocation of 1000 that nothing was used of is shown as 1000, and enforced as 1500. -/
theorem unused_not_shown : ¬ ShowsEnforced [] 1 2 1000 (.month 2024 6) {} := by
  rintro ⟨total, htotal, hshown⟩
  have henforced : enforced [] 1 2 1000 (.month 2024 6) {} = some 1500 := by decide +kernel
  obtain rfl := Option.some.inj (htotal.symm.trans henforced)
  exact absurd hshown (by decide +kernel)

end Waldur.Policies
