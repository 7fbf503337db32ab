import Mathlib
import Waldur.Lib.Doubles
import Waldur.Lib.GroupedPeaks
import Waldur.Marketplace.BillingMode
import Waldur.Marketplace.UsageReports

/-!
# Marketplace.UsageLimits — usage of the current period, and the restriction it puts on a resource

`get_current_period_usage` reads the usage rows of a resource: of a component billed by limits it takes the greatest
of each month and adds the months up, over the rows of plans that bill it the same way.  After the reports of a
backend these are the greatest reports (`currentUsage_report`).  `evaluate_usage_limit_restriction` sets a flag of the
resource where a limit is reached and lifts what it has set.  Others set the same flags: `Honest` says that a flag is
set exactly if another party or the evaluation wants it, `Clean` when a step keeps that.
-/

namespace Waldur.Marketplace.UsageLimits

open Calendar Decimal Doubles Grouping Invoices Relational Runs UsageReports

/-! ## The code -/

/-- An offering component with its `limit_amount`. -/
structure Component extends OfferingComponent where
  limitAmount : Option ℚ := none

/-- The columns of a resource and of its offering that its usage is checked against; the plan by its key. -/
structure Resource where
  id : ℕ
  state : ResourceState
  plan : Option ℕ
  components : List Component
  limits : List (String × ℚ)
  types_nodup : (components.map (·.type)).Nodup

section Code

-- the billing mode of a plan, and the plan of a plan period
variable (modeOf : ℕ → BillingMode) (planOf : ℕ → ℕ)

/-- `billing_mode.resolve_component` of a plan by its key. -/
def resolve (component : OfferingComponent) (plan : Option ℕ) : EffectiveComponent :=
  resolveComponent component (plan.map modeOf)

/-- `get_current_quarter`. -/
def quarter (today : Date) : ℕ := (today.month - 1) / 3 + 1

theorem quarter_valid (today : Date) : 1 ≤ quarter today ∧ quarter today ≤ 4 := by
  have h := today.month_valid
  unfold quarter
  omega

theorem quarterStart_valid (today : Date) : 1 ≤ (quarter today - 1) * 3 + 1 ∧ (quarter today - 1) * 3 + 1 ≤ 12 := by
  have h := quarter_valid today
  omega

theorem quarterEnd_valid (today : Date) : 1 ≤ quarter today * 3 ∧ quarter today * 3 ≤ 12 := by
  have h := quarter_valid today
  omega

/-- The day of `get_current_quarter_start`. -/
def quarterStart (today : Date) : Date where
  year := today.year
  month := (quarter today - 1) * 3 + 1
  day := 1
  month_valid := quarterStart_valid today
  day_valid := ⟨le_refl 1, one_le_monthDays _ _⟩

/-- The day of `get_current_quarter_end`. -/
def quarterEnd (today : Date) : Date where
  year := today.year
  month := quarter today * 3
  day := monthDays today.year (quarter today * 3)
  month_valid := quarterEnd_valid today
  day_valid := ⟨one_le_monthDays _ _, le_refl _⟩

/-- The filter of the billing period by the limit period. -/
def inPeriod (period : Option LimitPeriods) (today billingPeriod : Date) : Bool :=
  match period with
  | none => billingPeriod = today.replaceDayOne
  | some .month => billingPeriod = today.replaceDayOne
  | some .quarterly => !decide (billingPeriod < quarterStart today) && !decide (quarterEnd today < billingPeriod)
  | some .annual => today.year ≤ billingPeriod.year
  | some .total => true

/-- The plan that a row is billed under. -/
def rowPlan (resource : Resource) (row : UsageReports.ComponentUsage) : Option ℕ :=
  match row.planPeriod with
  | some p => some (planOf p)
  | none => resource.plan

/-- The rows of a component in the period, of the plans that bill it the same way. -/
def periodRows (resource : Resource) (component : Component) (period : Option LimitPeriods) (t : Usages)
    (today : Date) : List UsageReports.ComponentUsage :=
  let effective := resolve modeOf component.toOfferingComponent resource.plan
  t.rows.filter fun row =>
    row.slot.resource = resource.id && row.slot.component = component.id &&
      inPeriod period today row.slot.billingPeriod &&
      (resolve modeOf component.toOfferingComponent (rowPlan planOf resource row)).billingType = effective.billingType

/-- The total of a component in `get_current_period_usage`. -/
def periodTotal (resource : Resource) (component : Component) (limitPeriod : Option LimitPeriods) (t : Usages)
    (today : Date) : ℚ :=
  let effective := resolve modeOf component.toOfferingComponent resource.plan
  let rows := periodRows modeOf planOf resource component (limitPeriod.or effective.limitPeriod) t today
  if effective.billingType = .usage then (rows.map (·.usage)).sum
  else (raiseAll (rows.map fun row => (row.slot.billingPeriod, row.usage))).total

/-- `get_current_period_usage`: a dictionary from component types. -/
def getCurrentPeriodUsage (resource : Resource) (limitPeriod : Option LimitPeriods) (t : Usages) (today : Date) :
    List (String × ℚ) :=
  resource.components.map fun component =>
    (component.type, toDouble (periodTotal modeOf planOf resource component limitPeriod t today))

/-- `get_effective_component_limit`; a limit of 0 counts as unset. -/
def getEffectiveComponentLimit (resource : Resource) (component : Component) : Option ℚ :=
  match resource.limits.lookup component.type with
  | some limit => if limit ≠ 0 then some limit else component.limitAmount.filter (· ≠ 0)
  | none => component.limitAmount.filter (· ≠ 0)

/-- `is_usage_over_component_limit`. -/
def isUsageOverComponentLimit (resource : Resource) (t : Usages) (today : Date) : Bool :=
  let periodUsage := getCurrentPeriodUsage modeOf planOf resource none t today
  resource.components.any fun component =>
    (resolve modeOf component.toOfferingComponent resource.plan).billingType = .limit &&
      match getEffectiveComponentLimit resource component with
      | some limit => limit ≤ (periodUsage.lookup component.type).getD 0
      | none => false

end Code

/-! ## The total of a component -/

variable {modeOf : ℕ → BillingMode} {planOf : ℕ → ℕ} {resource : Resource} {component : Component}
  {period : Option LimitPeriods} {t : Usages} {today m : Date} {reports : List Report} {u : ℚ}

/-- The reports of a component in the period, under plans that bill it the same way, by their months. -/
def reportedPairs (modeOf : ℕ → BillingMode) (planOf : ℕ → ℕ) (resource : Resource) (component : Component)
    (period : Option LimitPeriods) (today : Date) (reports : List Report) : List (Date × ℚ) :=
  let effective := resolve modeOf component.toOfferingComponent resource.plan
  (reports.filter fun rep =>
    rep.resource = resource.id && rep.component = component.id && inPeriod period today rep.slot.billingPeriod &&
      (resolve modeOf component.toOfferingComponent (rep.planPeriod.map planOf)).billingType =
        effective.billingType).map fun rep => (rep.slot.billingPeriod, quantizeHalfEven 2 rep.usage)

/-- The rows of a component in the period, by their months. -/
def rowPairs (modeOf : ℕ → BillingMode) (planOf : ℕ → ℕ) (resource : Resource) (component : Component)
    (period : Option LimitPeriods) (t : Usages) (today : Date) : List (Date × ℚ) :=
  (periodRows modeOf planOf resource component period t today).map fun row => (row.slot.billingPeriod, row.usage)

theorem mem_rowPairs : (m, u) ∈ rowPairs modeOf planOf resource component period t today ↔
    ∃ row ∈ t.rows, row.slot = ⟨resource.id, component.id, m⟩ ∧ row.usage = u ∧ inPeriod period today m = true ∧
      (resolve modeOf component.toOfferingComponent (rowPlan planOf resource row)).billingType =
        (resolve modeOf component.toOfferingComponent resource.plan).billingType := by
  unfold rowPairs periodRows
  simp only [List.mem_map, List.mem_filter, Bool.and_eq_true, decide_eq_true_eq, Prod.mk.injEq]
  constructor
  · rintro ⟨row, ⟨hrow, ⟨⟨hresource, hcomponent⟩, hperiod⟩, hbilling⟩, rfl, rfl⟩
    refine ⟨row, hrow, ?_, rfl, hperiod, hbilling⟩
    rw [← hresource, ← hcomponent]
  · rintro ⟨row, hrow, hslot, rfl, hperiod, hbilling⟩
    have hm : row.slot.billingPeriod = m := by rw [hslot]
    refine ⟨row, ⟨hrow, ⟨⟨by rw [hslot], by rw [hslot]⟩, hm ▸ hperiod⟩, hbilling⟩, hm, rfl⟩

theorem mem_reportedPairs : (m, u) ∈ reportedPairs modeOf planOf resource component period today reports ↔
    ∃ rep ∈ reports, rep.slot = ⟨resource.id, component.id, m⟩ ∧ quantizeHalfEven 2 rep.usage = u ∧
      inPeriod period today m = true ∧
      (resolve modeOf component.toOfferingComponent (rep.planPeriod.map planOf)).billingType =
        (resolve modeOf component.toOfferingComponent resource.plan).billingType := by
  unfold reportedPairs
  simp only [List.mem_map, List.mem_filter, Bool.and_eq_true, decide_eq_true_eq, Prod.mk.injEq]
  constructor
  · rintro ⟨rep, ⟨hrep, ⟨⟨hresource, hcomponent⟩, hperiod⟩, hbilling⟩, rfl, rfl⟩
    refine ⟨rep, hrep, ?_, rfl, hperiod, hbilling⟩
    rw [← hresource, ← hcomponent]
    rfl
  · rintro ⟨rep, hrep, hslot, rfl, hperiod, hbilling⟩
    have hm : rep.slot.billingPeriod = m := by rw [hslot]
    have hresource : rep.resource = resource.id := congrArg Slot.resource hslot
    have hcomponent : rep.component = component.id := congrArg Slot.component hslot
    exact ⟨rep, ⟨hrep, ⟨⟨hresource, hcomponent⟩, hm ▸ hperiod⟩, hbilling⟩, hm, rfl⟩

/-- A row holds one of the reports. -/
theorem reported_of_row (hall : ∀ rep ∈ reports, rep.planPeriod ≠ none)
    (h : (m, u) ∈ rowPairs modeOf planOf resource component period (report planOf .empty reports) today) :
    (m, u) ∈ reportedPairs modeOf planOf resource component period today reports := by
  obtain ⟨row, hrow, hslot, rfl, hperiod, hbilling⟩ := mem_rowPairs.mp h
  obtain ⟨p, hp, hentry⟩ := (represents_ledgerOf reports hall).entry row hrow
  have hpeak := (ledgerOf_eq_some.mp hentry).1
  obtain ⟨rep, hrep, hvalue⟩ := List.mem_map.mp (List.max?_eq_some_iff.mp hpeak).1
  obtain ⟨hmem, hof⟩ := List.mem_filter.mp hrep
  obtain ⟨hrepslot, hplan⟩ := of_decide_eq_true hof
  refine mem_reportedPairs.mpr ⟨rep, hmem, hrepslot.trans hslot, hvalue, hperiod, ?_⟩
  rw [hplan, ← hbilling]
  unfold rowPlan
  rw [hp]

/-- A report is below the row of its plan and its month. -/
theorem row_of_reported (hall : ∀ rep ∈ reports, rep.planPeriod ≠ none)
    (h : (m, u) ∈ reportedPairs modeOf planOf resource component period today reports) :
    ∃ u', u ≤ u' ∧
      (m, u') ∈ rowPairs modeOf planOf resource component period (report planOf .empty reports) today := by
  obtain ⟨rep, hrep, hslot, rfl, hperiod, hbilling⟩ := mem_reportedPairs.mp h
  obtain ⟨p, hp⟩ := Option.ne_none_iff_exists'.mp (hall rep hrep)
  have hof : rep ∈ reportsOf planOf reports rep.slot (planOf p) :=
    List.mem_filter.mpr ⟨hrep, decide_eq_true ⟨rfl, by rw [hp, Option.map_some]⟩⟩
  have hvalue : quantizeHalfEven 2 rep.usage ∈
      (reportsOf planOf reports rep.slot (planOf p)).map fun rep => quantizeHalfEven 2 rep.usage :=
    List.mem_map_of_mem hof
  cases hpeak : peak planOf reports rep.slot (planOf p) with
  | none =>
    rw [List.max?_eq_none_iff.mp hpeak] at hvalue
    exact absurd hvalue List.not_mem_nil
  | some peak =>
    obtain ⟨q, hq⟩ := lastPeriod_isSome hall hpeak
    obtain ⟨row, hrow, hrowslot, hrowp, hplan, rfl⟩ :=
      (represents_ledgerOf reports hall).row rep.slot (planOf p) peak q (ledgerOf_eq_some.mpr ⟨hpeak, hq⟩)
    refine ⟨row.usage, (List.max?_eq_some_iff.mp hpeak).2 _ hvalue, mem_rowPairs.mpr ?_⟩
    refine ⟨row, hrow, hrowslot.trans hslot, rfl, hperiod, ?_⟩
    unfold rowPlan
    rw [hrowp, ← hbilling, hp, Option.map_some]
    simp only [hplan]

/-- **The usage of the current period is that of the greatest reports**: of a component that is not billed by usage,
the greatest report of each month, under the plans that bill it the same way, added up over the months. -/
theorem currentUsage_report (modeOf : ℕ → BillingMode) (planOf : ℕ → ℕ) (resource : Resource) (component : Component)
    (limitPeriod : Option LimitPeriods) (today : Date) (reports : List Report)
    (hall : ∀ rep ∈ reports, rep.planPeriod ≠ none)
    (hbilling : (resolve modeOf component.toOfferingComponent resource.plan).billingType ≠ .usage) :
    let pairs := reportedPairs modeOf planOf resource component
      (limitPeriod.or (resolve modeOf component.toOfferingComponent resource.plan).limitPeriod) today reports
    periodTotal modeOf planOf resource component limitPeriod (report planOf .empty reports) today =
      ∑ month ∈ (pairs.map Prod.fst).toFinset, best pairs month := by
  intro pairs
  unfold periodTotal
  dsimp only
  rw [if_neg hbilling, total_raiseAll]
  change ∑ month ∈ ((rowPairs modeOf planOf resource component _ _ today).map Prod.fst).toFinset,
    best (rowPairs modeOf planOf resource component _ _ today) month = _
  have hkeys : ((rowPairs modeOf planOf resource component
        (limitPeriod.or (resolve modeOf component.toOfferingComponent resource.plan).limitPeriod)
        (report planOf .empty reports) today).map Prod.fst).toFinset = (pairs.map Prod.fst).toFinset := by
    ext month
    rw [List.mem_toFinset, List.mem_toFinset, List.mem_map, List.mem_map]
    constructor
    · rintro ⟨⟨month, u⟩, hpair, rfl⟩
      exact ⟨(month, u), reported_of_row hall hpair, rfl⟩
    · rintro ⟨⟨month, u⟩, hpair, rfl⟩
      obtain ⟨u', -, hrow⟩ := row_of_reported hall hpair
      exact ⟨(month, u'), hrow, rfl⟩
  rw [hkeys]
  refine Finset.sum_congr rfl fun month _ => best_eq_best (fun u hu => ?_) fun u hu => row_of_reported hall hu
  exact ⟨u, le_refl u, reported_of_row hall hu⟩

/-- A component that its plan bills by limits. -/
def cores : Component where
  id := 1
  type := "cpu"
  billingType := .limit
  limitPeriod := some .month
  limitAmount := some 8

def cluster : Resource where
  id := 1
  state := .ok
  plan := some 1
  components := [cores]
  limits := []
  types_nodup := List.nodup_singleton _

theorem cores_billed : (resolve (fun _ => .inherit) cores.toOfferingComponent cluster.plan).billingType ≠ .usage := by decide

theorem currentUsage_backAndForth :
    let pairs := reportedPairs (fun _ => .inherit) switchedPlan cluster cores
      (none.or (resolve (fun _ => .inherit) cores.toOfferingComponent cluster.plan).limitPeriod) firstOfMay backAndForth
    periodTotal (fun _ => .inherit) switchedPlan cluster cores none (report switchedPlan .empty backAndForth) firstOfMay =
      ∑ month ∈ (pairs.map Prod.fst).toFinset, best pairs month :=
  currentUsage_report (fun _ => .inherit) switchedPlan cluster cores none firstOfMay backAndForth
    backAndForth_attributed cores_billed

/-! ## The restriction -/

/-- The flags of a resource that a restriction drives. -/
inductive Flag
  | paused
  | downscaled
deriving DecidableEq, Repr

/-- `UsageLimitAction`. -/
inductive UsageLimitAction
  | pause
  | downscale
deriving DecidableEq, Repr

/-- `UsageLimitAction.FLAG`. -/
def UsageLimitAction.flag : UsageLimitAction → Flag
  | .pause => .paused
  | .downscale => .downscaled

/-- The columns of a resource that restrict it; an empty `usage_limit_restriction` is `none`. -/
structure Flags where
  paused : Bool := false
  downscaled : Bool := false
  usageLimitRestriction : Option Flag := none
deriving DecidableEq, Repr

namespace Flags

def get (flags : Flags) : Flag → Bool
  | .paused => flags.paused
  | .downscaled => flags.downscaled

/-- `setattr(resource, flag, value)`. -/
def set (flags : Flags) (flag : Flag) (value : Bool) : Flags :=
  match flag with
  | .paused => { flags with paused := value }
  | .downscaled => { flags with downscaled := value }

@[simp] theorem get_set_self (flags : Flags) (flag : Flag) (value : Bool) : (flags.set flag value).get flag = value := by
  cases flag <;> rfl

theorem get_set_ne (flags : Flags) {flag flag' : Flag} (value : Bool) (h : flag' ≠ flag) :
    (flags.set flag value).get flag' = flags.get flag' := by
  cases flag <;> cases flag' <;> first | rfl | exact absurd rfl h

@[simp] theorem restriction_set (flags : Flags) (flag : Flag) (value : Bool) :
    (flags.set flag value).usageLimitRestriction = flags.usageLimitRestriction := by
  cases flag <;> rfl

/-- Set a flag and note it as the restriction of the evaluation, or lift it. -/
def restrict (flags : Flags) (flag : Flag) : Flags := { flags.set flag true with usageLimitRestriction := some flag }

def lift (flags : Flags) (flag : Flag) : Flags := { flags.set flag false with usageLimitRestriction := none }

theorem get_restrict (flags : Flags) (flag flag' : Flag) :
    (flags.restrict flag).get flag' = (flag' = flag || flags.get flag') := by
  cases flag <;> cases flag' <;> rfl

theorem get_lift (flags : Flags) (flag flag' : Flag) :
    (flags.lift flag).get flag' = (flag' ≠ flag && flags.get flag') := by
  cases flag <;> cases flag' <;> rfl

end Flags

/-- Where `evaluate_usage_limit_restriction` does not return before it decides. -/
def Resource.isEvaluated (resource : Resource) : Bool := resource.state ≠ .terminating && resource.state ≠ .terminated

/-- `evaluate_usage_limit_restriction`; the action is `None` where the offering names none of the two. -/
def evaluateUsageLimitRestriction (modeOf : ℕ → BillingMode) (planOf : ℕ → ℕ) (action : Option UsageLimitAction)
    (resource : Resource) (t : Usages) (today : Date) (flags : Flags) : Flags :=
  match action with
  | none => flags
  | some action =>
    if !resource.isEvaluated then flags
    else
      let flag := action.flag
      let overLimit := isUsageOverComponentLimit modeOf planOf resource t today
      if overLimit ∧ flags.usageLimitRestriction ≠ some flag then
        match flags.usageLimitRestriction with
        | some stale => (flags.set stale false).restrict flag
        | none => flags.restrict flag
      else if !overLimit ∧ flags.usageLimitRestriction = some flag then flags.lift flag
      else flags

/-- The flags of a resource, and what the other parties have last made of each. -/
structure State where
  flags : Flags
  others : Flag → Bool

/-- An evaluation, or a flag written by another party: staff, a policy, the end of a grace period. -/
inductive Op
  | evaluate (action : Option UsageLimitAction) (resource : Resource) (t : Usages) (today : Date)
  | write (flag : Flag) (value : Bool)

def step (modeOf : ℕ → BillingMode) (planOf : ℕ → ℕ) (s : State) : Op → State
  | .evaluate action resource t today =>
    { s with flags := evaluateUsageLimitRestriction modeOf planOf action resource t today s.flags }
  | .write flag value => { flags := s.flags.set flag value, others := Function.update s.others flag value }

/-- **A flag is set exactly if another party or the evaluation wants it.** -/
def Honest (s : State) : Prop :=
  ∀ flag, s.flags.get flag = true ↔ s.others flag = true ∨ s.flags.usageLimitRestriction = some flag

/-- **What keeps the flags honest**: nobody clears a flag that the evaluation has set, and the evaluation lifts none
that another party wants. -/
def Clean (modeOf : ℕ → BillingMode) (planOf : ℕ → ℕ) (s : State) : Op → Prop
  | .write flag value => value = false → s.flags.usageLimitRestriction ≠ some flag
  | .evaluate none _ _ _ => True
  | .evaluate (some action) resource t today =>
    resource.isEvaluated = true → ∀ flag, s.flags.usageLimitRestriction = some flag →
      (if isUsageOverComponentLimit modeOf planOf resource t today then flag ≠ action.flag else flag = action.flag) →
        s.others flag = false

variable {s : State} {flag : Flag} {value : Bool} {action : UsageLimitAction}

theorem honest_write (h : Honest s) : Honest (step modeOf planOf s (.write flag value)) ↔
    (value = false → s.flags.usageLimitRestriction ≠ some flag) := by
  have hget (flag' : Flag) : (step modeOf planOf s (.write flag value)).flags.get flag' =
      if flag' = flag then value else s.flags.get flag' := by
    change (s.flags.set flag value).get flag' = _
    split
    · next heq => rw [heq, Flags.get_set_self]
    · next hne => exact Flags.get_set_ne _ _ hne
  have hothers (flag' : Flag) : (step modeOf planOf s (.write flag value)).others flag' =
      if flag' = flag then value else s.others flag' := Function.update_apply ..
  have hrestriction : (step modeOf planOf s (.write flag value)).flags.usageLimitRestriction =
      s.flags.usageLimitRestriction := Flags.restriction_set ..
  unfold Honest
  simp only [hget, hothers, hrestriction]
  constructor
  · intro h' hvalue heq
    have hflag := h' flag
    rw [if_pos rfl, if_pos rfl, hvalue] at hflag
    exact Bool.false_ne_true (hflag.mpr (Or.inr heq))
  · intro hclean flag'
    by_cases heq : flag' = flag
    · rw [if_pos heq, if_pos heq, heq]
      refine ⟨Or.inl, fun h' => h'.elim id fun hres => ?_⟩
      by_contra hvalue
      exact hclean (eq_false_of_ne_true hvalue) hres
    · rw [if_neg heq, if_neg heq]
      exact h flag'

/-- What an evaluation does to the flags that it lifts and the one that it sets. -/
theorem honest_replace {flags : Flags} (h : Honest s)
    (hget : ∀ flag, flags.get flag = true ↔ flags.usageLimitRestriction = some flag ∨
      s.flags.usageLimitRestriction ≠ some flag ∧ s.flags.get flag = true) :
    Honest { s with flags := flags } ↔ ∀ flag, s.flags.usageLimitRestriction = some flag →
      flags.usageLimitRestriction ≠ some flag → s.others flag = false := by
  constructor
  · intro h' flag hold hnew
    refine eq_false_of_ne_true fun hothers => ?_
    rcases (hget flag).mp ((h' flag).mpr (Or.inl hothers)) with hres | ⟨hne, -⟩
    · exact hnew hres
    · exact hne hold
  · intro hclean flag
    change flags.get flag = true ↔ s.others flag = true ∨ flags.usageLimitRestriction = some flag
    rw [hget, h flag]
    by_cases hnew : flags.usageLimitRestriction = some flag
    · exact iff_of_true (Or.inl hnew) (Or.inr hnew)
    · rw [or_iff_right hnew, or_iff_left hnew]
      by_cases hold : s.flags.usageLimitRestriction = some flag
      · refine iff_of_false (fun h' => h'.1 hold) fun hothers => ?_
        rw [hclean flag hold hnew] at hothers
        exact Bool.false_ne_true hothers
      · rw [and_iff_right hold, or_iff_left hold]

variable {resource : Resource}

/-- **What an evaluation leaves**: the restriction is the action of the offering exactly if a limit is reached. -/
theorem restriction_evaluate (hactive : resource.isEvaluated = true) (flags : Flags) :
    (evaluateUsageLimitRestriction modeOf planOf (some action) resource t today flags).usageLimitRestriction =
      if isUsageOverComponentLimit modeOf planOf resource t today then some action.flag
      else if flags.usageLimitRestriction = some action.flag then none else flags.usageLimitRestriction := by
  unfold evaluateUsageLimitRestriction
  dsimp only
  rw [hactive, if_neg (by decide)]
  cases hover : isUsageOverComponentLimit modeOf planOf resource t today with
  | true =>
    by_cases hres : flags.usageLimitRestriction = some action.flag
    · rw [if_neg (fun h => h.2 hres), if_neg (by simp), if_pos rfl]
      exact hres
    · rw [if_pos ⟨rfl, hres⟩, if_pos rfl]
      cases flags.usageLimitRestriction <;> rfl
  | false =>
    rw [if_neg (fun h => Bool.false_ne_true h.1), if_neg Bool.false_ne_true]
    split
    · next h =>
      rw [if_pos h.2]
      rfl
    · next h => rw [if_neg fun hres => h ⟨rfl, hres⟩]

/-- The outcomes of an evaluation. -/
theorem evaluate_cases (hactive : resource.isEvaluated = true) {flags flags' : Flags}
    (h : evaluateUsageLimitRestriction modeOf planOf (some action) resource t today flags = flags') :
    flags' = flags ∨ flags.usageLimitRestriction = none ∧ flags' = flags.restrict action.flag ∨
      (∃ stale, flags.usageLimitRestriction = some stale ∧ stale ≠ action.flag ∧
        flags' = (flags.set stale false).restrict action.flag) ∨
      flags.usageLimitRestriction = some action.flag ∧ flags' = flags.lift action.flag := by
  unfold evaluateUsageLimitRestriction at h
  dsimp only at h
  rw [hactive, if_neg (by decide)] at h
  split at h
  · next hover =>
    cases hres : flags.usageLimitRestriction with
    | none =>
      rw [hres] at h
      exact Or.inr (Or.inl ⟨rfl, h.symm⟩)
    | some stale =>
      rw [hres] at h
      refine Or.inr (Or.inr (Or.inl ⟨stale, rfl, fun heq => hover.2 ?_, h.symm⟩))
      rw [hres, heq]
  · split at h
    · next hunder => exact Or.inr (Or.inr (Or.inr ⟨hunder.2, h.symm⟩))
    · exact Or.inl h.symm

/-- A flag after an evaluation: the restriction, or one that was set and not lifted. -/
theorem get_evaluate (hres : s.flags.usageLimitRestriction = some flag → s.flags.get flag = true)
    (hactive : resource.isEvaluated = true) {flags : Flags}
    (h : evaluateUsageLimitRestriction modeOf planOf (some action) resource t today s.flags = flags) :
    flags.get flag = true ↔ flags.usageLimitRestriction = some flag ∨
      s.flags.usageLimitRestriction ≠ some flag ∧ s.flags.get flag = true := by
  have hset : ∀ flags : Flags, (flags.restrict action.flag).usageLimitRestriction = some flag ↔ flag = action.flag :=
    fun _ => ⟨fun h => (Option.some.inj h).symm, fun h => congrArg some h.symm⟩
  rcases evaluate_cases hactive h with rfl | ⟨hold, rfl⟩ | ⟨stale, hold, -, rfl⟩ | ⟨hold, rfl⟩
  · by_cases heq : s.flags.usageLimitRestriction = some flag
    · exact iff_of_true (hres heq) (Or.inl heq)
    · rw [or_iff_right heq, and_iff_right heq]
  · rw [Flags.get_restrict, Bool.or_eq_true, decide_eq_true_eq, hset, hold]
    exact or_congr_right (and_iff_right nofun).symm
  · rw [Flags.get_restrict, Bool.or_eq_true, decide_eq_true_eq, hset, hold]
    refine or_congr_right ?_
    by_cases heq : flag = stale
    · rw [heq, Flags.get_set_self]
      exact iff_of_false Bool.false_ne_true fun h => h.1 rfl
    · rw [Flags.get_set_ne _ _ heq]
      exact (and_iff_right fun h => heq (Option.some.inj h).symm).symm
  · rw [Flags.get_lift, Bool.and_eq_true, decide_eq_true_eq, hold]
    refine Iff.trans (and_congr_left fun _ => ?_) (or_iff_right (nofun : none ≠ some flag)).symm
    exact not_congr ⟨fun h => congrArg some h.symm, fun h => (Option.some.inj h).symm⟩

theorem clean_evaluate : Clean modeOf planOf s (.evaluate (some action) resource t today) ↔
    (resource.isEvaluated = true → ∀ flag, s.flags.usageLimitRestriction = some flag →
      (if isUsageOverComponentLimit modeOf planOf resource t today then flag ≠ action.flag else flag = action.flag) →
        s.others flag = false) := Iff.rfl

/-- **One step**: honest flags stay honest exactly where the step is clean. -/
theorem honest_step_iff (op : Op) (h : Honest s) :
    Honest (step modeOf planOf s op) ↔ Clean modeOf planOf s op := by
  cases op with
  | write flag value => exact honest_write h
  | evaluate action resource t today =>
    cases action with
    | none => exact iff_of_true h trivial
    | some action =>
      by_cases hactive : resource.isEvaluated = true
      · have hreplace : Honest (step modeOf planOf s (.evaluate (some action) resource t today)) ↔ _ :=
          honest_replace h fun flag => get_evaluate (fun hres => (h flag).mpr (Or.inr hres)) hactive rfl
        refine hreplace.trans ?_
        rw [clean_evaluate, restriction_evaluate hactive]
        cases isUsageOverComponentLimit modeOf planOf resource t today with
        | true =>
          simp only [if_true]
          refine ⟨fun h' _ flag hold hne => h' flag hold fun heq => hne (Option.some.inj heq).symm,
            fun h' flag hold hnew => h' hactive flag hold fun heq => hnew (congrArg some heq.symm)⟩
        | false =>
          simp only [Bool.false_eq_true, if_false]
          refine ⟨fun h' _ flag hold heq => h' flag hold ?_, fun h' flag hold hnew => h' hactive flag hold ?_⟩
          · rw [hold, heq, if_pos rfl]
            exact nofun
          · by_contra hne
            rw [hold, if_neg fun heq => hne (Option.some.inj heq)] at hnew
            exact hnew rfl
      · have hsame : step modeOf planOf s (.evaluate (some action) resource t today) = s := by
          show State.mk _ _ = s
          unfold evaluateUsageLimitRestriction
          dsimp only
          rw [if_pos (by rw [eq_false_of_ne_true hactive]; rfl)]
        rw [hsame]
        exact iff_of_true h fun hactive' => absurd hactive' hactive

/-- **The flags of a run are honest exactly if its steps are clean**, and then a clean evaluation with an action
leaves its flag set exactly if a limit is reached or another party wants the flag. -/
theorem flags_honest_iff (modeOf : ℕ → BillingMode) (planOf : ℕ → ℕ) (s : State) (ops : List Op) (h : Honest s) :
    (Along (step modeOf planOf) (fun s op => Honest (step modeOf planOf s op)) s ops ↔
      Along (step modeOf planOf) (Clean modeOf planOf) s ops) ∧
    (Along (step modeOf planOf) (Clean modeOf planOf) s ops → ∀ action resource t today, resource.isEvaluated = true →
      Clean modeOf planOf (run (step modeOf planOf) s ops) (.evaluate (some action) resource t today) →
      ((evaluateUsageLimitRestriction modeOf planOf (some action) resource t today
          (run (step modeOf planOf) s ops).flags).get action.flag = true ↔
        (run (step modeOf planOf) s ops).others action.flag = true ∨
          isUsageOverComponentLimit modeOf planOf resource t today = true)) := by
  refine ⟨@along_congr State Op (step modeOf planOf) Honest _ _ (fun _ op hs => honest_step_iff op hs)
    (fun _ _ _ hs => hs) ops s h, ?_⟩
  intro hclean action resource t today hactive hlast
  have hhonest : Honest (run (step modeOf planOf) s ops) :=
    @run_invariant_along State Op (step modeOf planOf) Honest _ (fun _ op hs hc => (honest_step_iff op hs).mpr hc)
      ops s h hclean
  have hafter := (honest_step_iff (.evaluate (some action) resource t today) hhonest).mpr hlast action.flag
  refine hafter.trans (or_congr_right ?_)
  change (evaluateUsageLimitRestriction modeOf planOf (some action) resource t today _).usageLimitRestriction = _ ↔ _
  rw [restriction_evaluate hactive]
  cases isUsageOverComponentLimit modeOf planOf resource t today with
  | true => exact iff_of_true rfl rfl
  | false =>
    refine iff_of_false (fun heq => ?_) Bool.false_ne_true
    simp only [Bool.false_eq_true, if_false] at heq
    split at heq
    · exact nomatch heq
    · next hne => exact hne heq

/-- A resource that nobody has restricted. -/
def unrestricted : State := ⟨{}, fun _ => false⟩

theorem honest_unrestricted : Honest unrestricted := by
  intro flag
  cases flag <;> simp [unrestricted, Flags.get]

/-- Staff pauses the resource and lifts that again, and its usage is evaluated. -/
def paused : List Op :=
  [.write .paused true, .write .paused false, .evaluate (some .pause) cluster .empty firstOfMay]

theorem flags_honest_paused :
    (Along (step (fun _ => .inherit) switchedPlan)
        (fun s op => Honest (step (fun _ => .inherit) switchedPlan s op)) unrestricted paused ↔
      Along (step (fun _ => .inherit) switchedPlan) (Clean (fun _ => .inherit) switchedPlan) unrestricted paused) ∧
    (Along (step (fun _ => .inherit) switchedPlan) (Clean (fun _ => .inherit) switchedPlan) unrestricted paused →
      ∀ action resource t today, resource.isEvaluated = true →
      Clean (fun _ => .inherit) switchedPlan (run (step (fun _ => .inherit) switchedPlan) unrestricted paused)
        (.evaluate (some action) resource t today) →
      ((evaluateUsageLimitRestriction (fun _ => .inherit) switchedPlan (some action) resource t today
          (run (step (fun _ => .inherit) switchedPlan) unrestricted paused).flags).get action.flag = true ↔
        (run (step (fun _ => .inherit) switchedPlan) unrestricted paused).others action.flag = true ∨
          isUsageOverComponentLimit (fun _ => .inherit) switchedPlan resource t today = true)) :=
  flags_honest_iff (fun _ => .inherit) switchedPlan unrestricted paused honest_unrestricted

end Waldur.Marketplace.UsageLimits
