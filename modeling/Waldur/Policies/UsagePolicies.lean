import Mathlib
import Waldur.Policies.Costs

/-!
# Policies.UsagePolicies — policies over component usage

`OfferingUsagePolicy.is_triggered` and `CustomerComponentUsagePolicy.is_triggered` of `policy/models.py`: the
usage of a component since the start of a period, summed over a queryset, against the limits of the policy.
Both loop over the rows of a table in the order in which the database returns them; the first loop returns in
its first turn.
-/

namespace Waldur.Policies

open Calendar

/-! ## Usages -/

structure ComponentUsage where
  resource : Resource
  component : ℕ
  usage : ℚ
  billingPeriod : Date

/-- The usages beside the organizations and the day. -/
structure UsageWorld extends World where
  usages : List ComponentUsage

/-- `queryset.filter(component=component).aggregate(usage=Sum("usage"))["usage"] or 0`. -/
def summedUsage (usages : List ComponentUsage) (component : ℕ) : ℚ :=
  ((usages.filter fun u => u.component == component).map (·.usage)).sum

/-- `month_start` of a day, some months before. -/
def monthStart (today : Date) (months : ℕ) : Date where
  year := (monthsBefore today months).1
  month := (monthsBefore today months).2
  day := 1
  month_valid := ⟨Nat.le_add_left _ _, Nat.mod_lt _ (by decide)⟩
  day_valid := ⟨le_refl 1, one_le_monthDays _ _⟩

/-- The day of `month_end`. -/
def monthEnd (today : Date) : Date where
  year := today.year
  month := today.month
  day := monthDays today.year today.month
  month_valid := today.month_valid
  day_valid := ⟨one_le_monthDays _ _, le_refl _⟩

/-- `PeriodMixin.get_start_date`. -/
def Period.startDate (p : Period) (today : Date) : Option Date :=
  match p with
  | .total => none
  | .month1 => some (monthStart today 0)
  | .month3 => some (monthStart today 2)
  | .month12 => some (monthStart today 11)

/-- `billing_period__lte=month_end(today)`, and `billing_period__gte=start` where there is a start. -/
def Period.covers (p : Period) (today billingPeriod : Date) : Bool :=
  !decide (monthEnd today < billingPeriod) &&
    match p.startDate today with
    | none => true
    | some start => !decide (billingPeriod < start)

/-! ## The two policies -/

structure OfferingComponentLimit where
  component : ℕ
  limit : ℤ
deriving DecidableEq

/-- The policy with its rows of `OfferingComponentLimit`, in the order in which they are returned. -/
structure OfferingUsagePolicy where
  scope : ℕ
  period : Period := .month1
  organizationGroups : List ℕ := []
  applyToAll : Bool := false
  componentLimits : List OfferingComponentLimit
  unique_together : (componentLimits.map (·.component)).Nodup

structure CustomerUsagePolicyComponent where
  component : ℕ
  period : Period := .month1
  limit : ℤ
deriving DecidableEq

structure CustomerComponentUsagePolicy where
  scope : ℕ
  componentLimits : List CustomerUsagePolicyComponent
  unique_together : (componentLimits.map fun l => (l.component, l.period)).Nodup

namespace OfferingUsagePolicy

variable (p : OfferingUsagePolicy) (w : UsageWorld)

/-- The queryset of the usages, as the customers are selected. -/
def usages : List ComponentUsage :=
  let usages := w.usages.filter fun u => u.resource.offering.id == p.scope
  let usages :=
    if p.applyToAll then usages.filter fun u => w.activeCustomer u.resource.project.customer
    else usages.filter fun u =>
      w.inGroups p.organizationGroups u.resource.project.customer && w.activeCustomer u.resource.project.customer
  usages.filter fun u => p.period.covers w.today u.billingPeriod

/-- The `total` of a component. -/
def total (component : ℕ) : ℚ := summedUsage (p.usages w) component

/-- The loop over the limits: both branches of its body return. -/
def checkLimits : List OfferingComponentLimit → Option Bool
  | [] => none
  | componentLimit :: _ => if (componentLimit.limit : ℚ) < p.total w componentLimit.component then some true else some false

/-- `is_triggered`; a loop without a turn returns `None`. -/
def isTriggered : Option Bool := p.checkLimits w p.componentLimits

/-- A limit that is exceeded. -/
def Exceeded (componentLimit : OfferingComponentLimit) : Prop :=
  (componentLimit.limit : ℚ) < p.total w componentLimit.component

end OfferingUsagePolicy

namespace CustomerComponentUsagePolicy

variable (p : CustomerComponentUsagePolicy) (w : UsageWorld)

/-- The queryset of the usages of the customer. -/
def usages : List ComponentUsage := w.usages.filter fun u => u.resource.project.customer == p.scope

/-- The `total` of a limit, over the limit's own period. -/
def total (componentLimit : CustomerUsagePolicyComponent) : ℚ :=
  summedUsage ((p.usages w).filter fun u => componentLimit.period.covers w.today u.billingPeriod)
    componentLimit.component

/-- The loop over the limits. -/
def checkLimits : List CustomerUsagePolicyComponent → Bool
  | [] => false
  | componentLimit :: componentLimits =>
    if (componentLimit.limit : ℚ) < p.total w componentLimit then true else checkLimits componentLimits

/-- `is_triggered`. -/
def isTriggered : Bool := p.checkLimits w p.componentLimits

end CustomerComponentUsagePolicy

/-! ## What the loops decide -/

section Decide

variable {p : OfferingUsagePolicy} {q : CustomerComponentUsagePolicy} {w v : UsageWorld}

/-- The loop of the customer policy decides whether some limit is exceeded. -/
theorem customer_checkLimits_eq_true : ∀ {limits : List CustomerUsagePolicyComponent},
    q.checkLimits v limits = true ↔ ∃ l ∈ limits, (l.limit : ℚ) < q.total v l
  | [] => iff_of_false Bool.false_ne_true fun ⟨_, hl, _⟩ => List.not_mem_nil hl
  | l :: limits => by
    have ih : q.checkLimits v limits = true ↔ ∃ l ∈ limits, (l.limit : ℚ) < q.total v l :=
      customer_checkLimits_eq_true
    unfold CustomerComponentUsagePolicy.checkLimits
    by_cases h : (l.limit : ℚ) < q.total v l
    · rw [if_pos h]
      exact iff_of_true rfl ⟨l, List.mem_cons_self, h⟩
    · rw [if_neg h, ih, List.exists_mem_cons_iff, or_iff_right h]

/-- The loop of the offering policy decides its first limit. -/
theorem isTriggered_eq_true :
    p.isTriggered w = some true ↔ ∃ l ∈ p.componentLimits.head?, p.Exceeded w l := by
  unfold OfferingUsagePolicy.isTriggered
  cases p.componentLimits with
  | nil => simp [OfferingUsagePolicy.checkLimits]
  | cons l limits =>
    simp only [OfferingUsagePolicy.checkLimits, List.head?_cons, Option.mem_def, Option.some.injEq, exists_eq_left',
      OfferingUsagePolicy.Exceeded]
    by_cases h : (l.limit : ℚ) < p.total w l.component
    · simp [h]
    · simp [h]

/-- Two policies with the same limits on the same sums, the rows in any order. -/
def SameLimits (p : OfferingUsagePolicy) (w : UsageWorld) (q : CustomerComponentUsagePolicy) (v : UsageWorld) : Prop :=
  (p.componentLimits.map fun l => (l.component, p.total w l.component, l.limit)).Perm
    (q.componentLimits.map fun l => (l.component, q.total v l, l.limit))

theorem SameLimits.exceeded_iff (h : SameLimits p w q v) :
    (∃ l ∈ q.componentLimits, (l.limit : ℚ) < q.total v l) ↔ ∃ l ∈ p.componentLimits, p.Exceeded w l := by
  constructor
  · rintro ⟨l, hl, hexceeded⟩
    obtain ⟨l', hl', heq⟩ := List.mem_map.mp (h.mem_iff.mpr (List.mem_map_of_mem hl))
    obtain ⟨-, heq⟩ := Prod.mk.inj heq
    obtain ⟨htotal, hlimit⟩ := Prod.mk.inj heq
    refine ⟨l', hl', ?_⟩
    rw [OfferingUsagePolicy.Exceeded, htotal, hlimit]
    exact hexceeded
  · rintro ⟨l, hl, hexceeded⟩
    obtain ⟨l', hl', heq⟩ := List.mem_map.mp (h.mem_iff.mp (List.mem_map_of_mem hl))
    obtain ⟨-, heq⟩ := Prod.mk.inj heq
    obtain ⟨htotal, hlimit⟩ := Prod.mk.inj heq
    refine ⟨l', hl', ?_⟩
    rw [htotal, hlimit]
    exact hexceeded

/-- What the policy is for: it fires iff some limit is exceeded, as the customer policy does on equal usages and
limits. -/
def FiresIffExceeded (p : OfferingUsagePolicy) (w : UsageWorld) : Prop :=
  (p.isTriggered w = some true ↔ ∃ l ∈ p.componentLimits, p.Exceeded w l) ∧
    ∀ (q : CustomerComponentUsagePolicy) (v : UsageWorld), SameLimits p w q v →
      (q.isTriggered v = true ↔ p.isTriggered w = some true)

/-- **When an offering usage policy decides right**: if the limit that is returned first is exceeded, or none is. -/
theorem firesIffExceeded_iff (p : OfferingUsagePolicy) (w : UsageWorld) :
    FiresIffExceeded p w ↔
      (∃ l ∈ p.componentLimits.head?, p.Exceeded w l) ∨ ∀ l ∈ p.componentLimits, ¬ p.Exceeded w l := by
  constructor
  · rintro ⟨hfires, -⟩
    by_cases hsome : ∃ l ∈ p.componentLimits, p.Exceeded w l
    · exact Or.inl (isTriggered_eq_true.mp (hfires.mpr hsome))
    · exact Or.inr fun l hl hexceeded => hsome ⟨l, hl, hexceeded⟩
  · intro h
    have hfires : p.isTriggered w = some true ↔ ∃ l ∈ p.componentLimits, p.Exceeded w l := by
      rw [isTriggered_eq_true]
      constructor
      · rintro ⟨l, hl, hexceeded⟩
        exact ⟨l, List.mem_of_mem_head? hl, hexceeded⟩
      · rintro ⟨l, hl, hexceeded⟩
        exact h.resolve_right fun hnone => hnone l hl hexceeded
    refine ⟨hfires, fun q v hsame => ?_⟩
    rw [hfires, ← hsame.exceeded_iff]
    exact customer_checkLimits_eq_true

end Decide

theorem ungrouped : ([] : List ℕ).Nodup := List.nodup_nil

theorem oneCustomer : (([{ id := 1, groups_nodup := ungrouped }] : List Customer).map Customer.id).Nodup :=
  List.nodup_singleton _

/-- 15 units of component 2 are used in June, of a resource of organization 1. -/
def usageSample : UsageWorld where
  db := Invoices.Db.empty
  customers := ⟨[{ id := 1, groups_nodup := ungrouped }], oneCustomer⟩
  policies := []
  today := Invoices.midJune
  usages := [⟨⟨1, ⟨1, 1, false⟩, ⟨1, false, false, false⟩, .ok, false, false, false⟩, 2, 15, Invoices.midJune⟩]

/-- Ten units are allowed of components 1 and 2, and the row of component 1 is returned first. -/
def twoLimits : OfferingUsagePolicy where
  scope := 1
  applyToAll := true
  componentLimits := [⟨1, 10⟩, ⟨2, 10⟩]
  unique_together := by decide

/-- The limit of component 2 is exceeded, but the policy returns after the row of component 1. -/
theorem twoLimits_silent : ¬ FiresIffExceeded twoLimits usageSample := by
  rintro ⟨hfires, -⟩
  have hexceeded : twoLimits.Exceeded usageSample ⟨2, 10⟩ := by
    unfold OfferingUsagePolicy.Exceeded
    decide +kernel
  have hsilent : twoLimits.isTriggered usageSample = some false := by decide +kernel
  have htrue := hfires.mpr ⟨⟨2, 10⟩, by decide, hexceeded⟩
  rw [hsilent] at htrue
  cases htrue

end Waldur.Policies
