import Mathlib
import Waldur.Lib.Runs
import Waldur.Marketplace.ResourceTermination

/-!
# Marketplace.PlanPeriods — the plan that a resource had at a moment

A resource keeps its plans as periods, half open, with no end while the plan lasts.  They are opened and closed by
the handlers of `Resource`, and created where they are missing by three lookups.  Usage is priced by the one
period that covers its date, so no two of them may share a moment (`Apart`).  `Sound` is the invariant of the
periods, `Clean` the exact condition on a step under which it keeps them apart: a resource whose state becomes OK
with another plan in the same save opens two periods, unless one is open, and `get_or_create_plan_period` opens
one from the creation of the resource, over all that it has.
-/

namespace Waldur.Marketplace.PlanPeriods

open Invoices Runs

attribute [local instance] instantPreorder

/-! ## The code -/

/-- The columns of `ResourcePlanPeriod`; the plan by its key. -/
structure ResourcePlanPeriod where
  plan : ℕ
  start : Option Instant
  stop : Option Instant
deriving DecidableEq, Repr

/-- The columns of a resource that its plan periods depend on. -/
structure Resource where
  state : ResourceState
  plan : Option ℕ
  created : Instant
deriving DecidableEq, Repr

/-- The filters of `get_plan_period`: `start` up to the date or null, `end` after it or null. -/
def ResourcePlanPeriod.Covers (p : ResourcePlanPeriod) (date : Instant) : Prop :=
  (∀ a ∈ p.start, a ≤ date) ∧ ∀ e ∈ p.stop, date < e

instance (p : ResourcePlanPeriod) (date : Instant) : Decidable (p.Covers date) := by
  unfold ResourcePlanPeriod.Covers
  infer_instance

/-- The filters of the billing month: both bounds are included. -/
def ResourcePlanPeriod.Overlaps (p : ResourcePlanPeriod) (monthStart monthEnd : Instant) : Prop :=
  (∀ a ∈ p.start, a ≤ monthEnd) ∧ ∀ e ∈ p.stop, monthStart ≤ e

instance (p : ResourcePlanPeriod) (monthStart monthEnd : Instant) : Decidable (p.Overlaps monthStart monthEnd) := by
  unfold ResourcePlanPeriod.Overlaps
  infer_instance

/-- The column that periods are ordered by; a null comes last. -/
def ResourcePlanPeriod.startKey (p : ResourcePlanPeriod) : WithTop Instant := p.start.elim ⊤ fun a => (a : WithTop Instant)

/-- `.order_by("start").last()`; of periods with one start the database may pick any. -/
def lastByStart (periods : List ResourcePlanPeriod) : Option ResourcePlanPeriod :=
  periods.argmax ResourcePlanPeriod.startKey

/-- `get_plan_period`. -/
def getPlanPeriod (periods : List ResourcePlanPeriod) (date : Instant) : Option ResourcePlanPeriod :=
  lastByStart (periods.filter fun p => p.Covers date)

/-- The second lookup of `get_plan_period_for_billing`. -/
def getPlanPeriodOfMonth (periods : List ResourcePlanPeriod) (date : Instant) : Option ResourcePlanPeriod :=
  lastByStart (periods.filter fun p => p.Overlaps (monthStart date) (monthEnd date))

/-- `create_resource_plan_period` of a resource with a plan. -/
def createResourcePlanPeriod (plan : ℕ) (now : Instant) (periods : List ResourcePlanPeriod) : List ResourcePlanPeriod :=
  periods ++ [{ plan := plan, start := some now, stop := none }]

/-- `close_resource_plan_period`: the open periods of a plan. -/
def closeResourcePlanPeriod (plan : ℕ) (now : Instant) (periods : List ResourcePlanPeriod) : List ResourcePlanPeriod :=
  periods.map fun p => if p.plan = plan ∧ p.stop = none then { p with stop := some now } else p

/-- `ResourcePlanPeriod.objects.filter(resource=instance, end=None).exists()`. -/
def HasOpen (periods : List ResourcePlanPeriod) : Prop := ∃ p ∈ periods, p.stop = none

instance (periods : List ResourcePlanPeriod) : Decidable (HasOpen periods) :=
  inferInstanceAs (Decidable (∃ p ∈ periods, p.stop = none))

/-- A save of the resource: the new columns, and what `now()` returns in the handlers of the state and in the
handler of the plan, which closes before it opens. -/
structure Save where
  state : ResourceState
  plan : Option ℕ
  now : Instant
  closing : Instant
  opening : Instant
  ordered : now ≤ closing ∧ closing ≤ opening

/-- `create_resource_plan_period_when_resource_is_created`. -/
def createPlanPeriodWhenCreated (previous : Resource) (v : Save) (periods : List ResourcePlanPeriod) :
    List ResourcePlanPeriod :=
  if v.state = previous.state then periods
  else if v.state ≠ .ok then periods
  else
    match v.plan with
    | none => periods
    | some plan => if HasOpen periods then periods else createResourcePlanPeriod plan v.now periods

/-- `close_resource_plan_period_when_resource_is_terminated`. -/
def closePlanPeriodWhenTerminated (previous : Resource) (v : Save) (periods : List ResourcePlanPeriod) :
    List ResourcePlanPeriod :=
  if v.state = previous.state then periods
  else if v.state ≠ .terminated then periods
  else
    match v.plan with
    | none => periods
    | some plan => closeResourcePlanPeriod plan v.now periods

/-- `switch_resource_plan_period_when_plan_is_updated`. -/
def switchPlanPeriodWhenPlanIsUpdated (previous : Resource) (v : Save) (periods : List ResourcePlanPeriod) :
    List ResourcePlanPeriod :=
  if v.plan = previous.plan then periods
  else
    let closed :=
      match previous.plan with
      | none => periods
      | some plan => closeResourcePlanPeriod plan v.closing periods
    match v.plan with
    | none => closed
    | some plan => createResourcePlanPeriod plan v.opening closed

/-- `resource.state in [ResourceStates.OK, ResourceStates.UPDATING]`. -/
def Resource.isActive (r : Resource) : Bool := r.state = .ok || r.state = .updating

/-- `get_plan_period_for_billing`: the period and what is stored. -/
def getPlanPeriodForBilling (r : Resource) (now date : Instant) (periods : List ResourcePlanPeriod) :
    Option ResourcePlanPeriod × List ResourcePlanPeriod :=
  match getPlanPeriod periods date with
  | some p => (some p, periods)
  | none =>
    match getPlanPeriodOfMonth periods date with
    | some p => (some p, periods)
    | none =>
      match r.plan with
      | none => (none, periods)
      | some plan =>
        if r.isActive ∧ monthStart date = monthStart now ∧ periods = [] then
          let p : ResourcePlanPeriod := { plan := plan, start := some r.created, stop := none }
          (some p, periods ++ [p])
        else (none, periods)

/-- `get_or_create_plan_period`. -/
def getOrCreatePlanPeriod (r : Resource) (date : Instant) (periods : List ResourcePlanPeriod) :
    Option ResourcePlanPeriod × List ResourcePlanPeriod :=
  match getPlanPeriod periods date with
  | some p => (some p, periods)
  | none =>
    match r.plan with
    | none => (none, periods)
    | some plan =>
      if r.isActive then
        let p : ResourcePlanPeriod := { plan := plan, start := some r.created, stop := none }
        (some p, periods ++ [p])
      else (none, periods)

/-- The first start from the end of a month on. -/
def followingStart (periods : List ResourcePlanPeriod) (monthEnd : Instant) : Option Instant :=
  ((periods.filterMap (·.start)).filter fun a => monthEnd ≤ a).min?

/-- The last end up to the start of a month. -/
def precedingEnd (periods : List ResourcePlanPeriod) (monthStart : Instant) : Option Instant :=
  ((periods.filterMap (·.stop)).filter fun e => e ≤ monthStart).max?

/-- `get_or_create_plan_period_for_historical_backfill`. -/
def getOrCreatePlanPeriodForHistoricalBackfill (r : Resource) (date : Instant) (periods : List ResourcePlanPeriod) :
    Option ResourcePlanPeriod × List ResourcePlanPeriod :=
  match getPlanPeriod periods date with
  | some p => (some p, periods)
  | none =>
    match getPlanPeriodOfMonth periods date with
    | some p => (some p, periods)
    | none =>
      match r.plan with
      | none => (none, periods)
      | some plan =>
        if r.isActive then
          let start := match precedingEnd periods (monthStart date) with
            | some e => max r.created e
            | none => r.created
          let p : ResourcePlanPeriod :=
            { plan := plan, start := some start, stop := followingStart periods (monthEnd date) }
          (some p, periods ++ [p])
        else (none, periods)

/-! ## Runs -/

/-- A resource with its plan periods, and the time of the last step. -/
structure State where
  resource : Resource
  periods : List ResourcePlanPeriod
  clock : Instant

/-- What touches the periods of a resource: a save of it, a lookup for billing, a lookup of an import or of a remote
usage, and a lookup of a historical backfill. -/
inductive Op
  | save (v : Save)
  | billing (now date : Instant)
  | getOrCreate (now date : Instant)
  | backfill (now date : Instant)

/-- When a step begins. -/
def Op.time : Op → Instant
  | .save v => v.now
  | .billing now _ => now
  | .getOrCreate now _ => now
  | .backfill now _ => now

/-- A save, then its handlers in the order they are connected. -/
def State.save (s : State) (v : Save) : State where
  resource := { s.resource with state := v.state, plan := v.plan }
  periods :=
    switchPlanPeriodWhenPlanIsUpdated s.resource v
      (closePlanPeriodWhenTerminated s.resource v (createPlanPeriodWhenCreated s.resource v s.periods))
  clock := v.opening

def step (s : State) : Op → State
  | .save v => s.save v
  | .billing now date => { s with periods := (getPlanPeriodForBilling s.resource now date s.periods).2, clock := now }
  | .getOrCreate now date => { s with periods := (getOrCreatePlanPeriod s.resource date s.periods).2, clock := now }
  | .backfill now date =>
    { s with periods := (getOrCreatePlanPeriodForHistoricalBackfill s.resource date s.periods).2, clock := now }

/-- A resource that was just created: no handler opens a period for it. -/
def State.new (r : Resource) : State := { resource := r, periods := [], clock := r.created }

/-- The clock does not run backwards. -/
def Timely (s : State) (op : Op) : Prop := s.clock ≤ op.time

/-- **No two periods share a moment.** -/
def Apart (periods : List ResourcePlanPeriod) : Prop :=
  periods.Pairwise fun p q => ∀ t, ¬ (p.Covers t ∧ q.Covers t)

/-- A period that some moment lies in. -/
def ResourcePlanPeriod.Proper (p : ResourcePlanPeriod) : Prop := ∀ a ∈ p.start, ∀ e ∈ p.stop, a < e

instance (p : ResourcePlanPeriod) : Decidable p.Proper := by
  unfold ResourcePlanPeriod.Proper
  infer_instance

/-- **What keeps the periods apart**: the state does not become OK together with a new plan while no period is
open, and a period from the creation of the resource is not added to one that lasted. -/
def Clean (s : State) : Op → Prop
  | .save v => v.state = .ok → v.state ≠ s.resource.state → v.plan ≠ none → v.plan ≠ s.resource.plan → HasOpen s.periods
  | .getOrCreate _ date =>
    getPlanPeriod s.periods date = none → s.resource.plan ≠ none → s.resource.isActive = true →
      ∀ p ∈ s.periods, ¬ p.Proper
  | .billing _ _ => True
  | .backfill _ _ => True

instance (s : State) (op : Op) : Decidable (Timely s op) := inferInstanceAs (Decidable (_ ≤ _))

instance (s : State) (op : Op) : Decidable (Clean s op) := by
  cases op <;> unfold Clean <;> infer_instance

/-! ## The invariant of the periods -/

/-- A period within the life of the resource so far. -/
structure ResourcePlanPeriod.Within (p : ResourcePlanPeriod) (created clock : Instant) : Prop where
  started : ∃ a, p.start = some a ∧ created ≤ a ∧ a ≤ clock ∧ ∀ e ∈ p.stop, a ≤ e
  ended : ∀ e ∈ p.stop, e ≤ clock

/-- **The invariant**: every period lies within the life of the resource, an open one has its plan, and no two
share a moment. -/
structure Sound (created clock : Instant) (plan : Option ℕ) (periods : List ResourcePlanPeriod) : Prop where
  created_le : created ≤ clock
  within : ∀ p ∈ periods, p.Within created clock
  open_plan : ∀ p ∈ periods, p.stop = none → plan = some p.plan
  apart : Apart periods

variable {created clock clock' now : Instant} {plan : Option ℕ} {k : ℕ} {periods : List ResourcePlanPeriod}
  {p q : ResourcePlanPeriod} {r : Resource} {s : State} {v : Save} {op : Op}

theorem apart_append_singleton :
    Apart (periods ++ [q]) ↔ Apart periods ∧ ∀ p ∈ periods, ∀ t, ¬ (p.Covers t ∧ q.Covers t) := by
  unfold Apart
  rw [List.pairwise_append]
  simp

theorem ResourcePlanPeriod.Within.mono (h : p.Within created clock) (hle : clock ≤ clock') :
    p.Within created clock' := by
  obtain ⟨a, hstart, hca, hac, hae⟩ := h.started
  exact ⟨⟨a, hstart, hca, hac.trans hle, hae⟩, fun e he => (h.ended e he).trans hle⟩

theorem Sound.mono (h : Sound created clock plan periods) (hle : clock ≤ clock') :
    Sound created clock' plan periods :=
  ⟨h.created_le.trans hle, fun p hp => (h.within p hp).mono hle, h.open_plan, h.apart⟩

theorem Sound.of_not_open (h : Sound created clock plan periods) (hopen : ¬ HasOpen periods) (plan' : Option ℕ) :
    Sound created clock plan' periods :=
  ⟨h.created_le, h.within, fun p hp hstop => absurd ⟨p, hp, hstop⟩ hopen, h.apart⟩

theorem Sound.not_open (h : Sound created clock none periods) : ¬ HasOpen periods :=
  fun ⟨p, hp, hstop⟩ => nomatch h.open_plan p hp hstop

/-! ### Closing -/

/-- What an open period of the plan becomes. -/
def closed (k : ℕ) (now : Instant) (p : ResourcePlanPeriod) : ResourcePlanPeriod :=
  if p.plan = k ∧ p.stop = none then { p with stop := some now } else p

theorem covers_of_closed {t : Instant} (h : (closed k now p).Covers t) : p.Covers t := by
  unfold closed at h
  split at h
  · next hopen =>
    refine ⟨h.1, fun e he => ?_⟩
    rw [hopen.2] at he
    exact nomatch he
  · exact h

theorem within_closed (h : p.Within created clock) (hle : clock ≤ now) : (closed k now p).Within created now := by
  unfold closed
  split
  · obtain ⟨a, hstart, hca, hac, -⟩ := h.started
    refine ⟨⟨a, hstart, hca, hac.trans hle, fun e he => ?_⟩, fun e he => ?_⟩
    · obtain rfl := Option.some.inj he
      exact hac.trans hle
    · obtain rfl := Option.some.inj he
      exact le_refl _
  · exact h.mono hle

theorem closed_stop (h : (closed k now p).stop = none) : p.stop = none ∧ p.plan ≠ k ∧ closed k now p = p := by
  unfold closed at h ⊢
  split at h
  · exact nomatch h
  · next hne =>
    rw [if_neg hne]
    exact ⟨h, fun hk => hne ⟨hk, h⟩, rfl⟩

theorem Sound.close (h : Sound created clock plan periods) (hle : clock ≤ now) :
    Sound created now plan (closeResourcePlanPeriod k now periods) := by
  refine ⟨h.created_le.trans hle, fun p hp => ?_, fun p hp hstop => ?_, ?_⟩
  · obtain ⟨q, hq, rfl⟩ := List.mem_map.mp hp
    exact within_closed (h.within q hq) hle
  · obtain ⟨q, hq, rfl⟩ := List.mem_map.mp hp
    obtain ⟨hopen, -, heq⟩ := closed_stop hstop
    have hplan := h.open_plan q hq hopen
    change plan = some (closed k now q).plan
    rw [heq]
    exact hplan
  · exact List.pairwise_map.mpr (h.apart.imp fun hpq t ht => hpq t ⟨covers_of_closed ht.1, covers_of_closed ht.2⟩)

/-- The open periods are those of the plan of the resource. -/
theorem Sound.close_plan (h : Sound created clock (some k) periods) (hle : clock ≤ now) :
    Sound created now none (closeResourcePlanPeriod k now periods) := by
  refine (h.close hle).of_not_open (fun hopen => ?_) none
  obtain ⟨p, hp, hstop⟩ := hopen
  obtain ⟨q, hq, rfl⟩ := List.mem_map.mp hp
  obtain ⟨hq', hne, -⟩ := closed_stop hstop
  exact hne (Option.some.inj (h.open_plan q hq hq')).symm

/-! ### Opening -/

theorem Sound.add (h : Sound created clock plan periods) (hq : q.Within created clock)
    (hplan : q.stop = none → plan = some q.plan) (hapart : ∀ p ∈ periods, ∀ t, ¬ (p.Covers t ∧ q.Covers t)) :
    Sound created clock plan (periods ++ [q]) := by
  refine ⟨h.created_le, fun p hp => ?_, fun p hp hstop => ?_, apart_append_singleton.mpr ⟨h.apart, hapart⟩⟩
  · rcases List.mem_append.mp hp with hp | hp
    · exact h.within p hp
    · rw [List.mem_singleton.mp hp]
      exact hq
  · rcases List.mem_append.mp hp with hp | hp
    · exact h.open_plan p hp hstop
    · rw [List.mem_singleton.mp hp] at hstop ⊢
      exact hplan hstop

/-- A period opened where none is open begins after all of them. -/
theorem Sound.create (h : Sound created clock plan periods) (hopen : ¬ HasOpen periods) (hle : clock ≤ now) :
    Sound created now (some k) (createResourcePlanPeriod k now periods) := by
  refine ((h.mono hle).of_not_open hopen (some k)).add ?_ (fun _ => rfl) fun p hp t ht => ?_
  · exact ⟨⟨now, rfl, h.created_le.trans hle, le_refl _, nofun⟩, nofun⟩
  · have hstop : p.stop ≠ none := fun hnone => hopen ⟨p, hp, hnone⟩
    obtain ⟨e, he⟩ := Option.ne_none_iff_exists'.mp hstop
    have hbefore : t < e := ht.1.2 e he
    have hafter : now ≤ t := ht.2.1 now rfl
    have hended : e ≤ clock := (h.within p hp).ended e he
    exact absurd (hafter.trans_lt (hbefore.trans_le (hended.trans hle))) (lt_irrefl now)


/-! ### The handlers -/

theorem Sound.createWhenCreated (h : Sound created clock r.plan periods) (hle : clock ≤ v.now)
    (hplan : v.state = .ok → v.state ≠ r.state → v.plan ≠ none → v.plan ≠ r.plan → HasOpen periods) :
    Sound created v.now r.plan (createPlanPeriodWhenCreated r v periods) := by
  unfold createPlanPeriodWhenCreated
  split
  · exact h.mono hle
  next hstate =>
  split
  · exact h.mono hle
  next hok =>
  cases hv : v.plan with
  | none => exact h.mono hle
  | some k =>
    show Sound created v.now r.plan (if HasOpen periods then periods else createResourcePlanPeriod k v.now periods)
    split
    · exact h.mono hle
    · next hopen =>
      have hsame : v.plan = r.plan := by
        by_contra hne
        exact hopen (hplan (not_not.mp hok) hstate (by rw [hv]; exact nofun) hne)
      rw [← hsame, hv]
      exact h.create hopen hle

theorem Sound.closeWhenTerminated (h : Sound created v.now r.plan periods) :
    Sound created v.now r.plan (closePlanPeriodWhenTerminated r v periods) := by
  unfold closePlanPeriodWhenTerminated
  split_ifs
  · exact h
  · exact h
  · cases v.plan with
    | none => exact h
    | some k => exact h.close (le_refl _)

theorem Sound.switchWhenPlanIsUpdated (h : Sound created v.now r.plan periods) :
    Sound created v.opening v.plan (switchPlanPeriodWhenPlanIsUpdated r v periods) := by
  unfold switchPlanPeriodWhenPlanIsUpdated
  split_ifs with hsame
  · rw [hsame]
    exact h.mono (v.ordered.1.trans v.ordered.2)
  · have hclosed : Sound created v.closing none
        (match r.plan with
          | none => periods
          | some plan => closeResourcePlanPeriod plan v.closing periods) := by
      cases hr : r.plan with
      | none =>
        rw [hr] at h
        exact h.mono v.ordered.1
      | some k =>
        rw [hr] at h
        exact h.close_plan v.ordered.1
    cases v.plan with
    | none => exact hclosed.mono v.ordered.2
    | some k => exact hclosed.create hclosed.not_open v.ordered.2

/-! ### The lookups -/

theorem mem_of_lastByStart (h : lastByStart periods = some p) : p ∈ periods := List.argmax_mem h

theorem lastByStart_eq_none : lastByStart periods = none ↔ periods = [] := List.argmax_eq_none

theorem getPlanPeriod_eq_none {date : Instant} :
    getPlanPeriod periods date = none ↔ ∀ p ∈ periods, ¬ p.Covers date := by
  unfold getPlanPeriod
  rw [lastByStart_eq_none, List.filter_eq_nil_iff]
  simp only [decide_eq_true_eq]

theorem getPlanPeriodOfMonth_eq_none {date : Instant} :
    getPlanPeriodOfMonth periods date = none ↔ ∀ p ∈ periods, ¬ p.Overlaps (monthStart date) (monthEnd date) := by
  unfold getPlanPeriodOfMonth
  rw [lastByStart_eq_none, List.filter_eq_nil_iff]
  simp only [decide_eq_true_eq]

/-- The first period of a resource, from its creation on. -/
theorem Sound.first (h : Sound created clock (some k) []) :
    Sound created clock (some k) [{ plan := k, start := some created, stop := none }] :=
  h.add ⟨⟨created, rfl, le_refl _, h.created_le, nofun⟩, nofun⟩ (fun _ => rfl)
    fun _ hp => absurd hp List.not_mem_nil

theorem Sound.billing {date : Instant} (h : Sound r.created clock r.plan periods) :
    Sound r.created clock r.plan (getPlanPeriodForBilling r now date periods).2 := by
  unfold getPlanPeriodForBilling
  cases getPlanPeriod periods date with
  | some p => exact h
  | none =>
    cases getPlanPeriodOfMonth periods date with
    | some p => exact h
    | none =>
      cases hr : r.plan with
      | none =>
        rw [hr] at h
        exact h
      | some k =>
        rw [hr] at h
        show Sound _ _ _ (ite _ _ _ : _ × _).2
        split_ifs with hcond
        · obtain rfl := hcond.2.2
          exact h.first
        · exact h

theorem monthStart_le_monthEnd (t : Instant) : monthStart t ≤ monthEnd t := by
  have hdays : 1 ≤ Calendar.monthDays t.month.year t.month.month := Calendar.one_le_monthDays _ _
  unfold monthStart monthEnd BillingMonth.stop BillingMonth.endDay Clock.dayLength
  have hpos : (1 : ℤ) ≤ Calendar.monthDays t.month.year t.month.month := by exact_mod_cast hdays
  show (_ : ℤ) ≤ _
  linarith

/-- A period that misses the month lies after the start that follows it or before the end that precedes it. -/
theorem outside_month {mStart mEnd : Instant} (h : ¬ p.Overlaps mStart mEnd) :
    (∃ a, p.start = some a ∧ mEnd < a) ∨ ∃ e, p.stop = some e ∧ e < mStart := by
  unfold ResourcePlanPeriod.Overlaps at h
  by_cases hstart : ∀ a ∈ p.start, a ≤ mEnd
  · have hstop : ¬ ∀ e ∈ p.stop, mStart ≤ e := fun hstop => h ⟨hstart, hstop⟩
    push Not at hstop
    obtain ⟨e, he, hlt⟩ := hstop
    exact Or.inr ⟨e, he, hlt⟩
  · push Not at hstart
    obtain ⟨a, ha, hlt⟩ := hstart
    exact Or.inl ⟨a, ha, hlt⟩


theorem precedingEnd_eq_none {mStart : Instant} (h : precedingEnd periods mStart = none) (hp : p ∈ periods) :
    ∀ e ∈ p.stop, ¬ e ≤ mStart := fun e he hle => by
  have hmem : e ∈ (periods.filterMap (·.stop)).filter fun e => e ≤ mStart :=
    List.mem_filter.mpr ⟨List.mem_filterMap.mpr ⟨p, hp, he⟩, decide_eq_true hle⟩
  rw [List.max?_eq_none_iff.mp h] at hmem
  exact absurd hmem List.not_mem_nil

theorem precedingEnd_eq_some {mStart m : Instant} (h : precedingEnd periods mStart = some m) :
    (∃ p ∈ periods, p.stop = some m ∧ m ≤ mStart) ∧ ∀ p ∈ periods, ∀ e ∈ p.stop, e ≤ mStart → e ≤ m := by
  obtain ⟨hmem, hmax⟩ := List.max?_eq_some_iff.mp h
  obtain ⟨hstop, hle⟩ := List.mem_filter.mp hmem
  obtain ⟨p, hp, hpm⟩ := List.mem_filterMap.mp hstop
  refine ⟨⟨p, hp, hpm, of_decide_eq_true hle⟩, fun q hq e he hle => hmax e ?_⟩
  exact List.mem_filter.mpr ⟨List.mem_filterMap.mpr ⟨q, hq, he⟩, decide_eq_true hle⟩

theorem followingStart_eq_none {mEnd : Instant} (h : followingStart periods mEnd = none) (hp : p ∈ periods) :
    ∀ a ∈ p.start, ¬ mEnd ≤ a := fun a ha hle => by
  have hmem : a ∈ (periods.filterMap (·.start)).filter fun a => mEnd ≤ a :=
    List.mem_filter.mpr ⟨List.mem_filterMap.mpr ⟨p, hp, ha⟩, decide_eq_true hle⟩
  rw [List.min?_eq_none_iff.mp h] at hmem
  exact absurd hmem List.not_mem_nil

theorem followingStart_eq_some {mEnd m : Instant} (h : followingStart periods mEnd = some m) :
    (∃ p ∈ periods, p.start = some m ∧ mEnd ≤ m) ∧ ∀ p ∈ periods, ∀ a ∈ p.start, mEnd ≤ a → m ≤ a := by
  obtain ⟨hmem, hmin⟩ := List.min?_eq_some_iff.mp h
  obtain ⟨hstart, hle⟩ := List.mem_filter.mp hmem
  obtain ⟨p, hp, hpm⟩ := List.mem_filterMap.mp hstart
  refine ⟨⟨p, hp, hpm, of_decide_eq_true hle⟩, fun q hq a ha hle => hmin a ?_⟩
  exact List.mem_filter.mpr ⟨List.mem_filterMap.mpr ⟨q, hq, ha⟩, decide_eq_true hle⟩

/-- Where the period of a historical month begins. -/
def backfillStart (created mStart : Instant) (periods : List ResourcePlanPeriod) : Instant :=
  match precedingEnd periods mStart with
  | some e => max created e
  | none => created

theorem created_le_backfillStart {mStart : Instant} : created ≤ backfillStart created mStart periods := by
  unfold backfillStart
  split
  · exact le_max_left _ _
  · exact le_refl _

theorem le_backfillStart {mStart e : Instant} (hp : p ∈ periods) (he : p.stop = some e) (hle : e ≤ mStart) :
    e ≤ backfillStart created mStart periods := by
  unfold backfillStart
  split
  · next m hm => exact ((precedingEnd_eq_some hm).2 p hp e he hle).trans (le_max_right _ _)
  · next hnone => exact absurd hle (precedingEnd_eq_none hnone hp e he)

theorem backfillStart_le {mStart b : Instant} (hcreated : created ≤ b)
    (h : ∀ p ∈ periods, ∀ e ∈ p.stop, e ≤ mStart → e ≤ b) : backfillStart created mStart periods ≤ b := by
  unfold backfillStart
  split
  · next m hm =>
    obtain ⟨⟨p, hp, hpm, hle⟩, -⟩ := precedingEnd_eq_some hm
    exact max_le hcreated (h p hp m hpm hle)
  · exact hcreated

/-- **The gap of a month**: from the period before it to the period after it. -/
theorem Sound.fillGap {mStart mEnd : Instant} (h : Sound created clock (some k) periods) (hmonth : mStart ≤ mEnd)
    (hmiss : ∀ p ∈ periods, ¬ p.Overlaps mStart mEnd) :
    Sound created clock (some k)
      (periods ++ [{ plan := k, start := some (backfillStart created mStart periods),
                     stop := followingStart periods mEnd }]) := by
  have hstart : ∀ p ∈ periods, ∀ a ∈ p.start, created ≤ a ∧ a ≤ clock := fun p hp a ha => by
    obtain ⟨a', ha', hca, hac, -⟩ := (h.within p hp).started
    rw [ha'] at ha
    obtain rfl := Option.some.inj ha
    exact ⟨hca, hac⟩
  refine h.add ⟨⟨_, rfl, created_le_backfillStart, ?_, fun m hm => ?_⟩, fun m hm => ?_⟩ (fun _ => rfl)
    fun p hp t ht => ?_
  · exact backfillStart_le h.created_le fun p hp e he _ => (h.within p hp).ended e he
  · obtain ⟨⟨p, hp, hpm, hle⟩, -⟩ := followingStart_eq_some hm
    exact backfillStart_le (hstart p hp m hpm).1 fun q _ e _ he => he.trans (hmonth.trans hle)
  · obtain ⟨⟨p, hp, hpm, -⟩, -⟩ := followingStart_eq_some hm
    exact (hstart p hp m hpm).2
  · rcases outside_month (hmiss p hp) with ⟨a, ha, hlt⟩ | ⟨e, he, hlt⟩
    · -- the period comes later than the month, so the new one ends before it
      cases hm : followingStart periods mEnd with
      | none => exact followingStart_eq_none hm hp a ha hlt.le
      | some m =>
        have hma : m ≤ a := (followingStart_eq_some hm).2 p hp a ha hlt.le
        have hat : a ≤ t := ht.1.1 a ha
        have htm : t < m := ht.2.2 m hm
        exact absurd (htm.trans_le (hma.trans hat)) (lt_irrefl t)
    · have hlow : e ≤ t := (le_backfillStart hp he hlt.le).trans (ht.2.1 _ rfl)
      exact absurd (hlow.trans_lt (ht.1.2 e he)) (lt_irrefl e)

theorem Sound.backfill {date : Instant} (h : Sound r.created clock r.plan periods) :
    Sound r.created clock r.plan (getOrCreatePlanPeriodForHistoricalBackfill r date periods).2 := by
  unfold getOrCreatePlanPeriodForHistoricalBackfill
  cases getPlanPeriod periods date with
  | some p => exact h
  | none =>
    cases hmonth : getPlanPeriodOfMonth periods date with
    | some p => exact h
    | none =>
      cases hr : r.plan with
      | none =>
        rw [hr] at h
        exact h
      | some k =>
        rw [hr] at h
        show Sound _ _ _ (ite _ _ _ : _ × _).2
        split
        · exact h.fillGap (monthStart_le_monthEnd date) (getPlanPeriodOfMonth_eq_none.mp hmonth)
        · exact h

/-! ## Which steps keep the periods apart -/

theorem ResourcePlanPeriod.Within.covers_start (h : p.Within created clock) (hp : p.Proper) :
    ∃ a, created ≤ a ∧ p.Covers a := by
  obtain ⟨a, ha, hca, -, -⟩ := h.started
  refine ⟨a, hca, fun b hb => ?_, hp a ha⟩
  rw [ha] at hb
  exact (Option.some.inj hb).symm.le

theorem not_proper_covers {t : Instant} (hw : p.Within created clock) (hp : ¬ p.Proper) : ¬ p.Covers t := fun ht => by
  obtain ⟨a, ha, -, -, -⟩ := hw.started
  refine hp fun b hb e he => ?_
  exact (ht.1 b hb).trans_lt (ht.2 e he)

/-- A period from the creation of the resource meets every other that lasted. -/
theorem Sound.apart_fromCreation_iff (h : Sound created clock (some k) periods) :
    Apart (periods ++ [{ plan := k, start := some created, stop := none }]) ↔ ∀ p ∈ periods, ¬ p.Proper := by
  rw [apart_append_singleton, and_iff_right h.apart]
  constructor
  · intro hapart p hp hproper
    obtain ⟨a, hca, hcov⟩ := (h.within p hp).covers_start hproper
    refine hapart p hp a ⟨hcov, fun b hb => ?_, nofun⟩
    obtain rfl := Option.some.inj hb
    exact hca
  · exact fun hnone p hp t ht => not_proper_covers (h.within p hp) (hnone p hp) ht.1

theorem Sound.fromCreation (h : Sound created clock (some k) periods) (hnone : ∀ p ∈ periods, ¬ p.Proper) :
    Sound created clock (some k) (periods ++ [{ plan := k, start := some created, stop := none }]) :=
  h.add ⟨⟨created, rfl, le_refl _, h.created_le, nofun⟩, nofun⟩ (fun _ => rfl)
    fun p hp _ ht => not_proper_covers (h.within p hp) (hnone p hp) ht.1

/-- The invariant of a resource with its periods. -/
def State.Sound (s : State) : Prop := PlanPeriods.Sound s.resource.created s.clock s.resource.plan s.periods

theorem sound_new (r : Resource) : (State.new r).Sound :=
  ⟨le_refl _, fun _ hp => absurd hp List.not_mem_nil, fun _ hp => absurd hp List.not_mem_nil, List.Pairwise.nil⟩

theorem sound_save (h : s.Sound) (ht : Timely s (.save v)) (hc : Clean s (.save v)) : (step s (.save v)).Sound :=
  ((Sound.createWhenCreated h ht hc).closeWhenTerminated).switchWhenPlanIsUpdated

theorem sound_getOrCreate {date : Instant} (h : s.Sound) (ht : s.clock ≤ now) (hc : Clean s (.getOrCreate now date)) :
    (step s (.getOrCreate now date)).Sound := by
  have hnow : PlanPeriods.Sound s.resource.created now s.resource.plan s.periods := Sound.mono h ht
  change PlanPeriods.Sound _ now s.resource.plan (getOrCreatePlanPeriod s.resource date s.periods).2
  unfold Clean at hc
  unfold getOrCreatePlanPeriod
  cases hget : getPlanPeriod s.periods date with
  | some p => exact hnow
  | none =>
    cases hr : s.resource.plan with
    | none =>
      rw [hr] at hnow
      exact hnow
    | some k =>
      rw [hr] at hnow
      show PlanPeriods.Sound _ _ _ (ite _ _ _ : _ × _).2
      split
      · next hactive =>
        exact hnow.fromCreation (hc hget (by rw [hr]; exact nofun) hactive)
      · exact hnow

/-- **A clean step keeps the invariant.** -/
theorem sound_step (h : s.Sound) (ht : Timely s op) (hc : Clean s op) : (step s op).Sound := by
  cases op with
  | save v => exact sound_save h ht hc
  | billing now date => exact Sound.billing (Sound.mono h ht)
  | getOrCreate now date => exact sound_getOrCreate h ht hc
  | backfill now date => exact Sound.backfill (Sound.mono h ht)

/-- A resource that becomes OK with a new plan while no period is open gets two open ones. -/
theorem two_open {plan' : ℕ} (hstate : v.state = .ok) (hchanged : v.state ≠ r.state) (hplan : v.plan = some plan')
    (hne : v.plan ≠ r.plan) (hopen : ¬ HasOpen periods) :
    ∃ before, switchPlanPeriodWhenPlanIsUpdated r v
        (closePlanPeriodWhenTerminated r v (createPlanPeriodWhenCreated r v periods)) =
      before ++ [{ plan := plan', start := some v.now, stop := none }] ++
        [{ plan := plan', start := some v.opening, stop := none }] := by
  have hcreate : createPlanPeriodWhenCreated r v periods =
      periods ++ [{ plan := plan', start := some v.now, stop := none }] := by
    unfold createPlanPeriodWhenCreated
    rw [if_neg hchanged, if_neg (not_not.mpr hstate), hplan]
    exact if_neg hopen
  have hclose (ps : List ResourcePlanPeriod) : closePlanPeriodWhenTerminated r v ps = ps := by
    unfold closePlanPeriodWhenTerminated
    rw [if_neg hchanged, if_pos (by rw [hstate]; exact nofun)]
  rw [hcreate, hclose]
  unfold switchPlanPeriodWhenPlanIsUpdated
  rw [if_neg hne, hplan]
  cases hr : r.plan with
  | none => exact ⟨periods, rfl⟩
  | some k =>
    refine ⟨closeResourcePlanPeriod k v.closing periods, ?_⟩
    have hother : plan' ≠ k := fun heq => hne (by rw [hplan, hr, heq])
    show createResourcePlanPeriod plan' v.opening (closeResourcePlanPeriod k v.closing (_ ++ [_])) = _
    unfold createResourcePlanPeriod closeResourcePlanPeriod
    rw [List.map_append, List.map_singleton, if_neg fun hk => hother hk.1]

theorem not_apart_two_open {a b : Instant} {before : List ResourcePlanPeriod} {m n : ℕ} :
    ¬ Apart (before ++ [{ plan := m, start := some a, stop := none }] ++ [{ plan := n, start := some b, stop := none }]) := by
  intro h
  rw [apart_append_singleton] at h
  refine h.2 _ (List.mem_append_right _ List.mem_cons_self) (max a b) ⟨⟨fun c hc => ?_, nofun⟩, ⟨fun c hc => ?_, nofun⟩⟩
  · obtain rfl := Option.some.inj hc
    exact le_max_left _ _
  · obtain rfl := Option.some.inj hc
    exact le_max_right _ _

theorem clean_of_apart_save (h : Apart (step s (.save v)).periods) : Clean s (.save v) := by
  intro hstate hchanged hplan hne
  by_contra hopen
  obtain ⟨plan', hplan'⟩ := Option.ne_none_iff_exists'.mp hplan
  obtain ⟨before, heq⟩ := two_open hstate hchanged hplan' hne hopen
  change Apart (switchPlanPeriodWhenPlanIsUpdated s.resource v _) at h
  rw [heq] at h
  exact not_apart_two_open h

theorem clean_of_apart_getOrCreate {date : Instant} (hs : s.Sound)
    (h : Apart (step s (.getOrCreate now date)).periods) : Clean s (.getOrCreate now date) := by
  intro hget hplan hactive
  obtain ⟨k, hk⟩ := Option.ne_none_iff_exists'.mp hplan
  have hsound : PlanPeriods.Sound s.resource.created s.clock (some k) s.periods := by
    rw [← hk]
    exact hs
  change Apart (getOrCreatePlanPeriod s.resource date s.periods).2 at h
  unfold getOrCreatePlanPeriod at h
  rw [hget, hk] at h
  change Apart (ite _ _ _ : _ × _).2 at h
  rw [if_pos hactive] at h
  exact hsound.apart_fromCreation_iff.mp h

/-- **One step**: under the invariant, the periods stay apart exactly where the step is clean. -/
theorem apart_step_iff (h : s.Sound) (ht : Timely s op) : Apart (step s op).periods ↔ Clean s op := by
  refine ⟨fun hapart => ?_, fun hc => (sound_step h ht hc).apart⟩
  cases op with
  | save v => exact clean_of_apart_save hapart
  | billing now date => trivial
  | getOrCreate now date => exact clean_of_apart_getOrCreate h hapart
  | backfill now date => trivial

/-- A save whose handlers read one time. -/
def Save.at (state : ResourceState) (plan : Option ℕ) (t : Instant) : Save where
  state := state
  plan := plan
  now := t
  closing := t
  opening := t
  ordered := ⟨le_refl t, le_refl t⟩

/-- A resource that is ordered on plan 1, switched to plan 2 and terminated; its usage is looked up on the way. -/
def switched : List Op :=
  [.save (.at .ok (some 1) 10), .billing 15 12, .save (.at .updating (some 1) 20), .save (.at .ok (some 2) 30),
    .getOrCreate 40 25, .backfill 45 35, .save (.at .terminated (some 2) 50)]

/-- A resource whose creation failed, and that an update order turns to OK and to plan 2. -/
def recovered : List Op := [.save (.at .erred (some 1) 10), .save (.at .ok (some 2) 20)]

def ordered : Resource := { state := .creating, plan := some 1, created := 0 }

/-- **No moment is ever covered twice, exactly in the clean runs.** -/
theorem periods_apart_iff (r : Resource) (ops : List Op) (h : Along step Timely (.new r) ops) :
    Along step (fun s op => Apart (step s op).periods) (.new r) ops ↔ Along step Clean (.new r) ops :=
  @along_congr_under State Op step State.Sound _ _ _ (fun _ _ hs ht => apart_step_iff hs ht)
    (fun _ _ hs ht hapart => sound_step hs ht ((apart_step_iff hs ht).mp hapart)) ops _ (sound_new r) h

theorem periods_apart_switched :
    Along step (fun s op => Apart (step s op).periods) (.new ordered) switched ↔
      Along step Clean (.new ordered) switched :=
  periods_apart_iff ordered switched (by decide)

/-- Both steps are timely, and the second opens two periods. -/
example : Along step Timely (.new ordered) recovered ∧ ¬ Along step Clean (.new ordered) recovered ∧
    (run step (.new ordered) recovered).periods =
      [{ plan := 2, start := some 20, stop := none }, { plan := 2, start := some 20, stop := none }] := by
  decide

/-! ## The plan that a resource had -/

/-- The plan of the resource at every moment, after one more step; a new plan counts from the moment its period is
opened. -/
def recordPlan (history : Instant → Option ℕ) : Op → Instant → Option ℕ
  | .save v, t => if t < v.opening then history t else v.plan
  | .billing _ _, t => history t
  | .getOrCreate _ _, t => history t
  | .backfill _ _, t => history t

/-- The plan that a resource had at a moment, by its saves. -/
def planAt (r : Resource) (ops : List Op) : Instant → Option ℕ := ops.foldl recordPlan fun _ => r.plan

/-- No period is made up: the two lookups that create one for a date outside of all periods find one, or leave the
periods as they are. -/
def Recorded (s : State) : Op → Prop
  | .save _ => True
  | .billing _ _ => True
  | .getOrCreate _ date => (getOrCreatePlanPeriod s.resource date s.periods).2 = s.periods
  | .backfill _ date => (getOrCreatePlanPeriodForHistoricalBackfill s.resource date s.periods).2 = s.periods

instance (s : State) (op : Op) : Decidable (Recorded s op) := by
  cases op <;> unfold Recorded <;> infer_instance

/-- What a period covers, the resource had on its plan. -/
def Tells (history : Instant → Option ℕ) (periods : List ResourcePlanPeriod) : Prop :=
  ∀ p ∈ periods, ∀ t, p.Covers t → history t = some p.plan

/-- The periods tell the plan that the resource had; until one is opened, it has kept its plan. -/
structure Faithful (s : State) (history : Instant → Option ℕ) : Prop where
  tells : Tells history s.periods
  current : ∀ t, s.clock ≤ t → history t = s.resource.plan
  constant : s.periods = [] → s.resource.plan ≠ none → ∀ t, history t = s.resource.plan

variable {history : Instant → Option ℕ} {ops : List Op}

theorem recordPlan_save (t : Instant) :
    recordPlan history (.save v) t = if t < v.opening then history t else v.plan := rfl

theorem recordPlan_same_plan (hcurrent : ∀ t, clock ≤ t → history t = r.plan) (ht : clock ≤ v.opening)
    (hplan : v.plan = r.plan) : recordPlan history (.save v) = history := by
  funext t
  rw [recordPlan_save]
  split
  · rfl
  · next hlate => rw [hplan, hcurrent t (ht.trans (not_lt.mp hlate))]

theorem Tells.close (h : Tells history periods) : Tells history (closeResourcePlanPeriod k now periods) := by
  intro p hp t ht
  obtain ⟨q, hq, rfl⟩ := List.mem_map.mp hp
  rw [h q hq t (covers_of_closed ht)]
  split <;> rfl

theorem Tells.add (h : Tells history periods) (hq : ∀ t, q.Covers t → history t = some q.plan) :
    Tells history (periods ++ [q]) := by
  intro p hp
  rcases List.mem_append.mp hp with hp | hp
  · exact h p hp
  · rw [List.mem_singleton.mp hp]
    exact hq

theorem Tells.createWhenCreated (h : Tells history periods) (hcurrent : ∀ t, clock ≤ t → history t = r.plan)
    (hle : clock ≤ v.now)
    (hplan : v.state = .ok → v.state ≠ r.state → v.plan ≠ none → v.plan ≠ r.plan → HasOpen periods) :
    Tells history (createPlanPeriodWhenCreated r v periods) := by
  unfold createPlanPeriodWhenCreated
  split
  · exact h
  next hstate =>
  split
  · exact h
  next hok =>
  cases hv : v.plan with
  | none => exact h
  | some k =>
    show Tells history (if HasOpen periods then periods else createResourcePlanPeriod k v.now periods)
    split
    · exact h
    · next hopen =>
      refine h.add fun t ht => ?_
      have hsame : v.plan = r.plan := by
        by_contra hne
        exact hopen (hplan (not_not.mp hok) hstate (by rw [hv]; exact nofun) hne)
      rw [hcurrent t (hle.trans (ht.1 _ rfl)), ← hsame, hv]

theorem Tells.closeWhenTerminated (h : Tells history periods) :
    Tells history (closePlanPeriodWhenTerminated r v periods) := by
  unfold closePlanPeriodWhenTerminated
  split
  · exact h
  split
  · exact h
  cases v.plan with
  | none => exact h
  | some k => exact h.close

/-- What was closed by a switch ended before the new plan counts. -/
theorem Tells.before_switch (h : Tells history periods) (hsound : Sound created v.closing none periods) :
    Tells (recordPlan history (.save v)) periods := by
  intro p hp t ht
  obtain ⟨e, he⟩ := Option.ne_none_iff_exists'.mp fun hnone => hsound.not_open ⟨p, hp, hnone⟩
  have hlt : t < v.opening := (ht.2 e he).trans_le (((hsound.within p hp).ended e he).trans v.ordered.2)
  rw [recordPlan_save, if_pos hlt]
  exact h p hp t ht

theorem Tells.switchWhenPlanIsUpdated (h : Tells history periods) (hsound : Sound created v.now r.plan periods)
    (hcurrent : ∀ t, v.now ≤ t → history t = r.plan) :
    Tells (recordPlan history (.save v)) (switchPlanPeriodWhenPlanIsUpdated r v periods) := by
  unfold switchPlanPeriodWhenPlanIsUpdated
  split
  · next hsame =>
    rw [recordPlan_same_plan hcurrent (v.ordered.1.trans v.ordered.2) hsame]
    exact h
  · have hclosed : Tells (recordPlan history (.save v))
        (match r.plan with
          | none => periods
          | some plan => closeResourcePlanPeriod plan v.closing periods) := by
      cases hr : r.plan with
      | none =>
        rw [hr] at hsound
        exact h.before_switch (hsound.mono v.ordered.1)
      | some k =>
        rw [hr] at hsound
        exact h.close.before_switch (hsound.close_plan v.ordered.1)
    cases hv : v.plan with
    | none => exact hclosed
    | some k =>
      refine hclosed.add fun t ht => ?_
      rw [recordPlan_save, if_neg (not_lt.mpr (ht.1 _ rfl)), hv]

/-! ### The handlers remove no period -/

theorem length_createWhenCreated : periods.length ≤ (createPlanPeriodWhenCreated r v periods).length := by
  unfold createPlanPeriodWhenCreated
  split
  · exact le_refl _
  split
  · exact le_refl _
  cases v.plan with
  | none => exact le_refl _
  | some k =>
    show periods.length ≤ (ite _ _ _ : List _).length
    split
    · exact le_refl _
    · exact (List.sublist_append_left _ _).length_le

theorem length_closeWhenTerminated : (closePlanPeriodWhenTerminated r v periods).length = periods.length := by
  unfold closePlanPeriodWhenTerminated
  split
  · rfl
  split
  · rfl
  cases v.plan with
  | none => rfl
  | some k => exact List.length_map _

theorem switch_eq_nil (hplan : v.plan ≠ none) (h : switchPlanPeriodWhenPlanIsUpdated r v periods = []) :
    v.plan = r.plan ∧ periods = [] := by
  obtain ⟨k, hk⟩ := Option.ne_none_iff_exists'.mp hplan
  by_cases hsame : v.plan = r.plan
  · unfold switchPlanPeriodWhenPlanIsUpdated at h
    rw [if_pos hsame] at h
    exact ⟨hsame, h⟩
  · unfold switchPlanPeriodWhenPlanIsUpdated at h
    rw [if_neg hsame, hk] at h
    exact absurd h (List.append_ne_nil_of_right_ne_nil _ (List.cons_ne_nil _ _))

theorem save_eq_nil (hplan : v.plan ≠ none) (h : (s.save v).periods = []) :
    v.plan = s.resource.plan ∧ s.periods = [] := by
  obtain ⟨hsame, hnil⟩ := switch_eq_nil hplan h
  refine ⟨hsame, List.length_eq_zero_iff.mp (Nat.le_zero.mp ?_)⟩
  calc s.periods.length ≤ (createPlanPeriodWhenCreated s.resource v s.periods).length := length_createWhenCreated
    _ = (closePlanPeriodWhenTerminated s.resource v (createPlanPeriodWhenCreated s.resource v s.periods)).length :=
        length_closeWhenTerminated.symm
    _ = 0 := by rw [hnil, List.length_nil]

/-! ### The run -/

theorem faithful_save (hs : s.Sound) (hf : Faithful s history) (ht : Timely s (.save v)) (hc : Clean s (.save v)) :
    Faithful (step s (.save v)) (recordPlan history (.save v)) := by
  have hopening : s.clock ≤ v.opening := ht.trans (v.ordered.1.trans v.ordered.2)
  refine ⟨?_, fun t hle => ?_, fun hnil hplan t => ?_⟩
  · exact ((hf.tells.createWhenCreated hf.current ht hc).closeWhenTerminated).switchWhenPlanIsUpdated
      ((Sound.createWhenCreated hs ht hc).closeWhenTerminated) fun t hle => hf.current t (ht.trans hle)
  · exact if_neg (not_lt.mpr hle)
  · obtain ⟨hsame, hold⟩ := save_eq_nil hplan hnil
    rw [recordPlan_same_plan hf.current hopening hsame]
    change history t = v.plan
    rw [hsame]
    exact hf.constant hold (hsame ▸ hplan) t

/-- A lookup that stores nothing. -/
theorem faithful_unchanged (hf : Faithful s history) (hle : s.clock ≤ now) :
    Faithful { s with clock := now } history :=
  ⟨hf.tells, fun t ht => hf.current t (hle.trans ht), hf.constant⟩

theorem faithful_billing {date : Instant} (hf : Faithful s history) (ht : Timely s (.billing now date)) :
    Faithful (step s (.billing now date)) history := by
  change Faithful { s with periods := (getPlanPeriodForBilling s.resource now date s.periods).2, clock := now } history
  unfold getPlanPeriodForBilling
  cases getPlanPeriod s.periods date with
  | some p => exact faithful_unchanged hf ht
  | none =>
    cases getPlanPeriodOfMonth s.periods date with
    | some p => exact faithful_unchanged hf ht
    | none =>
      cases hr : s.resource.plan with
      | none => exact faithful_unchanged hf ht
      | some k =>
        by_cases hcond : s.resource.isActive = true ∧ monthStart date = monthStart now ∧ s.periods = []
        · simp only [if_pos hcond]
          refine ⟨hf.tells.add fun t _ => ?_, fun t hle => hf.current t (ht.trans hle),
            fun hnil => absurd hnil (List.append_ne_nil_of_right_ne_nil _ (List.cons_ne_nil _ _))⟩
          rw [hf.constant hcond.2.2 (by rw [hr]; exact nofun) t, hr]
        · simp only [if_neg hcond]
          exact faithful_unchanged hf ht

theorem faithful_step (hs : s.Sound) (hf : Faithful s history) (ht : Timely s op) (hc : Clean s op)
    (hr : Recorded s op) : Faithful (step s op) (recordPlan history op) := by
  cases op with
  | save v => exact faithful_save hs hf ht hc
  | billing now date => exact faithful_billing hf ht
  | getOrCreate now date =>
    change Faithful { s with periods := (getOrCreatePlanPeriod s.resource date s.periods).2, clock := now } history
    rw [hr]
    exact faithful_unchanged hf ht
  | backfill now date =>
    change Faithful { s with
      periods := (getOrCreatePlanPeriodForHistoricalBackfill s.resource date s.periods).2, clock := now } history
    rw [hr]
    exact faithful_unchanged hf ht

/-- What a run of timely and clean steps keeps, by induction on the steps. -/
theorem faithful_run : ∀ (ops : List Op) (s : State) (history : Instant → Option ℕ), s.Sound → Faithful s history →
    Along step Timely s ops → Along step Clean s ops → Along step Recorded s ops →
    (run step s ops).Sound ∧ Faithful (run step s ops) (ops.foldl recordPlan history)
  | [], _, _, hs, hf, _, _, _ => ⟨hs, hf⟩
  | op :: ops, s, history, hs, hf, ht, hc, hr =>
    faithful_run ops (step s op) (recordPlan history op) (sound_step hs ht.1 hc.1)
      (faithful_step hs hf ht.1 hc.1 hr.1) ht.2 hc.2 hr.2

theorem faithful_new (r : Resource) : Faithful (.new r) fun _ => r.plan :=
  ⟨fun _ hp => absurd hp List.not_mem_nil, fun _ _ => rfl, fun _ _ _ => rfl⟩

theorem Apart.eq_of_covers {t : Instant} (h : Apart periods) (hp : p ∈ periods) (hq : q ∈ periods) (hpt : p.Covers t)
    (hqt : q.Covers t) : p = q := by
  have hsymm : Std.Symm fun p q : ResourcePlanPeriod => ∀ t, ¬ (p.Covers t ∧ q.Covers t) :=
    ⟨fun _ _ h t ht => h t ht.symm⟩
  by_contra hne
  exact h.forall hp hq hne t ⟨hpt, hqt⟩

/-- Of periods that are apart, the lookup finds the one that covers the date. -/
theorem getPlanPeriod_eq_some_iff {date : Instant} (h : Apart periods) :
    getPlanPeriod periods date = some p ↔ p ∈ periods ∧ p.Covers date := by
  have hfound {q : ResourcePlanPeriod} (hq : getPlanPeriod periods date = some q) : q ∈ periods ∧ q.Covers date :=
    (List.mem_filter.mp (mem_of_lastByStart hq)).imp_right of_decide_eq_true
  refine ⟨hfound, fun ⟨hp, hcov⟩ => ?_⟩
  cases hget : getPlanPeriod periods date with
  | none => exact absurd hcov (getPlanPeriod_eq_none.mp hget p hp)
  | some q => rw [h.eq_of_covers (hfound hget).1 hp (hfound hget).2 hcov]

/-- The period of plan 1 is found, and the lookups on the way stored nothing. -/
example : getPlanPeriod (run step (.new ordered) switched).periods 25 = some ⟨1, some 10, some 30⟩ ∧
    (run step (.new ordered) switched).periods = [⟨1, some 10, some 30⟩, ⟨2, some 30, some 50⟩] := by
  decide

end Waldur.Marketplace.PlanPeriods
