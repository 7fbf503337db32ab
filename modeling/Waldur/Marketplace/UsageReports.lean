import Mathlib
import Waldur.Lib.Calendar
import Waldur.Lib.Decimal
import Waldur.Lib.Runs
import Waldur.Lib.TablePairs

/-!
# Marketplace.UsageReports — the rows that usage reports of a backend leave

A report of the current usage updates one `ComponentUsage` row: that of its resource, component and month, and of
the plan that its plan period belongs to.  The row found is the one of the period, or of another period of the same
plan, or one without a period.  `Legal` are the two unique constraints of the table, `OnePerPlan` says that a month
has one row for each plan and that a row without a period is alone.  Where every report has a plan period the rows
are the peaks of the reports (`ledger`, refined by `ledger_report`).
-/

namespace Decimal

variable {n : ℕ} {x y : ℚ}

/-- The digit that an amount is rounded to. -/
def halfEvenDigits (scaled : ℚ) : ℤ :=
  if scaled - ⌊scaled⌋ < 1 / 2 ∨ (scaled - ⌊scaled⌋ = 1 / 2 ∧ ⌊scaled⌋ % 2 = 0) then ⌊scaled⌋ else ⌊scaled⌋ + 1

theorem quantizeHalfEven_eq : quantizeHalfEven n x = (halfEvenDigits (x * 10 ^ n) : ℚ) / 10 ^ n := rfl

theorem halfEvenDigits_mono (h : x ≤ y) : halfEvenDigits x ≤ halfEvenDigits y := by
  have hfloor : ⌊x⌋ ≤ ⌊y⌋ := Int.floor_le_floor h
  unfold halfEvenDigits
  split
  · split
    · exact hfloor
    · exact hfloor.trans (Int.le_add_one (le_refl _))
  · next hx =>
    split
    · next hy =>
      rcases hfloor.lt_or_eq with hlt | heq
      · exact hlt
      · -- the same integer part, and more beyond it
        have hrest : x - ⌊x⌋ ≤ y - ⌊y⌋ := by
          rw [heq]
          linarith
        refine absurd ?_ hx
        rcases hy with hy | hy
        · exact Or.inl (hrest.trans_lt hy)
        · rcases hrest.lt_or_eq with hlt | hsame
          · exact Or.inl (hlt.trans_eq hy.1)
          · exact Or.inr ⟨hsame.trans hy.1, heq ▸ hy.2⟩
    · exact add_le_add_left hfloor 1

theorem quantizeHalfEven_mono (h : x ≤ y) : quantizeHalfEven n x ≤ quantizeHalfEven n y := by
  have hp : (0 : ℚ) < 10 ^ n := by positivity
  rw [quantizeHalfEven_eq, quantizeHalfEven_eq]
  refine div_le_div_of_nonneg_right ?_ hp.le
  exact_mod_cast halfEvenDigits_mono (mul_le_mul_of_nonneg_right h hp.le)

theorem halfEvenDigits_intCast (d : ℤ) : halfEvenDigits d = d := by
  unfold halfEvenDigits
  rw [Int.floor_intCast, sub_self]
  exact if_pos (Or.inl (by norm_num))

theorem quantizeHalfEven_quantizeHalfEven :
    quantizeHalfEven n (quantizeHalfEven n x) = quantizeHalfEven n x := by
  have hp : (10 : ℚ) ^ n ≠ 0 := by positivity
  rw [quantizeHalfEven_eq (x := quantizeHalfEven n x), quantizeHalfEven_eq, div_mul_cancel₀ _ hp,
    halfEvenDigits_intCast]

end Decimal

namespace Waldur.Marketplace.UsageReports

open Calendar Decimal Relational Runs

/-! ## The code -/

/-- What identifies the usage of a month. -/
structure Slot where
  resource : ℕ
  component : ℕ
  billingPeriod : Date
deriving DecidableEq

/-- The columns of `ComponentUsage`; the plan period by its key. -/
structure ComponentUsage where
  id : ℕ
  slot : Slot
  planPeriod : Option ℕ
  usage : ℚ
  date : Date
deriving DecidableEq

abbrev Usages := Table ℕ ComponentUsage ComponentUsage.id

/-- A usage that a backend reports; `planPeriod` is what `get_plan_period_for_billing` found. -/
structure Report where
  resource : ℕ
  component : ℕ
  date : Date
  planPeriod : Option ℕ
  usage : ℚ

/-- `core_utils.month_start(date)`. -/
def Report.slot (rep : Report) : Slot := ⟨rep.resource, rep.component, rep.date.replaceDayOne⟩

section Code

-- the plan of a plan period
variable (planOf : ℕ → ℕ)

/-- `plan_period__plan`. -/
def ComponentUsage.plan (row : ComponentUsage) : Option ℕ := row.planPeriod.map planOf

/-- The query of `_get_current_usage_row`, by primary key. -/
def rowsOf (t : Usages) (slot : Slot) : List ComponentUsage := t.rows.filter fun row => row.slot = slot

/-- `_get_current_usage_row`: the row, and the table after the deletion of duplicates. -/
def getCurrentUsageRow (t : Usages) (slot : Slot) (planPeriod : Option ℕ) : Option ComponentUsage × Usages :=
  let rows := rowsOf t slot
  match planPeriod with
  | none =>
    match (rows.find? fun row => row.planPeriod = none).or rows.head? with
    | some existing => (some existing, t.filter fun row => row.slot ≠ slot ∨ row.id = existing.id)
    | none => (none, t)
  | some period =>
    match rows.find? fun row => row.planPeriod = some period with
    | some existing => (some existing, t.filter fun row => row.slot ≠ slot ∨ row.planPeriod ≠ none)
    | none =>
      match rows.find? fun row => row.plan planOf = some (planOf period) with
      | some existing => (some existing, t)
      | none => (rows.find? fun row => row.planPeriod = none, t)

/-- `existing.save()` of a reported usage; the column has two decimal places. -/
def ComponentUsage.raise (row : ComponentUsage) (rep : Report) : ComponentUsage :=
  { row with planPeriod := rep.planPeriod, usage := quantizeHalfEven 2 (max rep.usage row.usage) }

/-- `ComponentUsage.objects.create` of a reported usage. -/
def Report.newRow (rep : Report) (id : ℕ) : ComponentUsage where
  id := id
  slot := rep.slot
  planPeriod := rep.planPeriod
  usage := quantizeHalfEven 2 rep.usage
  date := rep.date

theorem raise_id (rep : Report) (row : ComponentUsage) : (row.raise rep).id = row.id := rfl

theorem newRow_id (rep : Report) (id : ℕ) : (rep.newRow id).id = id := rfl

/-- `_update_high_watermark_usage`. -/
def updateHighWatermarkUsage (t : Usages) (rep : Report) : Usages :=
  match getCurrentUsageRow planOf t rep.slot rep.planPeriod with
  | (some existing, t') => t'.update existing.id (fun row => row.raise rep) (raise_id rep)
  | (none, t') => t'.add rep.newRow (newRow_id rep)

end Code

/-! ## The rows of a month -/

/-- The two unique constraints of `ComponentUsage`: a month has one row of a plan period, and one without. -/
def LegalPair (row row' : ComponentUsage) : Prop := row.slot = row'.slot → row.planPeriod ≠ row'.planPeriod

def Legal (t : Usages) : Prop := t.Apart LegalPair

/-- Two rows of a month belong to two plans. -/
def PlanPair (planOf : ℕ → ℕ) (row row' : ComponentUsage) : Prop :=
  row.slot = row'.slot → ∃ p p', row.planPeriod = some p ∧ row'.planPeriod = some p' ∧ planOf p ≠ planOf p'

def OnePerPlan (planOf : ℕ → ℕ) (t : Usages) : Prop := t.Apart (PlanPair planOf)

variable {planOf : ℕ → ℕ} {t t' : Usages} {rep : Report} {slot : Slot} {row row' : ComponentUsage}
  {found : Option ComponentUsage} {planPeriod : Option ℕ}

theorem LegalPair.symm (h : LegalPair row row') : LegalPair row' row := fun hslot => (h hslot.symm).symm

theorem PlanPair.symm (h : PlanPair planOf row row') : PlanPair planOf row' row := fun hslot => by
  obtain ⟨p, p', hp, hp', hne⟩ := h hslot.symm
  exact ⟨p', p, hp', hp, hne.symm⟩

theorem OnePerPlan.legal (h : OnePerPlan planOf t) : Legal t := h.imp fun row row' hpair hslot heq => by
  obtain ⟨p, p', hp, hp', hne⟩ := hpair hslot
  rw [hp, hp'] at heq
  exact hne (congrArg planOf (Option.some.inj heq))

theorem mem_rowsOf : row ∈ rowsOf t slot ↔ row ∈ t.rows ∧ row.slot = slot := by
  unfold rowsOf
  rw [List.mem_filter, decide_eq_true_eq]

theorem mem_of_find {p : ComponentUsage → Bool} (h : (rowsOf t slot).find? p = some row) :
    row ∈ t.rows ∧ row.slot = slot ∧ p row = true :=
  ⟨(mem_rowsOf.mp (List.mem_of_find?_eq_some h)).1, (mem_rowsOf.mp (List.mem_of_find?_eq_some h)).2, List.find?_some h⟩

theorem not_of_find_none {p : ComponentUsage → Bool} (h : (rowsOf t slot).find? p = none) (hrow : row ∈ t.rows)
    (hslot : row.slot = slot) : ¬ p row = true := List.find?_eq_none.mp h row (mem_rowsOf.mpr ⟨hrow, hslot⟩)

/-- **What the lookup finds**: the rows that stay, and how the row found differs from the rest of the month. -/
structure Found (planOf : ℕ → ℕ) (t : Usages) (slot : Slot) (planPeriod : Option ℕ) (found : Option ComponentUsage)
    (t' : Usages) : Prop where
  sub : ∀ row ∈ t'.rows, row ∈ t.rows
  frame : ∀ row ∈ t.rows, row.slot ≠ slot → row ∈ t'.rows
  same : found = none → t' = t
  mem : ∀ row, found = some row → row ∈ t'.rows ∧ row.slot = slot
  plan : ∀ p, planPeriod = some p → ∀ row, found = some row → row.planPeriod = none ∨ row.plan planOf = some (planOf p)
  attributed : ∀ p, planPeriod = some p → ∀ row ∈ t.rows, row.planPeriod ≠ none → row ∈ t'.rows
  single : planPeriod = none → ∀ row ∈ t'.rows, row.slot = slot → found = some row
  legal : ∀ p, planPeriod = some p → Legal t → ∀ row ∈ t'.rows, row.slot = slot → found ≠ some row →
    row.planPeriod ≠ some p
  plans : ∀ p, planPeriod = some p → OnePerPlan planOf t → ∀ row ∈ t'.rows, row.slot = slot → found ≠ some row →
    ∃ p', row.planPeriod = some p' ∧ planOf p' ≠ planOf p

/-- A report without a plan period keeps one row of the month. -/
theorem found_none : Found planOf t slot none (getCurrentUsageRow planOf t slot none).1
    (getCurrentUsageRow planOf t slot none).2 := by
  unfold getCurrentUsageRow
  dsimp only
  split
  · next existing hfind =>
    have hexisting : existing ∈ t.rows ∧ existing.slot = slot := by
      rcases Option.or_eq_some_iff.mp hfind with h | ⟨-, h⟩
      · exact ⟨(mem_of_find h).1, (mem_of_find h).2.1⟩
      · exact mem_rowsOf.mp (List.mem_of_head? h)
    refine ⟨fun row hrow => (Table.mem_filter.mp hrow).1, fun row hrow hne => ?_, nofun, fun row heq => ?_, nofun, nofun,
      fun _ row hrow hslot => ?_, nofun, nofun⟩
    · exact Table.mem_filter.mpr ⟨hrow, decide_eq_true (Or.inl hne)⟩
    · obtain rfl := Option.some.inj heq
      exact ⟨Table.mem_filter.mpr ⟨hexisting.1, decide_eq_true (Or.inr rfl)⟩, hexisting.2⟩
    · obtain ⟨hmem, hkeep⟩ := Table.mem_filter.mp hrow
      have hid : row.id = existing.id := (of_decide_eq_true hkeep).resolve_left fun hne => hne hslot
      rw [t.eq_of_key_eq hmem hexisting.1 hid]
  · next hfind =>
    refine ⟨fun _ h => h, fun _ h _ => h, fun _ => rfl, nofun, nofun, nofun, fun _ row hrow hslot => ?_, nofun, nofun⟩
    have hnil : rowsOf t slot = [] := List.head?_eq_none_iff.mp (Option.or_eq_none_iff.mp hfind).2
    exact absurd (mem_rowsOf.mpr ⟨hrow, hslot⟩) (by rw [hnil]; exact List.not_mem_nil)

/-- A report of a plan period: the row of the period, of another period of its plan, or one without a period. -/
theorem found_some (p : ℕ) : Found planOf t slot (some p) (getCurrentUsageRow planOf t slot (some p)).1
    (getCurrentUsageRow planOf t slot (some p)).2 := by
  unfold getCurrentUsageRow
  dsimp only
  split
  · next existing hfind =>
    obtain ⟨hmem, hslot, hp⟩ := mem_of_find hfind
    have hperiod : existing.planPeriod = some p := of_decide_eq_true hp
    refine ⟨fun row hrow => (Table.mem_filter.mp hrow).1, fun row hrow hne => ?_, nofun, fun row heq => ?_,
      fun q hq row heq => Or.inr ?_, fun _ _ row hrow hne => ?_, nofun, fun q hq hlegal row hrow hs hne => ?_,
      fun q hq hplans row hrow hs hne => ?_⟩
    · exact Table.mem_filter.mpr ⟨hrow, decide_eq_true (Or.inl hne)⟩
    · obtain rfl := Option.some.inj heq
      exact ⟨Table.mem_filter.mpr ⟨hmem, decide_eq_true (Or.inr (by rw [hperiod]; exact nofun))⟩, hslot⟩
    · obtain rfl := Option.some.inj heq
      unfold ComponentUsage.plan
      rw [hperiod, ← Option.some.inj hq, Option.map_some]
    · exact Table.mem_filter.mpr ⟨hrow, decide_eq_true (Or.inr hne)⟩
    · rw [← hq, ← hperiod]
      exact hlegal row (Table.mem_filter.mp hrow).1 existing hmem (fun heq => hne (congrArg some heq.symm))
        (hs.trans hslot.symm)
    · obtain rfl := Option.some.inj hq
      obtain ⟨q, q', hq, hq', hqq⟩ := hplans row (Table.mem_filter.mp hrow).1 existing hmem
        (fun heq => hne (congrArg some heq.symm)) (hs.trans hslot.symm)
      rw [hperiod] at hq'
      obtain rfl := Option.some.inj hq'
      exact ⟨q, hq, hqq⟩
  · next hnone =>
    have hother {row : ComponentUsage} (hrow : row ∈ t.rows) (hs : row.slot = slot) : row.planPeriod ≠ some p :=
      fun heq => not_of_find_none hnone hrow hs (decide_eq_true heq)
    split
    · next existing hfind =>
      obtain ⟨hmem, hslot, hp⟩ := mem_of_find hfind
      have hplan : existing.planPeriod.map planOf = some (planOf p) := of_decide_eq_true hp
      refine ⟨fun _ h => h, fun _ h _ => h, nofun, fun row heq => ?_, fun q hq row heq => Or.inr ?_, fun _ _ _ h _ => h, nofun,
        fun q hq _ row hrow hs _ => ?_, fun q hq hplans row hrow hs hne => ?_⟩
      · obtain rfl := Option.some.inj heq
        exact ⟨hmem, hslot⟩
      · obtain rfl := Option.some.inj heq
        rw [← Option.some.inj hq]
        exact hplan
      · rw [← hq]
        exact hother hrow hs
      · obtain rfl := Option.some.inj hq
        obtain ⟨q, q', hq, hq', hqq⟩ := hplans row hrow existing hmem (fun heq => hne (congrArg some heq.symm))
          (hs.trans hslot.symm)
        rw [hq'] at hplan
        exact ⟨q, hq, fun heq => hqq (heq.trans (Option.some.inj hplan).symm)⟩
    · next hnoplan =>
      refine ⟨fun _ h => h, fun _ h _ => h, fun _ => rfl, fun row heq => ?_, fun q hq row heq => Or.inl ?_, fun _ _ _ h _ => h, nofun,
        fun q hq _ row hrow hs _ => ?_, fun q hq hplans row hrow hs hne => ?_⟩
      · obtain ⟨hmem, hslot, -⟩ := mem_of_find heq
        exact ⟨hmem, hslot⟩
      · exact of_decide_eq_true (mem_of_find heq).2.2
      · rw [← hq]
        exact hother hrow hs
      · obtain rfl := Option.some.inj hq
        cases hrp : row.planPeriod with
        | some q =>
          refine ⟨q, rfl, fun heq => not_of_find_none hnoplan hrow hs (decide_eq_true ?_)⟩
          unfold ComponentUsage.plan
          rw [hrp, Option.map_some, heq]
        | none =>
          -- a row without a period would have been found
          cases hfind : (rowsOf t slot).find? fun row => row.planPeriod = none with
          | none => exact absurd (decide_eq_true hrp) (not_of_find_none hfind hrow hs)
          | some existing =>
            obtain ⟨hmem, hslot, -⟩ := mem_of_find hfind
            by_cases heq : row = existing
            · exact absurd (heq ▸ hfind) hne
            · obtain ⟨q, -, hq, -, -⟩ := hplans row hrow existing hmem heq (hs.trans hslot.symm)
              rw [hrp] at hq
              exact nomatch hq

theorem found_getCurrentUsageRow (planOf : ℕ → ℕ) (t : Usages) (slot : Slot) (planPeriod : Option ℕ) :
    Found planOf t slot planPeriod (getCurrentUsageRow planOf t slot planPeriod).1
      (getCurrentUsageRow planOf t slot planPeriod).2 := by
  cases planPeriod with
  | none => exact found_none
  | some p => exact found_some p

/-! ## One report -/

/-- The row that a report writes. -/
def written (planOf : ℕ → ℕ) (t : Usages) (rep : Report) : ComponentUsage :=
  match getCurrentUsageRow planOf t rep.slot rep.planPeriod with
  | (some existing, _) => existing.raise rep
  | (none, t') => rep.newRow t'.freshId

/-- The rows of other plans and months that stay. -/
def Stays (planOf : ℕ → ℕ) (t : Usages) (rep : Report) (row : ComponentUsage) : Prop :=
  row ∈ (getCurrentUsageRow planOf t rep.slot rep.planPeriod).2.rows ∧
    (getCurrentUsageRow planOf t rep.slot rep.planPeriod).1 ≠ some row

/-- The rows after a report. -/
theorem mem_report : row ∈ (updateHighWatermarkUsage planOf t rep).rows ↔
    row = written planOf t rep ∨ Stays planOf t rep row := by
  unfold updateHighWatermarkUsage written Stays
  have hfound := found_getCurrentUsageRow planOf t rep.slot rep.planPeriod
  rcases hget : getCurrentUsageRow planOf t rep.slot rep.planPeriod with ⟨_ | existing, t'⟩
  · dsimp only
    rw [Table.mem_add, or_comm]
    exact or_congr_right (and_iff_left (nofun : none ≠ some row)).symm
  · rw [hget] at hfound
    dsimp only
    rw [Table.mem_update_of_mem (hfound.mem existing rfl).1]
    exact or_congr_right (and_congr_right fun _ => not_congr ⟨fun h => congrArg some h.symm, fun h => (Option.some.inj h).symm⟩)

theorem written_planPeriod : (written planOf t rep).planPeriod = rep.planPeriod := by
  unfold written
  split <;> rfl

theorem written_slot : (written planOf t rep).slot = rep.slot := by
  unfold written
  have hfound := found_getCurrentUsageRow planOf t rep.slot rep.planPeriod
  split
  · next existing t' hget =>
    rw [hget] at hfound
    exact (hfound.mem existing rfl).2
  · rfl

theorem Stays.mem (h : Stays planOf t rep row) : row ∈ t.rows := (found_getCurrentUsageRow ..).sub row h.1

/-- A report leaves the other months as they are. -/
theorem frame_report (h : row.slot ≠ rep.slot) : row ∈ (updateHighWatermarkUsage planOf t rep).rows ↔ row ∈ t.rows := by
  rw [mem_report]
  constructor
  · rintro (rfl | hstays)
    · exact absurd written_slot h
    · exact hstays.mem
  · intro hrow
    exact Or.inr ⟨(found_getCurrentUsageRow ..).frame row hrow h, fun heq => h ((found_getCurrentUsageRow ..).mem row heq).2⟩

/-- A relation between the rows survives a report whose row has it to the rows that stay in its month. -/
theorem apart_report {R : ComponentUsage → ComponentUsage → Prop} (hsymm : ∀ r r', R r r' → R r' r) (h : t.Apart R)
    (hother : ∀ row, Stays planOf t rep row → R (written planOf t rep) row) :
    (updateHighWatermarkUsage planOf t rep).Apart R := by
  intro a ha b hb hne
  rcases mem_report.mp ha with rfl | ha
  · rcases mem_report.mp hb with rfl | hb
    · exact absurd rfl hne
    · exact hother b hb
  · rcases mem_report.mp hb with rfl | hb
    · exact hsymm _ _ (hother a ha)
    · exact h a ha.mem b hb.mem hne

theorem legal_report (h : Legal t) : Legal (updateHighWatermarkUsage planOf t rep) := by
  refine apart_report (fun _ _ => LegalPair.symm) h fun row hstays hslot => ?_
  rw [written_slot] at hslot
  rw [written_planPeriod]
  have hfound := found_getCurrentUsageRow planOf t rep.slot rep.planPeriod
  cases hp : rep.planPeriod with
  | none => exact absurd (hfound.single hp row hstays.1 hslot.symm) hstays.2
  | some p => exact (hfound.legal p hp h row hstays.1 hslot.symm hstays.2).symm

theorem onePerPlan_report (h : OnePerPlan planOf t) : OnePerPlan planOf (updateHighWatermarkUsage planOf t rep) := by
  refine apart_report (fun _ _ => PlanPair.symm) h fun row hstays hslot => ?_
  rw [written_slot] at hslot
  rw [written_planPeriod]
  have hfound := found_getCurrentUsageRow planOf t rep.slot rep.planPeriod
  cases hp : rep.planPeriod with
  | none => exact absurd (hfound.single hp row hstays.1 hslot.symm) hstays.2
  | some p =>
    obtain ⟨p', hp', hne⟩ := hfound.plans p hp h row hstays.1 hslot.symm hstays.2
    exact ⟨p, p', rfl, hp', hne.symm⟩

/-! ## Runs -/

/-- The table after a list of reports. -/
def report (planOf : ℕ → ℕ) (t : Usages) (reports : List Report) : Usages :=
  reports.foldl (updateHighWatermarkUsage planOf) t

variable {reports : List Report}

theorem report_append_singleton :
    report planOf t (reports ++ [rep]) = updateHighWatermarkUsage planOf (report planOf t reports) rep := by
  unfold report
  rw [List.foldl_append]
  rfl

/-- **No report breaks a unique constraint**, whatever the rows of the month are; and the months of no report stay as
they are. -/
theorem report_legal (planOf : ℕ → ℕ) (t : Usages) (reports : List Report) (h : Legal t) :
    Legal (report planOf t reports) ∧ (OnePerPlan planOf t → OnePerPlan planOf (report planOf t reports)) ∧
      ∀ row, (∀ rep ∈ reports, row.slot ≠ rep.slot) → (row ∈ (report planOf t reports).rows ↔ row ∈ t.rows) := by
  induction reports using List.reverseRecOn with
  | nil => exact ⟨h, fun hplans => hplans, fun _ _ => Iff.rfl⟩
  | append_singleton reports rep ih =>
    rw [report_append_singleton]
    refine ⟨legal_report ih.1, fun hplans => onePerPlan_report (ih.2.1 hplans), fun row hrow => ?_⟩
    rw [frame_report (hrow rep (List.mem_append_right _ List.mem_cons_self))]
    exact ih.2.2 row fun rep' hrep' => hrow rep' (List.mem_append_left _ hrep')

theorem firstOfMay_valid : 1 ≤ 1 ∧ 1 ≤ monthDays 2024 5 := by decide

def firstOfMay : Date := ⟨2024, 5, 1, may_valid, firstOfMay_valid⟩

/-- Periods 7 and 9 are of plan 1, period 8 is of plan 2. -/
def switchedPlan (p : ℕ) : ℕ := if p = 8 then 2 else 1

/-- Usage of a month in which a resource leaves plan 1 and comes back to it. -/
def backAndForth : List Report :=
  [⟨1, 1, firstOfMay, some 7, 5⟩, ⟨1, 1, firstOfMay, some 8, 10⟩, ⟨1, 1, firstOfMay, some 9, 4⟩]

theorem report_legal_backAndForth : Legal (report switchedPlan .empty backAndForth) ∧
    (OnePerPlan switchedPlan .empty → OnePerPlan switchedPlan (report switchedPlan .empty backAndForth)) ∧
      ∀ row, (∀ rep ∈ backAndForth, row.slot ≠ rep.slot) →
        (row ∈ (report switchedPlan .empty backAndForth).rows ↔ row ∈ (Table.empty : Usages).rows) :=
  report_legal switchedPlan .empty backAndForth Table.apart_empty

/-! ## The peaks of a month -/

/-- What a month has under a plan: the usage, and the plan period that it is attached to. -/
abbrev Ledger := Slot → ℕ → Option (ℚ × ℕ)

/-- The table has one row for each entry of the ledger, and no other. -/
structure Represents (planOf : ℕ → ℕ) (t : Usages) (ledger : Ledger) : Prop where
  onePerPlan : OnePerPlan planOf t
  entry : ∀ row ∈ t.rows, ∃ p, row.planPeriod = some p ∧ ledger row.slot (planOf p) = some (row.usage, p)
  row : ∀ slot k u p, ledger slot k = some (u, p) →
    ∃ row ∈ t.rows, row.slot = slot ∧ row.planPeriod = some p ∧ planOf p = k ∧ row.usage = u

/-- A report of a plan period, on the ledger. -/
def Ledger.report (ledger : Ledger) (slot : Slot) (k p : ℕ) (usage : ℚ) : Ledger := fun slot' k' =>
  if slot' = slot ∧ k' = k then
    some (quantizeHalfEven 2 (((ledger slot k).map fun entry => max usage entry.1).getD usage), p)
  else ledger slot' k'

variable {ledger : Ledger} {p k : ℕ}

theorem Ledger.report_self {slot : Slot} {usage : ℚ} : ledger.report slot k p usage slot k =
    some (quantizeHalfEven 2 (((ledger slot k).map fun entry => max usage entry.1).getD usage), p) :=
  if_pos ⟨rfl, rfl⟩

theorem Ledger.report_ne {slot slot' : Slot} {k' : ℕ} {usage : ℚ} (h : ¬ (slot' = slot ∧ k' = k)) :
    ledger.report slot k p usage slot' k' = ledger slot' k' := if_neg h

/-- The row that is found is the one of the plan. -/
theorem Represents.entry_of_found (h : Represents planOf t ledger) (hp : rep.planPeriod = some p) (row : ComponentUsage)
    (hget : (getCurrentUsageRow planOf t rep.slot rep.planPeriod).1 = some row) :
    ∃ q, ledger rep.slot (planOf p) = some (row.usage, q) := by
  have hfound := found_getCurrentUsageRow planOf t rep.slot rep.planPeriod
  obtain ⟨hmem, hslot⟩ := hfound.mem row hget
  obtain ⟨q, hq, hentry⟩ := h.entry row (hfound.sub row hmem)
  rcases hfound.plan p hp row hget with hnone | hplan
  · rw [hq] at hnone
    exact nomatch hnone
  · unfold ComponentUsage.plan at hplan
    rw [hq, Option.map_some] at hplan
    rw [hslot, Option.some.inj hplan] at hentry
    exact ⟨q, hentry⟩

/-- Without a row found the plan has no entry. -/
theorem Represents.no_entry (h : Represents planOf t ledger) (hp : rep.planPeriod = some p)
    (hget : (getCurrentUsageRow planOf t rep.slot rep.planPeriod).1 = none) : ledger rep.slot (planOf p) = none := by
  have hfound := found_getCurrentUsageRow planOf t rep.slot rep.planPeriod
  cases hentry : ledger rep.slot (planOf p) with
  | none => rfl
  | some entry =>
    obtain ⟨row, hrow, hslot, hq, hplan, -⟩ := h.row rep.slot (planOf p) entry.1 entry.2 hentry
    have hnone : (getCurrentUsageRow planOf t rep.slot rep.planPeriod).1 ≠ some row := by
      rw [hget]
      exact nofun
    obtain ⟨p', hp', hne⟩ := hfound.plans p hp h.onePerPlan row (by rw [hfound.same hget]; exact hrow) hslot hnone
    rw [hq] at hp'
    obtain rfl := Option.some.inj hp'
    exact absurd hplan hne

theorem written_usage (h : Represents planOf t ledger) (hp : rep.planPeriod = some p) :
    ledger.report rep.slot (planOf p) p rep.usage rep.slot (planOf p) =
      some ((written planOf t rep).usage, p) := by
  rw [Ledger.report_self]
  refine congrArg some (Prod.ext ?_ rfl)
  cases hget : (getCurrentUsageRow planOf t rep.slot rep.planPeriod).1 with
  | none =>
    rw [h.no_entry hp hget]
    unfold written
    rw [← Prod.mk.eta (p := getCurrentUsageRow planOf t rep.slot rep.planPeriod), hget]
    rfl
  | some existing =>
    obtain ⟨q, hq⟩ := h.entry_of_found hp existing hget
    rw [hq]
    unfold written
    rw [← Prod.mk.eta (p := getCurrentUsageRow planOf t rep.slot rep.planPeriod), hget]
    rfl

/-- A row that stays is of another plan or of another month. -/
theorem Stays.ne (hrow : Stays planOf t rep row) (h : Represents planOf t ledger) (hp : rep.planPeriod = some p)
    {q : ℕ} (hq : row.planPeriod = some q) : ¬ (row.slot = rep.slot ∧ planOf q = planOf p) := by
  rintro ⟨hslot, hplan⟩
  have hfound := found_getCurrentUsageRow planOf t rep.slot rep.planPeriod
  obtain ⟨q', hq', hne⟩ := hfound.plans p hp h.onePerPlan row hrow.1 hslot hrow.2
  rw [hq] at hq'
  obtain rfl := Option.some.inj hq'
  exact hne hplan

/-- A row that is written over, or deleted, is of the plan and the month of the report. -/
theorem stays_of_ne (hp : rep.planPeriod = some p) (hrow : row ∈ t.rows) {q : ℕ} (hq : row.planPeriod = some q)
    (hne : ¬ (row.slot = rep.slot ∧ planOf q = planOf p)) : Stays planOf t rep row := by
  have hfound := found_getCurrentUsageRow planOf t rep.slot rep.planPeriod
  refine ⟨hfound.attributed p hp row hrow (by rw [hq]; exact nofun), fun hget => ?_⟩
  rcases hfound.plan p hp row hget with hnone | hplan
  · rw [hq] at hnone
    exact nomatch hnone
  · unfold ComponentUsage.plan at hplan
    rw [hq, Option.map_some] at hplan
    exact hne ⟨(hfound.mem row hget).2, Option.some.inj hplan⟩

/-- **One report refines one step of the ledger.** -/
theorem represents_report (h : Represents planOf t ledger) (hp : rep.planPeriod = some p) :
    Represents planOf (updateHighWatermarkUsage planOf t rep) (ledger.report rep.slot (planOf p) p rep.usage) := by
  refine ⟨onePerPlan_report h.onePerPlan, fun row hrow => ?_, fun slot k u q hentry => ?_⟩
  · rcases mem_report.mp hrow with rfl | hstays
    · refine ⟨p, written_planPeriod.trans hp, ?_⟩
      rw [written_slot]
      exact written_usage h hp
    · obtain ⟨q, hq, hentry⟩ := h.entry row hstays.mem
      exact ⟨q, hq, (Ledger.report_ne (hstays.ne h hp hq)).trans hentry⟩
  · by_cases heq : slot = rep.slot ∧ k = planOf p
    · obtain ⟨rfl, rfl⟩ := heq
      rw [written_usage h hp] at hentry
      obtain ⟨rfl, rfl⟩ := Prod.mk.inj (Option.some.inj hentry)
      exact ⟨_, mem_report.mpr (Or.inl rfl), written_slot, written_planPeriod.trans hp, rfl, rfl⟩
    · rw [Ledger.report_ne heq] at hentry
      obtain ⟨row, hrow, rfl, hq, rfl, hu⟩ := h.row slot k u q hentry
      exact ⟨row, mem_report.mpr (Or.inr (stays_of_ne hp hrow hq heq)), rfl, hq, rfl, hu⟩

/-- The reports of a plan in a month, in order. -/
def reportsOf (planOf : ℕ → ℕ) (reports : List Report) (slot : Slot) (k : ℕ) : List Report :=
  reports.filter fun rep => rep.slot = slot ∧ rep.planPeriod.map planOf = some k

/-- The greatest usage reported, as it is stored. -/
def peak (planOf : ℕ → ℕ) (reports : List Report) (slot : Slot) (k : ℕ) : Option ℚ :=
  ((reportsOf planOf reports slot k).map fun rep => quantizeHalfEven 2 rep.usage).max?

/-- The plan period of the last report. -/
def lastPeriod (planOf : ℕ → ℕ) (reports : List Report) (slot : Slot) (k : ℕ) : Option ℕ :=
  (reportsOf planOf reports slot k).getLast?.bind (·.planPeriod)

theorem max?_append_singleton (l : List ℚ) (u : ℚ) : (l ++ [u]).max? = some ((l.max?.map (max u)).getD u) := by
  rw [List.max?_eq_some_iff]
  cases h : l.max? with
  | none =>
    obtain rfl := List.max?_eq_none_iff.mp h
    simp
  | some m =>
    obtain ⟨hmem, hmax⟩ := List.max?_eq_some_iff.mp h
    rw [Option.map_some, Option.getD_some]
    constructor
    · rcases max_choice u m with heq | heq
      · rw [heq]
        exact List.mem_append_right _ List.mem_cons_self
      · rw [heq]
        exact List.mem_append_left _ hmem
    · intro b hb
      rcases List.mem_append.mp hb with hb | hb
      · exact (hmax b hb).trans (le_max_right u m)
      · rw [List.mem_singleton.mp hb]
        exact le_max_left u m

theorem quantizeHalfEven_max (n : ℕ) (x y : ℚ) :
    quantizeHalfEven n (max x y) = max (quantizeHalfEven n x) (quantizeHalfEven n y) :=
  Monotone.map_max fun _ _ h => quantizeHalfEven_mono h

theorem peak_quantized {u : ℚ} (h : peak planOf reports slot k = some u) : quantizeHalfEven 2 u = u := by
  obtain ⟨rep, -, rfl⟩ := List.mem_map.mp (List.max?_eq_some_iff.mp h).1
  exact quantizeHalfEven_quantizeHalfEven

theorem reportsOf_append_self (hp : rep.planPeriod = some p) :
    reportsOf planOf (reports ++ [rep]) rep.slot (planOf p) = reportsOf planOf reports rep.slot (planOf p) ++ [rep] := by
  unfold reportsOf
  rw [List.filter_append, List.filter_singleton, hp]
  simp

theorem reportsOf_append_ne (hp : rep.planPeriod = some p) (h : ¬ (slot = rep.slot ∧ k = planOf p)) :
    reportsOf planOf (reports ++ [rep]) slot k = reportsOf planOf reports slot k := by
  unfold reportsOf
  have hother : ¬ (rep.slot = slot ∧ (some p).map planOf = some k) := fun ⟨hslot, hplan⟩ =>
    h ⟨hslot.symm, (Option.some.inj hplan).symm⟩
  rw [List.filter_append, List.filter_singleton, hp, decide_eq_false hother, cond_false, List.append_nil]

theorem peak_append_self (hp : rep.planPeriod = some p) : peak planOf (reports ++ [rep]) rep.slot (planOf p) =
    some (((peak planOf reports rep.slot (planOf p)).map (max (quantizeHalfEven 2 rep.usage))).getD
      (quantizeHalfEven 2 rep.usage)) := by
  unfold peak
  rw [reportsOf_append_self hp, List.map_append, List.map_singleton, max?_append_singleton]

/-- The ledger of a list of reports. -/
def ledgerOf (planOf : ℕ → ℕ) (reports : List Report) : Ledger := fun slot k =>
  match peak planOf reports slot k, lastPeriod planOf reports slot k with
  | some u, some p => some (u, p)
  | _, _ => none

theorem ledgerOf_eq_some {u : ℚ} : ledgerOf planOf reports slot k = some (u, p) ↔
    peak planOf reports slot k = some u ∧ lastPeriod planOf reports slot k = some p := by
  unfold ledgerOf
  cases peak planOf reports slot k <;> cases lastPeriod planOf reports slot k <;> simp

theorem lastPeriod_append_self (hp : rep.planPeriod = some p) :
    lastPeriod planOf (reports ++ [rep]) rep.slot (planOf p) = some p := by
  unfold lastPeriod
  rw [reportsOf_append_self hp, List.getLast?_concat, Option.bind_some, hp]

/-- Where there is a peak there is a last report. -/
theorem lastPeriod_isSome {u : ℚ} (hall : ∀ rep ∈ reports, rep.planPeriod ≠ none)
    (h : peak planOf reports slot k = some u) : ∃ p, lastPeriod planOf reports slot k = some p := by
  have hne : reportsOf planOf reports slot k ≠ [] := fun hnil => by
    unfold peak at h
    rw [hnil] at h
    exact nomatch h
  unfold lastPeriod
  rw [List.getLast?_eq_some_getLast hne, Option.bind_some]
  exact Option.ne_none_iff_exists'.mp (hall _ (List.mem_of_mem_filter (List.getLast_mem hne)))

theorem ledgerOf_fst (hall : ∀ rep ∈ reports, rep.planPeriod ≠ none) :
    (ledgerOf planOf reports slot k).map Prod.fst = peak planOf reports slot k := by
  cases hpeak : peak planOf reports slot k with
  | none =>
    unfold ledgerOf
    rw [hpeak]
    rfl
  | some u =>
    obtain ⟨p, hp⟩ := lastPeriod_isSome hall hpeak
    rw [ledgerOf_eq_some.mpr ⟨hpeak, hp⟩]
    rfl

/-- A report is one step of the ledger of the reports. -/
theorem ledgerOf_append (hall : ∀ rep ∈ reports, rep.planPeriod ≠ none) (hp : rep.planPeriod = some p) :
    ledgerOf planOf (reports ++ [rep]) = (ledgerOf planOf reports).report rep.slot (planOf p) p rep.usage := by
  funext slot k
  by_cases heq : slot = rep.slot ∧ k = planOf p
  · obtain ⟨rfl, rfl⟩ := heq
    rw [Ledger.report_self, ledgerOf_eq_some]
    refine ⟨?_, lastPeriod_append_self hp⟩
    have hfst : (ledgerOf planOf reports rep.slot (planOf p)).map Prod.fst = peak planOf reports rep.slot (planOf p) :=
      ledgerOf_fst hall
    have hmap : ((ledgerOf planOf reports rep.slot (planOf p)).map fun entry => max rep.usage entry.1) =
        (peak planOf reports rep.slot (planOf p)).map (max rep.usage) := by
      rw [← hfst, Option.map_map]
      rfl
    rw [hmap]
    rw [peak_append_self hp]
    cases hpeak : peak planOf reports rep.slot (planOf p) with
    | none => rfl
    | some u =>
      rw [Option.map_some, Option.map_some, Option.getD_some, Option.getD_some, quantizeHalfEven_max,
        peak_quantized hpeak]
  · rw [Ledger.report_ne heq]
    unfold ledgerOf peak lastPeriod
    rw [reportsOf_append_ne hp heq]

theorem represents_empty : Represents planOf (.empty) (ledgerOf planOf []) :=
  ⟨Table.apart_empty, fun _ hrow => absurd hrow List.not_mem_nil, fun _ _ _ _ h => nomatch h⟩

theorem represents_ledgerOf : ∀ reports : List Report, (∀ rep ∈ reports, rep.planPeriod ≠ none) →
    Represents planOf (report planOf .empty reports) (ledgerOf planOf reports) := by
  intro reports
  induction reports using List.reverseRecOn with
  | nil => exact fun _ => represents_empty
  | append_singleton reports rep ih =>
    intro hall
    have hreports : ∀ rep ∈ reports, rep.planPeriod ≠ none := fun rep hrep => hall rep (List.mem_append_left _ hrep)
    obtain ⟨p, hp⟩ := Option.ne_none_iff_exists'.mp (hall rep (List.mem_append_right _ List.mem_cons_self))
    rw [report_append_singleton, ledgerOf_append hreports hp]
    exact represents_report (ih hreports) hp

/-- **The rows are the peaks**: where every report has a plan period, a month has a row of a plan exactly if the plan
was reported in it; the row holds the greatest usage and hangs on the period of the last report. -/
theorem usage_rows_iff (planOf : ℕ → ℕ) (reports : List Report) (h : ∀ rep ∈ reports, rep.planPeriod ≠ none) :
    OnePerPlan planOf (report planOf .empty reports) ∧ ∀ slot k u p,
      (∃ row ∈ (report planOf .empty reports).rows,
          row.slot = slot ∧ row.planPeriod = some p ∧ planOf p = k ∧ row.usage = u) ↔
        peak planOf reports slot k = some u ∧ lastPeriod planOf reports slot k = some p := by
  have hrep : Represents planOf _ _ := represents_ledgerOf reports h
  refine ⟨hrep.onePerPlan, fun slot k u p => ?_⟩
  rw [← ledgerOf_eq_some]
  refine ⟨?_, hrep.row slot k u p⟩
  rintro ⟨row, hrow, rfl, hq, rfl, rfl⟩
  obtain ⟨q, hq', hentry⟩ := hrep.entry row hrow
  rw [hq] at hq'
  obtain rfl := Option.some.inj hq'
  exact hentry

theorem backAndForth_attributed : ∀ rep ∈ backAndForth, rep.planPeriod ≠ none := by
  unfold backAndForth
  simp

theorem usage_rows_backAndForth : OnePerPlan switchedPlan (report switchedPlan .empty backAndForth) ∧ ∀ slot k u p,
    (∃ row ∈ (report switchedPlan .empty backAndForth).rows,
        row.slot = slot ∧ row.planPeriod = some p ∧ switchedPlan p = k ∧ row.usage = u) ↔
      peak switchedPlan backAndForth slot k = some u ∧ lastPeriod switchedPlan backAndForth slot k = some p :=
  usage_rows_iff switchedPlan backAndForth backAndForth_attributed

end Waldur.Marketplace.UsageReports
