import Mathlib
import Waldur.Quotas.Models

/-!
# Quotas.SetUsage — setting the usage of a quota, and recalculating it

`set_quota_usage` inserts the difference to the current usage.  It asks for the current usage with
`sanitize=False`, and `get_quota_usage` answers with 0 for a negative sum all the same; the recalculations of
`quotas/fields.py` end in `set_quota_usage`.
-/

namespace Waldur.Quotas

section Set

variable {S : Type} [DecidableEq S] (g : ScopeGraph S) (db : Db S) (s : S)

/-- `get_quota_usage`, with its argument `sanitize`. -/
def Db.readQuotaUsage (name : String) (sanitize : Bool) : ℤ :=
  let total := db.rawUsage s name
  if sanitize ∧ total < 0 then 0 else max 0 total

/-- `set_quota_usage`. -/
def setQuotaUsage (name : String) (usage : ℤ) : Option (Db S) :=
  let current := db.readQuotaUsage s name false
  addQuotaUsage g db s name (usage - current)

/-! ## Recalculations -/

/-- A `CounterQuotaField`: the counts of its target models for a scope, or the `get_current_usage` it was given or
overrides. -/
structure CounterQuotaField (S : Type) where
  name : String
  targetCounts : List (S → ℕ)
  rawGetCurrentUsage : Option (S → ℕ) := none

/-- `CounterQuotaField.get_current_usage`. -/
def CounterQuotaField.getCurrentUsage (f : CounterQuotaField S) (s : S) : ℕ :=
  match f.rawGetCurrentUsage with
  | some currentUsage => currentUsage s
  | none => (f.targetCounts.map fun count => count s).sum

/-- `CounterQuotaField.recalculate_usage`. -/
def CounterQuotaField.recalculateUsage (f : CounterQuotaField S) : Option (Db S) :=
  setQuotaUsage g db s f.name (f.getCurrentUsage s)

/-- The `current_usage` of a `UsageAggregatorQuotaField` over the children of a scope. -/
def QuotaField.childrenUsage (f : QuotaField) (children : List S) : ℤ :=
  (children.map fun child => db.getQuotaUsage child f.getChildQuotaName).sum

/-- `UsageAggregatorQuotaField.recalculate_usage`. -/
def QuotaField.recalculateUsage (f : QuotaField) (children : List S) : Option (Db S) :=
  setQuotaUsage g db s f.name (f.childrenUsage db children)

end Set

/-! ## What a set leaves -/

section Sets

variable {S : Type} [DecidableEq S] {g : ScopeGraph S} {db : Db S} {s : S} {name : String} {usage : ℤ}

/-- The argument makes no difference. -/
theorem readQuotaUsage_eq (sanitize : Bool) : db.readQuotaUsage s name sanitize = db.getQuotaUsage s name := by
  unfold Db.readQuotaUsage Db.getQuotaUsage
  dsimp only
  split_ifs with h
  · exact (max_eq_left h.2.le).symm
  · rfl

/-- What a row of a quota feeds is another quota. -/
theorem sum_fed_self (delta : ℤ) : ((fed g db.alive s name delta).map fun e =>
    if (decide (e.1 = s) && e.2.1 == name) = true then e.2.2 else 0).sum = 0 := by
  refine List.sum_eq_zero fun value hvalue => ?_
  obtain ⟨e, he, rfl⟩ := List.mem_map.mp hvalue
  refine if_neg fun hself => ?_
  obtain ⟨hscope, hname⟩ := Bool.and_eq_true_iff.mp hself
  unfold fed at he
  split at he
  · cases he
  · obtain ⟨t, ht, rfl⟩ := List.mem_map.mp he
    obtain ⟨-, ⟨f, hfield, hplain⟩, -, hmem, hagg, -⟩ := mem_aggregatorQuotas.mp ht
    -- the quota itself is plain, and the fed ones aggregate
    have hfield' : g.getField s name = some t.2 :=
      getField_eq_some_iff.mpr ⟨of_decide_eq_true hscope ▸ hmem, eq_of_beq hname⟩
    rw [Option.some.inj (hfield.symm.trans hfield'), hagg] at hplain
    cases hplain

theorem rawUsage_addQuotaUsage (delta : ℤ) : ∃ db', addQuotaUsage g db s name delta = some db' ∧
    db'.rawUsage s name = db.rawUsage s name + delta := by
  refine ⟨_, addQuotaUsage_eq, ?_⟩
  rw [Db.rawUsage_eq_total, Db.total_insertAll, ← Db.rawUsage_eq_total]
  unfold recorded
  split_ifs with hzero
  · simp [hzero]
  · rw [List.map_cons, List.sum_cons, sum_fed_self]
    simp

/-- **A set adds the difference to the sanitized usage**, whatever the sum is. -/
theorem rawUsage_setQuotaUsage : ∃ db', setQuotaUsage g db s name usage = some db' ∧
    db'.rawUsage s name = db.rawUsage s name + (usage - max 0 (db.rawUsage s name)) := by
  unfold setQuotaUsage
  rw [readQuotaUsage_eq]
  exact rawUsage_addQuotaUsage _

/-- The quota reads as it was set. -/
def IsSet (result : Option (Db S)) (s : S) (name : String) (usage : ℤ) : Prop :=
  ∃ db', result = some db' ∧ db'.getQuotaUsage s name = usage

theorem isSet_iff_of_nonneg (husage : 0 ≤ usage) :
    IsSet (setQuotaUsage g db s name usage) s name usage ↔ 0 ≤ db.rawUsage s name ∨ usage = 0 := by
  obtain ⟨db', hset, hraw⟩ := @rawUsage_setQuotaUsage S _ g db s name usage
  unfold IsSet Db.getQuotaUsage
  rw [hset]
  constructor
  · rintro ⟨_, hdb, hread⟩
    rw [← Option.some.inj hdb, hraw] at hread
    omega
  · intro h
    refine ⟨db', rfl, ?_⟩
    rw [hraw]
    omega

theorem usage_nonneg_of_mem (f : QuotaField) (children : List S) :
    ∀ value ∈ children.map fun child => db.getQuotaUsage child f.getChildQuotaName, 0 ≤ value := by
  intro value hvalue
  obtain ⟨child, -, rfl⟩ := List.mem_map.mp hvalue
  exact le_max_left _ _

theorem childrenUsage_nonneg (f : QuotaField) (children : List S) : 0 ≤ f.childrenUsage db children :=
  List.sum_nonneg (usage_nonneg_of_mem f children)

theorem childrenUsage_eq_zero (f : QuotaField) (children : List S) :
    f.childrenUsage db children = 0 ↔ ∀ child ∈ children, db.getQuotaUsage child f.getChildQuotaName = 0 := by
  unfold QuotaField.childrenUsage
  constructor
  · intro hsum child hchild
    exact List.all_zero_of_le_zero_le_of_sum_eq_zero (usage_nonneg_of_mem f children) hsum
      (List.mem_map_of_mem hchild)
  · intro hzero
    refine List.sum_eq_zero fun value hvalue => ?_
    obtain ⟨child, hchild, rfl⟩ := List.mem_map.mp hvalue
    exact hzero child hchild

/-- **When a set sets**: if the deltas of the quota do not sum to less than zero, or nothing is set.  So for the
recalculations, of what they have counted. -/
theorem isSet_iff (g : ScopeGraph S) (db : Db S) (s : S) (name : String) (usage : ℕ) (counter : CounterQuotaField S)
    (aggregator : QuotaField) (children : List S) :
    (IsSet (setQuotaUsage g db s name usage) s name usage ↔ 0 ≤ db.rawUsage s name ∨ usage = 0) ∧
      (IsSet (counter.recalculateUsage g db s) s counter.name (counter.getCurrentUsage s) ↔
        0 ≤ db.rawUsage s counter.name ∨ counter.getCurrentUsage s = 0) ∧
      (IsSet (aggregator.recalculateUsage g db s children) s aggregator.name (aggregator.childrenUsage db children) ↔
        0 ≤ db.rawUsage s aggregator.name ∨
          ∀ child ∈ children, db.getQuotaUsage child aggregator.getChildQuotaName = 0) := by
  refine ⟨?_, ?_, ?_⟩
  · rw [isSet_iff_of_nonneg (Int.natCast_nonneg usage), Int.natCast_eq_zero]
  · unfold CounterQuotaField.recalculateUsage
    rw [isSet_iff_of_nonneg (Int.natCast_nonneg _), Int.natCast_eq_zero]
  · unfold QuotaField.recalculateUsage
    rw [isSet_iff_of_nonneg (childrenUsage_nonneg aggregator children), childrenUsage_eq_zero]

end Sets

/-- A quota whose deltas sum to -5. -/
def overdrawn : Db Unit := { alive := fun _ => true, limits := fun _ _ => none, usages := [⟨0, (), "cpu", -5⟩], nextId := 1 }

theorem oneField : (([{ name := "cpu" }] : List QuotaField).map (·.name)).Nodup := by decide

def oneScope : ScopeGraph Unit where
  isDescendant _ := false
  parents _ := []
  quotas _ := some ⟨[{ name := "cpu" }], oneField⟩

/-- 3 are set, and 0 are read. -/
theorem overdrawn_not_set : ¬ IsSet (setQuotaUsage oneScope overdrawn () "cpu" 3) () "cpu" 3 := by
  rw [isSet_iff_of_nonneg (by decide)]
  decide

end Waldur.Quotas
