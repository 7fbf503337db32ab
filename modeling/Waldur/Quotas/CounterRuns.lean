import Mathlib
import Waldur.Lib.Runs
import Waldur.Lib.Table
import Waldur.Quotas.Aggregation
import Waldur.Quotas.SetUsage

/-!
# Quotas.CounterRuns — a counted quota over whole runs

The handlers of a counter record an instance when it is created and when it is deleted, with the scope and the size that
it has then; a resize and a move record nothing, and a recalculation sets what it finds.  What is recorded is what there
is, less a debt: growth that was not recorded adds to it, and a recalculation pays no more than the amount there is
(`rawUsage_run`).  So the nightly recalculations show the amount again only after as many nights as it fits into the
debt (`usage_iff`).
-/

namespace Waldur.Quotas.Counters

open Relational Runs

/-! ## The code -/

section Code

variable {S : Type} [DecidableEq S]

/-- A `CounterQuotaField` or a `TotalQuotaField`. -/
structure Counter (S : Type) where
  name : String
  creationCondition : Option (S → Bool) := none

/-- `is_connected_to_scope`. -/
def Counter.isConnectedToScope (field : Counter S) (scope : S) : Bool :=
  match field.creationCondition with
  | none => true
  | some condition => condition scope

/-- An instance of a target model: its scope is at the end of `path_to_scope`, its size is what `get_delta` gives. -/
structure Target (S : Type) where
  id : ℕ
  scope : S
  size : ℕ

abbrev Targets (S : Type) := Table ℕ (Target S) Target.id

/-- `get_current_usage`. -/
def amount (targets : Targets S) (scope : S) : ℤ :=
  targets.sumWhere (fun target => decide (target.scope = scope)) fun target => (target.size : ℤ)

/-- The rows of the targets and of the quotas. -/
structure State (S : Type) where
  targets : Targets S
  db : Db S

/-- What happens to the targets, and a recalculation of a scope. -/
inductive Op (S : Type)
  | create (id : ℕ) (scope : S) (size : ℕ)
  | resize (id : ℕ) (size : ℕ)
  | move (id : ℕ) (scope : S)
  | delete (id : ℕ)
  | recalculate (scope : S)

variable (g : ScopeGraph S) (field : Counter S)

/-- `add_usage`. -/
def addUsage (db : Db S) (target : Target S) (delta : ℤ) : Option (Db S) :=
  if field.isConnectedToScope target.scope then addQuotaUsage g db target.scope field.name (delta * target.size)
  else some db

/-- `recalculate`. -/
def recalculate (state : State S) (scope : S) : Option (Db S) :=
  if field.isConnectedToScope scope then setQuotaUsage g state.db scope field.name (amount state.targets scope)
  else some state.db

/-- The targets after an operation; one that finds no target, or one with its id, does nothing. -/
def nextTargets (targets : Targets S) : Op S → Targets S
  | .create id scope size => if h : targets.get? id = none then targets.insert ⟨id, scope, size⟩ h else targets
  | .resize id size => targets.update id (fun target => { target with size := size }) fun _ => rfl
  | .move id scope => targets.update id (fun target => { target with scope := scope }) fun _ => rfl
  | .delete id => targets.filter fun target => decide (target.id ≠ id)
  | .recalculate _ => targets

/-- What the handlers of `count_quota_handler_factory` and the recalculation record. -/
def record (state : State S) : Op S → Option (Db S)
  | .create id scope size =>
    if (state.targets.get? id).isNone then addUsage g field state.db ⟨id, scope, size⟩ 1 else some state.db
  | .resize _ _ => some state.db
  | .move _ _ => some state.db
  | .delete id => (state.targets.get? id).elim (some state.db) fun target => addUsage g field state.db target (-1)
  | .recalculate scope => recalculate g field state scope

/-- An operation whose handlers raise is undone. -/
def step (state : State S) (op : Op S) : State S :=
  match record g field state op with
  | none => state
  | some db => ⟨nextTargets state.targets op, db⟩

end Code

/-! ## The debt -/

section Debt

variable {S : Type} [DecidableEq S]

/-- **The debt of a scope** after an operation: what its amount grew by without a record, less what a recalculation
pays, which is no more than the amount. -/
def nextDebt (scope : S) (targets : Targets S) (debt : ℤ) : Op S → ℤ
  | .create _ _ _ => debt
  | .resize id size => debt + (amount (nextTargets targets (.resize id size)) scope - amount targets scope)
  | .move id scope' => debt + (amount (nextTargets targets (.move id scope')) scope - amount targets scope)
  | .delete _ => debt
  | .recalculate scope' => if scope' = scope then max 0 (debt - amount targets scope) else debt

/-- The debt after a run. -/
def debtAfter (scope : S) : Targets S → ℤ → List (Op S) → ℤ
  | _, debt, [] => debt
  | targets, debt, op :: ops => debtAfter scope (nextTargets targets op) (nextDebt scope targets debt op) ops

variable {targets : Targets S} {scope : S} {debt : ℤ}

theorem amount_nonneg (targets : Targets S) (scope : S) : 0 ≤ amount targets scope := by
  refine List.sum_nonneg fun value hvalue => ?_
  obtain ⟨target, -, rfl⟩ := List.mem_map.mp hvalue
  exact Int.natCast_nonneg _

theorem amount_insert {target : Target S} (h : targets.get? target.id = none) :
    amount (targets.insert target h) scope =
      amount targets scope + if target.scope = scope then (target.size : ℤ) else 0 := by
  unfold amount
  rw [Table.sumWhere_insert]
  simp only [decide_eq_true_eq]

/-- A deletion takes the size that the target has. -/
theorem amount_delete {target : Target S} (h : targets.get? target.id = some target) :
    amount (nextTargets targets (.delete target.id)) scope =
      amount targets scope - if target.scope = scope then (target.size : ℤ) else 0 := by
  have hrest : amount (nextTargets targets (.delete target.id)) scope =
      targets.sumWhere (fun t => decide (t.scope = scope) && decide (t.id ≠ target.id)) fun t => (t.size : ℤ) := by
    unfold amount Table.sumWhere nextTargets Table.filter
    rw [List.filter_filter]
  rw [hrest]
  unfold amount
  split
  · next hscope =>
    rw [targets.sumWhere_eq_add h (fun t => decide (t.scope = scope)) (decide_eq_true hscope)]
    ring
  · next hscope =>
    have hsame : targets.rows.filter (fun t => decide (t.scope = scope) && decide (t.id ≠ target.id)) =
        targets.rows.filter fun t => decide (t.scope = scope) := by
      refine List.filter_congr fun t ht => ?_
      by_cases hid : t.id = target.id
      · have heq := targets.eq_of_key_eq ht (Table.get?_eq_some.mp h).1 hid
        subst heq
        rw [decide_eq_false hscope, Bool.false_and]
      · rw [decide_eq_true hid, Bool.and_true]
    unfold Table.sumWhere
    rw [hsame, sub_zero]

/-- The recalculations of one scope, one after the other. -/
theorem debtAfter_recalculations (targets : Targets S) (scope : S) : ∀ (n : ℕ) (debt : ℤ),
    debtAfter scope targets debt (List.replicate (n + 1) (.recalculate scope)) =
      max 0 (debt - (n + 1) * amount targets scope)
  | 0, debt => by
    simp only [List.replicate_succ, List.replicate_zero, debtAfter, nextDebt, if_true]
    ring_nf
  | n + 1, debt => by
    have hamount := amount_nonneg targets scope
    have hrest := debtAfter_recalculations targets scope n (max 0 (debt - amount targets scope))
    rw [List.replicate_succ, debtAfter, nextDebt, if_pos rfl]
    refine hrest.trans ?_
    have hnonneg : (0 : ℤ) ≤ (n + 1) * amount targets scope := mul_nonneg (by positivity) hamount
    push_cast
    rcases le_total (debt - amount targets scope) 0 with hle | hle
    · rw [max_eq_left hle, max_eq_left (by linarith), max_eq_left (by linarith)]
    · rw [max_eq_right hle]
      congr 1
      ring

end Debt

/-! ## Runs -/

section Runs

variable {S : Type} [DecidableEq S] {g : ScopeGraph S} {field : Counter S} {scope : S} {state : State S}

/-- A record of another scope is not one of this scope. -/
theorem rawUsage_add (hplain : g.IsPlain scope field.name) (db : Db S) (scope' : S) (delta : ℤ) :
    ∃ db', addQuotaUsage g db scope' field.name delta = some db' ∧
      db'.rawUsage scope field.name = db.rawUsage scope field.name + if scope' = scope then delta else 0 := by
  by_cases hscope : scope' = scope
  · subst hscope
    rw [if_pos rfl]
    exact rawUsage_addQuotaUsage delta
  · refine ⟨_, addQuotaUsage_eq, ?_⟩
    have hp : ∀ s name, (decide (s = scope) && name == field.name) = true → g.IsPlain s name := by
      intro s name h
      obtain ⟨hs, hname⟩ := Bool.and_eq_true_iff.mp h
      rw [of_decide_eq_true hs, eq_of_beq hname]
      exact hplain
    rw [Db.rawUsage_eq_total, Db.total_insertAll, ← Db.rawUsage_eq_total, if_neg hscope]
    unfold recorded
    split_ifs with hzero
    · rfl
    · rw [List.map_cons, List.sum_cons, sum_fed_plain hp]
      simp [hscope]

/-- What the handlers record for a target. -/
theorem addUsage_spec (hplain : g.IsPlain scope field.name) (hconnected : field.isConnectedToScope scope = true)
    (db : Db S) (target : Target S) (delta : ℤ) : ∃ db', addUsage g field db target delta = some db' ∧
      db'.rawUsage scope field.name =
        db.rawUsage scope field.name + if target.scope = scope then delta * target.size else 0 := by
  unfold addUsage
  split
  · exact rawUsage_add hplain db target.scope (delta * target.size)
  · next hother =>
    have hscope : target.scope ≠ scope := fun h => hother (h ▸ hconnected)
    rw [if_neg hscope, add_zero]
    exact ⟨db, rfl, rfl⟩

/-- What a recalculation records. -/
theorem recalculate_spec (hplain : g.IsPlain scope field.name) (hconnected : field.isConnectedToScope scope = true)
    (state : State S) (scope' : S) : ∃ db', recalculate g field state scope' = some db' ∧
      db'.rawUsage scope field.name = state.db.rawUsage scope field.name +
        if scope' = scope then amount state.targets scope - max 0 (state.db.rawUsage scope field.name) else 0 := by
  unfold recalculate
  by_cases hscope : scope' = scope
  · subst hscope
    rw [if_pos hconnected, if_pos rfl]
    exact rawUsage_setQuotaUsage
  · rw [if_neg hscope]
    split
    · have hadd := rawUsage_add hplain state.db scope'
        (amount state.targets scope' - state.db.readQuotaUsage scope' field.name false)
      rw [if_neg hscope] at hadd
      exact hadd
    · exact ⟨state.db, rfl, (add_zero _).symm⟩

/-- What an operation records. -/
theorem rawUsage_step (hplain : g.IsPlain scope field.name) (hconnected : field.isConnectedToScope scope = true)
    (state : State S) (op : Op S) {debt : ℤ}
    (h : state.db.rawUsage scope field.name = amount state.targets scope - debt) :
    (step g field state op).targets = nextTargets state.targets op ∧
      (step g field state op).db.rawUsage scope field.name =
        amount (nextTargets state.targets op) scope - nextDebt scope state.targets debt op := by
  have hsome {db : Db S} (hrecord : record g field state op = some db) :
      step g field state op = ⟨nextTargets state.targets op, db⟩ := by
    unfold step
    rw [hrecord]
  cases op with
  | create id scope' size =>
    cases hget : state.targets.get? id with
    | some target =>
      have hrecord : record g field state (.create id scope' size) = some state.db := by
        dsimp only [record]
        rw [hget]
        rfl
      have hsame : nextTargets state.targets (.create id scope' size) = state.targets :=
        dif_neg (by rw [hget]; exact Option.some_ne_none _)
      rw [hsome hrecord, hsame]
      exact ⟨rfl, h⟩
    | none =>
      obtain ⟨db, hadd, hraw⟩ := addUsage_spec hplain hconnected state.db ⟨id, scope', size⟩ 1
      have hrecord : record g field state (.create id scope' size) = some db := by
        dsimp only [record]
        rw [hget]
        exact hadd
      have hnew : nextTargets state.targets (.create id scope' size) =
          state.targets.insert ⟨id, scope', size⟩ hget := dif_pos hget
      rw [hsome hrecord, hnew, amount_insert]
      refine ⟨rfl, ?_⟩
      dsimp only [nextDebt]
      rw [hraw, h, one_mul]
      ring
  | resize id size =>
    rw [hsome rfl]
    refine ⟨rfl, ?_⟩
    dsimp only [nextDebt]
    rw [h]
    ring
  | move id scope' =>
    rw [hsome rfl]
    refine ⟨rfl, ?_⟩
    dsimp only [nextDebt]
    rw [h]
    ring
  | delete id =>
    cases hget : state.targets.get? id with
    | none =>
      have hrecord : record g field state (.delete id) = some state.db := by
        dsimp only [record]
        rw [hget]
        rfl
      have hsame : nextTargets state.targets (.delete id) = state.targets :=
        Table.ext (List.filter_eq_self.mpr fun target htarget =>
          decide_eq_true (Table.get?_eq_none.mp hget target htarget))
      rw [hsome hrecord, hsame]
      exact ⟨rfl, h⟩
    | some target =>
      obtain ⟨db, hadd, hraw⟩ := addUsage_spec hplain hconnected state.db target (-1)
      have hrecord : record g field state (.delete id) = some db := by
        dsimp only [record]
        rw [hget]
        exact hadd
      obtain ⟨-, rfl⟩ := Table.get?_eq_some.mp hget
      rw [hsome hrecord, amount_delete hget]
      refine ⟨rfl, ?_⟩
      dsimp only [nextDebt]
      rw [hraw, h]
      split <;> ring
  | recalculate scope' =>
    obtain ⟨db, hrecalculate, hraw⟩ := recalculate_spec hplain hconnected state scope'
    rw [hsome hrecalculate]
    refine ⟨rfl, ?_⟩
    dsimp only [nextDebt, nextTargets]
    rw [hraw, h]
    split
    · omega
    · ring

/-- **What is recorded is what there is, less the debt.** -/
theorem rawUsage_run (hplain : g.IsPlain scope field.name) (hconnected : field.isConnectedToScope scope = true) :
    ∀ (ops : List (Op S)) (state : State S) (debt : ℤ),
      state.db.rawUsage scope field.name = amount state.targets scope - debt →
        (run (step g field) state ops).targets = ops.foldl nextTargets state.targets ∧
          (run (step g field) state ops).db.rawUsage scope field.name =
            amount (ops.foldl nextTargets state.targets) scope - debtAfter scope state.targets debt ops
  | [], _, _, h => ⟨rfl, h⟩
  | op :: ops, state, debt, h => by
    obtain ⟨htargets, hraw⟩ := rawUsage_step hplain hconnected state op h
    have hrest := rawUsage_run hplain hconnected ops (step g field state op) (nextDebt scope state.targets debt op)
      (by rw [htargets]; exact hraw)
    rw [htargets] at hrest
    exact hrest

/-- **When the usage is right**: in every run, as long as there is no debt, or nothing to count and more was taken off
than added; and after recalculations in a row, if there is nothing to count or they pay the debt. -/
theorem usage_iff (g : ScopeGraph S) (field : Counter S) (scope : S) (state : State S)
    (hplain : g.IsPlain scope field.name) (hconnected : field.isConnectedToScope scope = true)
    (hstart : state.db.rawUsage scope field.name = amount state.targets scope) (ops : List (Op S)) (n : ℕ) :
    ((run (step g field) state ops).db.getQuotaUsage scope field.name =
        amount (run (step g field) state ops).targets scope ↔
      debtAfter scope state.targets 0 ops = 0 ∨
        amount (run (step g field) state ops).targets scope = 0 ∧ 0 ≤ debtAfter scope state.targets 0 ops) ∧
    ((run (step g field) (run (step g field) state ops) (List.replicate (n + 1) (.recalculate scope))).db.getQuotaUsage
        scope field.name = amount (run (step g field) state ops).targets scope ↔
      amount (run (step g field) state ops).targets scope = 0 ∨
        debtAfter scope state.targets 0 ops ≤ (n + 1) * amount (run (step g field) state ops).targets scope) := by
  obtain ⟨htargets, hraw⟩ := rawUsage_run hplain hconnected ops state 0 (by rw [hstart, sub_zero])
  rw [← htargets] at hraw
  obtain ⟨-, hraw'⟩ := rawUsage_run hplain hconnected (List.replicate (n + 1) (.recalculate scope)) _ _ hraw
  have hsame : ∀ (k : ℕ) (targets : Targets S),
      (List.replicate k (Op.recalculate scope)).foldl nextTargets targets = targets := by
    intro k targets
    induction k with
    | zero => rfl
    | succ k ih =>
      rw [List.replicate_succ, List.foldl_cons]
      exact ih
  rw [hsame, debtAfter_recalculations] at hraw'
  have hamount := amount_nonneg (run (step g field) state ops).targets scope
  have hpaid : (0 : ℤ) ≤ (n + 1) * amount (run (step g field) state ops).targets scope :=
    mul_nonneg (by positivity) hamount
  unfold Db.getQuotaUsage
  rw [hraw, hraw']
  generalize (n + 1) * amount (run (step g field) state ops).targets scope = paid at hpaid ⊢
  constructor
  · omega
  · omega

end Runs

/-- The cores of the instances of one scope. -/
def cores : Counter Unit := { name := "cpu" }

def empty : State Unit := ⟨Table.empty, { alive := fun _ => true, limits := fun _ _ => none }⟩

/-- An instance of two cores that grows to five and is deleted, and one of two cores. -/
def grown : List (Op Unit) := [.create 1 () 2, .resize 1 5, .delete 1, .create 2 () 2]

theorem cores_plain : oneScope.IsPlain () cores.name := ⟨{ name := "cpu" }, rfl, rfl⟩

/-- The usage is wrong after one recalculation and right after two. -/
theorem usage_grown :
    (run (step oneScope cores) (run (step oneScope cores) empty grown) [.recalculate ()]).db.getQuotaUsage () "cpu" ≠
        amount (run (step oneScope cores) empty grown).targets () ∧
      (run (step oneScope cores) (run (step oneScope cores) empty grown)
        [.recalculate (), .recalculate ()]).db.getQuotaUsage () "cpu" =
          amount (run (step oneScope cores) empty grown).targets () :=
  ⟨(usage_iff oneScope cores () empty cores_plain rfl rfl grown 0).2.not.mpr (by decide),
    (usage_iff oneScope cores () empty cores_plain rfl rfl grown 1).2.mpr (by decide)⟩

end Waldur.Quotas.Counters
