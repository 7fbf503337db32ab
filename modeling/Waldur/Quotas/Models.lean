import Mathlib

/-!
# Quotas.Models — usages of quotas, and the quotas that aggregate them

A usage of a quota is the sum of the deltas in its rows.  Rows are only inserted, and removed with their scope; a signal
handler inserts a row for every quota of an ancestor that aggregates the quota of a row, and rows with the delta taken
back before a row is removed.
-/

namespace Waldur.Quotas

/-! ## Fields and scopes -/

/-- What a quota field does: a `UsageAggregatorQuotaField` has the name of the child quota, if it is another one. -/
inductive QuotaKind
  | plain
  | usageAggregator (childQuotaName : Option String)
deriving DecidableEq

structure QuotaField where
  name : String
  kind : QuotaKind := .plain
  defaultLimit : ℤ := -1
deriving DecidableEq

namespace QuotaField

def isAggregator (f : QuotaField) : Bool :=
  match f.kind with
  | .plain => false
  | .usageAggregator _ => true

/-- `get_child_quota_name`. -/
def getChildQuotaName (f : QuotaField) : String :=
  match f.kind with
  | .plain => f.name
  | .usageAggregator child => child.getD f.name

end QuotaField

/-- The quota fields of a class, one for each name. -/
structure QuotaFields where
  fields : List QuotaField
  names_nodup : (fields.map (·.name)).Nodup

/-- The scopes of a deployment: the classes that are `DescendantMixin`, the parents, and the quota fields of the classes
that are `QuotaModelMixin`. -/
structure ScopeGraph (S : Type) where
  isDescendant : S → Bool
  parents : S → List S
  quotas : S → Option QuotaFields

namespace ScopeGraph

variable {S : Type} (g : ScopeGraph S)

/-- `get_quotas_fields`. -/
def quotaFields (s : S) : List QuotaField := ((g.quotas s).map QuotaFields.fields).getD []

/-- `get_field` of a row. -/
def getField (s : S) (name : String) : Option QuotaField := (g.quotaFields s).find? fun f => f.name == name

/-- A parent of a scope. -/
def IsParent (s p : S) : Prop := g.isDescendant s = true ∧ p ∈ g.parents s

end ScopeGraph

/-! ## Ancestors -/

section Ancestors

variable {S : Type} [DecidableEq S] (g : ScopeGraph S)

def maxDepth : ℕ := 10

/-- The parents that are not among the ancestors yet. -/
def appendNew (ancestors parents : List S) : List S :=
  parents.foldl (fun acc p => if p ∈ acc then acc else acc ++ [p]) ancestors

/-- `get_ancestors` with the depth that is left; a parent that is gone ends the climb. -/
def getAncestors (alive : S → Bool) : ℕ → S → List S
  | 0, _ => []
  | n + 1, s =>
    if (g.parents s).all alive then
      ((g.parents s).filter g.isDescendant).foldl (fun acc a => appendNew acc (getAncestors alive n a)) (g.parents s)
    else []

/-- The ancestors that `handle_aggregated_quotas` looks at, each once. -/
def quotaAncestors (alive : S → Bool) (s : S) : List S :=
  if g.isDescendant s then ((getAncestors g alive maxDepth s).filter fun a => (g.quotas a).isSome).dedup else []

/-- `aggregator_quotas` of a row: the ancestors with their fields that aggregate it. -/
def aggregatorQuotas (alive : S → Bool) (s : S) (name : String) : List (S × QuotaField) :=
  if alive s then
    match g.getField s name with
    | none => []
    | some f =>
      if f.isAggregator then []
      else (quotaAncestors g alive s).flatMap fun a =>
        ((g.quotaFields a).filter fun f' => f'.isAggregator && f'.getChildQuotaName == name).map fun f' => (a, f')
  else []

end Ancestors

/-! ## Usages and limits -/

structure QuotaUsage (S : Type) where
  id : ℕ
  scope : S
  name : String
  delta : ℤ

/-- The rows of the scopes, of which a soft deletion only marks one as removed, the limits and the usages. -/
structure Db (S : Type) where
  alive : S → Bool
  removed : S → Bool := fun _ => false
  limits : S → String → Option ℤ
  usages : List (QuotaUsage S) := []
  nextId : ℕ := 0

namespace Db

variable {S : Type} [DecidableEq S] (db : Db S)

/-- The row of a delta. -/
def insertRow (s : S) (name : String) (delta : ℤ) : Db S :=
  { db with usages := db.usages ++ [⟨db.nextId, s, name, delta⟩], nextId := db.nextId + 1 }

/-- The sum of the deltas of a quota. -/
def rawUsage (s : S) (name : String) : ℤ :=
  ((db.usages.filter fun u => decide (u.scope = s) && u.name == name).map (·.delta)).sum

/-- `get_quota_usage`. -/
def getQuotaUsage (s : S) (name : String) : ℤ := max 0 (db.rawUsage s name)

/-- A scope that is not deleted in any way. -/
def exist (s : S) : Bool := db.alive s && !db.removed s

end Db

section Signals

variable {S : Type} [DecidableEq S] (g : ScopeGraph S)

/-- `QuotaUsage.objects.create` with its `post_save` handler, which creates rows in its turn; `none` where handlers nest
deeper than the given depth. -/
def create : ℕ → Db S → S → String → ℤ → Option (Db S)
  | 0, _, _, _, _ => none
  | n + 1, db, s, name, delta =>
    (aggregatorQuotas g db.alive s name).foldlM
      (fun db t => if delta = 0 then some db else create n db t.1 t.2.name delta) (db.insertRow s name delta)

/-- The depth of the interpreter's stack. -/
def recursionLimit : ℕ := 1000

/-- `add_quota_usage` without validation. -/
def addQuotaUsage (db : Db S) (s : S) (name : String) (delta : ℤ) : Option (Db S) :=
  if delta = 0 then some db else create g recursionLimit db s name delta

/-- The `pre_delete` handler of a row.  The scope is read from the database again, so it carries no `_deleting` mark. -/
def takeBack (db : Db S) (u : QuotaUsage S) : Option (Db S) :=
  (aggregatorQuotas g db.alive u.scope u.name).foldlM (fun db t => addQuotaUsage g db t.1 t.2.name (-u.delta)) db

/-- `delete_quotas_when_model_is_deleted`: the limits, and the rows that are found. -/
def deleteQuotas (db : Db S) (s : S) : Option (Db S) :=
  if (g.quotas s).isSome then
    let db := { db with limits := fun s' name => if s' = s then none else db.limits s' name }
    let found := db.usages.filter fun u => decide (u.scope = s)
    (found.foldlM (takeBack g) db).map fun db =>
      { db with usages := db.usages.filter fun u => !(found.map (·.id)).contains u.id }
  else some db

/-- Scopes are deleted: the `pre_delete` handlers of all of them, then the scopes. -/
def deleteScopes (db : Db S) (doomed : List S) : Option (Db S) :=
  (doomed.foldlM (deleteQuotas g) db).map fun db => { db with alive := fun s => db.alive s && !doomed.contains s }

/-- `_soft_delete`: the `pre_delete` handler, and the mark. -/
def softDelete (db : Db S) (s : S) : Option (Db S) :=
  (deleteQuotas g db s).map fun db => { db with removed := fun s' => decide (s' = s) || db.removed s' }

end Signals

/-! ## What the handlers record -/

section Fields

variable {S : Type} {g : ScopeGraph S} {s a : S} {name : String} {f : QuotaField}

theorem getField_eq_some_iff : g.getField s name = some f ↔ f ∈ g.quotaFields s ∧ f.name = name := by
  unfold ScopeGraph.getField ScopeGraph.quotaFields
  cases g.quotas s with
  | none => simp
  | some q =>
    simp only [Option.map_some, Option.getD_some]
    constructor
    · intro h
      have hname := List.find?_some h
      exact ⟨List.mem_of_find?_eq_some h, beq_iff_eq.mp hname⟩
    · rintro ⟨hmem, rfl⟩
      obtain ⟨f', hf'⟩ : ∃ f', q.fields.find? (fun f' => f'.name == f.name) = some f' := by
        rw [← Option.isSome_iff_exists, List.find?_isSome]
        exact ⟨f, hmem, beq_self_eq_true _⟩
      have hname := List.find?_some hf'
      have hsame : f' = f :=
        List.inj_on_of_nodup_map q.names_nodup (List.mem_of_find?_eq_some hf') hmem (beq_iff_eq.mp hname)
      rw [hf', hsame]

theorem quotaFields_nodup : ((g.quotaFields s).map (·.name)).Nodup := by
  unfold ScopeGraph.quotaFields
  cases g.quotas s with
  | none => exact List.nodup_nil
  | some q => exact q.names_nodup

theorem isSome_of_mem_quotaFields (hf : f ∈ g.quotaFields a) : (g.quotas a).isSome = true := by
  unfold ScopeGraph.quotaFields at hf
  cases hquotas : g.quotas a with
  | none => simp [hquotas] at hf
  | some q => rfl

end Fields

section Rows

variable {S : Type} {db : Db S}

/-- Rows one after another: scope, name and delta. -/
def Db.insertAll (db : Db S) (entries : List (S × String × ℤ)) : Db S :=
  entries.foldl (fun db e => db.insertRow e.1 e.2.1 e.2.2) db

@[simp] theorem Db.insertAll_nil (db : Db S) : db.insertAll [] = db := rfl

@[simp] theorem Db.insertAll_cons (db : Db S) (e : S × String × ℤ) (l : List (S × String × ℤ)) :
    db.insertAll (e :: l) = (db.insertRow e.1 e.2.1 e.2.2).insertAll l := rfl

theorem Db.insertAll_append (db : Db S) (l l' : List (S × String × ℤ)) :
    db.insertAll (l ++ l') = (db.insertAll l).insertAll l' := List.foldl_append

@[simp] theorem Db.alive_insertAll (db : Db S) (l : List (S × String × ℤ)) : (db.insertAll l).alive = db.alive := by
  induction l generalizing db with
  | nil => rfl
  | cons e l ih => exact ih (db.insertRow e.1 e.2.1 e.2.2)

@[simp] theorem Db.removed_insertAll (db : Db S) (l : List (S × String × ℤ)) :
    (db.insertAll l).removed = db.removed := by
  induction l generalizing db with
  | nil => rfl
  | cons e l ih => exact ih (db.insertRow e.1 e.2.1 e.2.2)

@[simp] theorem Db.limits_insertAll (db : Db S) (l : List (S × String × ℤ)) : (db.insertAll l).limits = db.limits := by
  induction l generalizing db with
  | nil => rfl
  | cons e l ih => exact ih (db.insertRow e.1 e.2.1 e.2.2)

/-- Handlers that each insert a row of one delta. -/
theorem foldlM_insertRow {delta : ℤ} {l : List (S × QuotaField)} {step : Db S → S × QuotaField → Option (Db S)}
    (h : ∀ db' : Db S, db'.alive = db.alive → ∀ t ∈ l, step db' t = some (db'.insertRow t.1 t.2.name delta)) :
    l.foldlM step db = some (db.insertAll (l.map fun t => (t.1, t.2.name, delta))) := by
  induction l generalizing db with
  | nil => rfl
  | cons t l ih =>
    rw [List.foldlM_cons, h db rfl t List.mem_cons_self]
    exact ih fun db' halive t' ht' => h db' halive t' (List.mem_cons_of_mem _ ht')

/-- Handlers that do nothing. -/
theorem foldlM_skip {l : List (S × QuotaField)} {step : Db S → S × QuotaField → Option (Db S)}
    (h : ∀ t ∈ l, step db t = some db) : l.foldlM step db = some db := by
  induction l with
  | nil => rfl
  | cons t l ih =>
    rw [List.foldlM_cons, h t List.mem_cons_self]
    exact ih fun t' ht' => h t' (List.mem_cons_of_mem _ ht')

end Rows

section Records

variable {S : Type} [DecidableEq S] {g : ScopeGraph S} {alive : S → Bool} {db : Db S} {s a : S} {name : String}
  {f : QuotaField} {delta : ℤ}

/-- What the handler of a row records: its delta on every quota that aggregates it. -/
def fed (g : ScopeGraph S) (alive : S → Bool) (s : S) (name : String) (delta : ℤ) : List (S × String × ℤ) :=
  if delta = 0 then [] else (aggregatorQuotas g alive s name).map fun t => (t.1, t.2.name, delta)

/-- What `add_quota_usage` records. -/
def recorded (g : ScopeGraph S) (alive : S → Bool) (s : S) (name : String) (delta : ℤ) : List (S × String × ℤ) :=
  if delta = 0 then [] else (s, name, delta) :: fed g alive s name delta

theorem mem_aggregatorQuotas {t : S × QuotaField} : t ∈ aggregatorQuotas g alive s name ↔
    alive s = true ∧ (∃ f, g.getField s name = some f ∧ f.isAggregator = false) ∧ t.1 ∈ quotaAncestors g alive s ∧
      t.2 ∈ g.quotaFields t.1 ∧ t.2.isAggregator = true ∧ t.2.getChildQuotaName = name := by
  obtain ⟨a, f'⟩ := t
  unfold aggregatorQuotas
  by_cases halive : alive s = true
  · rw [if_pos halive]
    cases hfield : g.getField s name with
    | none => simp
    | some f => cases hagg : f.isAggregator <;> simp [halive, hagg]
  · rw [if_neg halive]
    simp [halive]

/-- A quota that aggregates is not aggregated further. -/
theorem aggregatorQuotas_of_aggregator (hf : f ∈ g.quotaFields a) (hagg : f.isAggregator = true) :
    aggregatorQuotas g alive a f.name = [] := by
  rw [List.eq_nil_iff_forall_not_mem]
  intro t ht
  obtain ⟨-, ⟨f', hfield, hplain⟩, -⟩ := mem_aggregatorQuotas.mp ht
  rw [getField_eq_some_iff.mpr ⟨hf, rfl⟩] at hfield
  rw [← Option.some_inj.mp hfield, hagg] at hplain
  cases hplain

theorem fed_of_aggregator (hf : f ∈ g.quotaFields a) (hagg : f.isAggregator = true) :
    fed g alive a f.name delta = [] := by
  unfold fed
  rw [aggregatorQuotas_of_aggregator hf hagg]
  split_ifs <;> rfl

/-- **Handlers nest two deep**: a row on a plain quota, and rows on the quotas that aggregate it. -/
theorem create_eq (n : ℕ) : create g (n + 2) db s name delta =
    some (db.insertAll ((s, name, delta) :: fed g db.alive s name delta)) := by
  have hleaf : ∀ db' : Db S, db'.alive = db.alive → ∀ t ∈ aggregatorQuotas g db.alive s name,
      create g (n + 1) db' t.1 t.2.name delta = some (db'.insertRow t.1 t.2.name delta) := by
    intro db' halive t ht
    obtain ⟨-, -, -, hf, hagg, -⟩ := mem_aggregatorQuotas.mp ht
    rw [create, halive, aggregatorQuotas_of_aggregator hf hagg]
    rfl
  rw [create]
  unfold fed
  by_cases hzero : delta = 0
  · rw [if_pos hzero]
    exact foldlM_skip fun t _ => if_pos hzero
  · rw [if_neg hzero]
    have hrun := @foldlM_insertRow S (db.insertRow s name delta) delta (aggregatorQuotas g db.alive s name)
      (fun db t => if delta = 0 then some db else create g (n + 1) db t.1 t.2.name delta) fun db' halive t ht => by
        rw [if_neg hzero]
        exact hleaf db' halive t ht
    exact hrun

theorem addQuotaUsage_eq : addQuotaUsage g db s name delta = some (db.insertAll (recorded g db.alive s name delta)) := by
  unfold addQuotaUsage recorded
  split_ifs with hzero
  · rfl
  · exact create_eq 998

theorem takeBack_eq (u : QuotaUsage S) :
    takeBack g db u = some (db.insertAll (fed g db.alive u.scope u.name (-u.delta))) := by
  have hleaf : ∀ db' : Db S, db'.alive = db.alive → ∀ t ∈ aggregatorQuotas g db.alive u.scope u.name,
      addQuotaUsage g db' t.1 t.2.name (-u.delta) =
        some (if -u.delta = 0 then db' else db'.insertRow t.1 t.2.name (-u.delta)) := by
    intro db' halive t ht
    obtain ⟨-, -, -, hf, hagg, -⟩ := mem_aggregatorQuotas.mp ht
    rw [addQuotaUsage_eq]
    unfold recorded
    rw [halive, fed_of_aggregator hf hagg]
    split_ifs <;> rfl
  unfold takeBack fed
  by_cases hzero : -u.delta = 0
  · rw [if_pos hzero]
    refine foldlM_skip fun t ht => ?_
    rw [hleaf db rfl t ht, if_pos hzero]
  · rw [if_neg hzero]
    refine foldlM_insertRow fun db' halive t ht => ?_
    rw [hleaf db' halive t ht, if_neg hzero]

end Records

/-! ## Sums of deltas -/

section Sums

variable {S : Type}

/-- The sum of the deltas of the rows that are counted. -/
def Db.total (db : Db S) (p : S → String → Bool) : ℤ :=
  ((db.usages.filter fun u => p u.scope u.name).map (·.delta)).sum

theorem Db.total_insertRow (db : Db S) (p : S → String → Bool) (s : S) (name : String) (delta : ℤ) :
    (db.insertRow s name delta).total p = db.total p + if p s name then delta else 0 := by
  unfold Db.total Db.insertRow
  rw [List.filter_append, List.map_append, List.sum_append]
  cases h : p s name <;> simp [h]

theorem Db.total_insertAll (db : Db S) (p : S → String → Bool) (l : List (S × String × ℤ)) :
    (db.insertAll l).total p = db.total p + (l.map fun e => if p e.1 e.2.1 then e.2.2 else 0).sum := by
  induction l generalizing db with
  | nil => simp
  | cons e l ih =>
    rw [Db.insertAll_cons, ih, Db.total_insertRow, List.map_cons, List.sum_cons]
    ring

end Sums

section Fed

variable {S : Type} [DecidableEq S] {g : ScopeGraph S} {alive : S → Bool} {s a : S} {name : String} {f : QuotaField}
  {delta : ℤ}

theorem Db.rawUsage_eq_total (db : Db S) (s : S) (name : String) :
    db.rawUsage s name = db.total fun s' name' => decide (s' = s) && name' == name := rfl

/-- What a handler adds to a sum: the delta for each counted quota among the ones it feeds. -/
theorem sum_fed (p : S → String → Bool) :
    ((fed g alive s name delta).map fun e => if p e.1 e.2.1 then e.2.2 else 0).sum =
      delta * ((aggregatorQuotas g alive s name).countP fun t => p t.1 t.2.name) := by
  unfold fed
  split_ifs with hzero
  · rw [hzero]
    simp
  · rw [List.map_map]
    induction aggregatorQuotas g alive s name with
    | nil => simp
    | cons t l ih =>
      rw [List.map_cons, List.sum_cons, ih, List.countP_cons]
      cases h : p t.1 t.2.name
      · simp [h]
      · simp only [Function.comp_apply, h, if_true]
        push_cast
        ring

theorem aggregatorQuotas_nodup : (aggregatorQuotas g alive s name).Nodup := by
  have hancestors : (quotaAncestors g alive s).Nodup := by
    unfold quotaAncestors
    split_ifs
    · exact List.nodup_dedup _
    · exact List.nodup_nil
  have hfields : ∀ a, (g.quotaFields a).Nodup := fun a => List.Nodup.of_map _ quotaFields_nodup
  unfold aggregatorQuotas
  split_ifs
  · cases g.getField s name with
    | none => exact List.nodup_nil
    | some f =>
      show (if f.isAggregator then [] else _ : List (S × QuotaField)).Nodup
      split_ifs
      · exact List.nodup_nil
      · rw [List.nodup_flatMap]
        refine ⟨fun a _ => ((hfields a).filter _).map fun f f' h => (Prod.mk.inj h).2, ?_⟩
        refine hancestors.imp fun hne => ?_
        intro t ht ht'
        obtain ⟨f, -, rfl⟩ := List.mem_map.mp ht
        obtain ⟨f', -, h⟩ := List.mem_map.mp ht'
        exact hne (Prod.mk.inj h).1.symm
  · exact List.nodup_nil

/-- A quota is fed once at most. -/
theorem countP_aggregatorQuotas (hf : f ∈ g.quotaFields a) : (aggregatorQuotas g alive s name).countP
    (fun t => decide (t.1 = a) && t.2.name == f.name) = if (a, f) ∈ aggregatorQuotas g alive s name then 1 else 0 := by
  have hkey : (aggregatorQuotas g alive s name).countP (fun t => decide (t.1 = a) && t.2.name == f.name) =
      (aggregatorQuotas g alive s name).count (a, f) := by
    rw [List.count]
    refine List.countP_congr fun t ht => ?_
    obtain ⟨-, -, -, hft, -⟩ := mem_aggregatorQuotas.mp ht
    obtain ⟨a', f'⟩ := t
    simp only [Bool.and_eq_true, decide_eq_true_eq, beq_iff_eq, Prod.mk.injEq]
    constructor
    · rintro ⟨rfl, hname⟩
      exact ⟨rfl, List.inj_on_of_nodup_map quotaFields_nodup hft hf hname⟩
    · rintro ⟨rfl, rfl⟩
      exact ⟨rfl, rfl⟩
  rw [hkey]
  split_ifs with hmem
  · exact List.count_eq_one_of_mem aggregatorQuotas_nodup hmem
  · exact List.count_eq_zero.mpr hmem

end Fed

end Waldur.Quotas
