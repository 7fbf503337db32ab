import Mathlib
import Waldur.Lib.Runs
import Waldur.Lib.Table

/-!
# Marketplace.PosixIds — POSIX id pools and the numbers they hand out

`marketplace/posix_ids.py` over the tables of pools, identities and project groups.  A pool reserves up to
three ranges; the values of the GID range and of the group range are recorded in one column.  A database
holds its constraints as a field, so every write goes through `Db.store`, which raises `IntegrityError`.
-/

namespace Waldur.PosixIds

open Relational

/-- `NAMESPACES`: the columns of `PosixIdentity`. -/
inductive Namespace
  | uid
  | gid
deriving DecidableEq, Repr

/-- `RANGES`. -/
inductive RangeName
  | uid
  | gid
  | groupGid
deriving DecidableEq, Repr

def RangeName.all : List RangeName := [.uid, .gid, .groupGid]

def Namespace.all : List Namespace := [.uid, .gid]

theorem RangeName.mem_all (r : RangeName) : r ∈ RangeName.all := by cases r <;> simp [RangeName.all]

theorem Namespace.mem_all (c : Namespace) : c ∈ Namespace.all := by cases c <;> simp [Namespace.all]

/-- `column`. -/
def RangeName.column : RangeName → Namespace
  | .uid => .uid
  | .gid | .groupGid => .gid

/-- The range that has the name of the namespace. -/
def Namespace.range : Namespace → RangeName
  | .uid => .uid
  | .gid => .gid

@[simp] theorem column_range (c : Namespace) : c.range.column = c := by cases c <;> rfl

/-- `range_label`. -/
def RangeName.label : RangeName → String
  | .uid => "UID"
  | .gid => "GID"
  | .groupGid => "project group"

structure ServiceProvider where
  id : ℕ
  customer : ℕ
deriving DecidableEq, Repr

/-- An offering with the plugin options that `pool_sourced_namespaces` reads. -/
structure Offering where
  id : ℕ
  customer : ℕ
  enablePosixAccount : Bool := true
  uidSourcePool : Bool := true
  gidSourcePool : Bool := true
deriving DecidableEq, Repr

/-! ## Pools -/

/-- `MIN_ID`. -/
def minId : ℤ := 1000

/-- `MAX_ID`. -/
def maxId : ℤ := 2 ^ 32 - 2

/-- The columns `min_*`, `max_*` and `next_*` of a range. -/
structure IdRange where
  min : Option ℤ := none
  max : Option ℤ := none
  next : Option ℤ := none
deriving DecidableEq, Repr

/-- The value lies within the bounds. -/
def IdRange.holds (r : IdRange) (value : ℤ) : Bool :=
  r.min.any (· ≤ value) && r.max.any (value ≤ ·)

/-- The filter over `min_*` and `max_*` of another range. -/
def IdRange.overlaps (r other : IdRange) : Bool :=
  other.min.any (fun min => r.max.any (min ≤ ·)) && other.max.any (fun max => r.min.any (· ≤ max))

structure Pool where
  id : ℕ
  serviceProvider : Option ServiceProvider := none
  offering : Option Offering := none
  uid : IdRange := {}
  gid : IdRange := {}
  groupGid : IdRange := {}
deriving DecidableEq, Repr

namespace Pool

/-- `getattr(pool, f"min_{range_name}")` and the like. -/
def range (p : Pool) : RangeName → IdRange
  | .uid => p.uid
  | .gid => p.gid
  | .groupGid => p.groupGid

/-- `setattr(pool, f"next_{range_name}", next)`. -/
def setNext (p : Pool) (next : ℤ) : RangeName → Pool
  | .uid => { p with uid := { p.uid with next := some next } }
  | .gid => { p with gid := { p.gid with next := some next } }
  | .groupGid => { p with groupGid := { p.groupGid with next := some next } }

def manages (p : Pool) (r : RangeName) : Bool := (p.range r).min.isSome

/-- `pool.customer`. -/
def customer (p : Pool) : Option ℕ :=
  match p.serviceProvider with
  | some serviceProvider => some serviceProvider.customer
  | none => p.offering.map (·.customer)

/-- `pool.scope`. -/
def scope (p : Pool) : String := if p.serviceProvider.isSome then "service_provider" else "offering"

/-- Some range of the column holds the value. -/
def holds (p : Pool) (c : Namespace) (value : ℤ) : Bool :=
  RangeName.all.any fun r => r.column == c && (p.range r).holds value

end Pool

/-! ## Identities -/

/-- The models behind a consumer. -/
inductive ContentType
  | offeringUser
  | serviceProviderAccount
  | robotAccount
  | offeringUserGroup
  | offeringRoleGroup
  | serviceProviderProjectGroup
deriving DecidableEq, Repr

/-- A consumer; `user` is read of an account only. -/
structure Consumer where
  contentType : ContentType
  id : ℕ
  user : ℕ := 0
deriving DecidableEq, Repr

/-- `isinstance(consumer, models.BaseAccount)`. -/
def Consumer.isAccount (c : Consumer) : Bool :=
  c.contentType == .offeringUser || c.contentType == .serviceProviderAccount

/-- The columns that say whose an identity is. -/
inductive Principal
  | user (id : ℕ)
  | consumer (contentType : ContentType) (id : ℕ)
deriving DecidableEq, Repr

/-- `principal_filter`. -/
def Consumer.principal (c : Consumer) : Principal :=
  if c.isAccount then .user c.user else .consumer c.contentType c.id

/-- `PosixIdentity`; `released` is `released_at` being set. -/
structure Identity where
  id : ℕ
  pool : ℕ
  principal : Principal
  uid : Option ℤ := none
  gid : Option ℤ := none
  released : Bool := false
  recyclable : Bool := true
deriving DecidableEq, Repr

namespace Identity

def value (i : Identity) : Namespace → Option ℤ
  | .uid => i.uid
  | .gid => i.gid

def setValue (i : Identity) (value : ℤ) : Namespace → Identity
  | .uid => { i with uid := some value }
  | .gid => { i with gid := some value }

end Identity

structure ProjectGroup where
  id : ℕ
  serviceProvider : ServiceProvider
  gid : Option ℤ := none
deriving DecidableEq, Repr

/-! ## The database and its constraints -/

/-- The check constraints of a range: all or nothing, and its bounds. -/
def IdRange.Checked (r : IdRange) : Prop :=
  match r.min, r.max, r.next with
  | none, none, none => True
  | some min, some max, some next => minId ≤ min ∧ min ≤ max ∧ max ≤ maxId ∧ min ≤ next ∧ next ≤ max + 1
  | _, _, _ => False

instance (r : IdRange) : Decidable r.Checked := by
  unfold IdRange.Checked
  split <;> infer_instance

/-- The check constraints of a pool. -/
def Pool.Checked (p : Pool) : Prop :=
  p.serviceProvider.isSome ≠ p.offering.isSome ∧ (p.manages .uid = true ∨ p.manages .gid = true) ∧
    ∀ r ∈ RangeName.all, (p.range r).Checked

instance (p : Pool) : Decidable p.Checked := by
  unfold Pool.Checked
  infer_instance

abbrev Pools := Table ℕ Pool Pool.id

abbrev Identities := Table ℕ Identity Identity.id

/-- `OneToOneField`: no two pools have one value. -/
def OneToOne {α : Type} (pools : Pools) (scope : Pool → Option α) : Prop :=
  ∀ p ∈ pools.rows, ∀ q ∈ pools.rows, (scope p).isSome = true → scope p = scope q → p.id = q.id

instance {α : Type} [DecidableEq α] (pools : Pools) (scope : Pool → Option α) : Decidable (OneToOne pools scope) := by
  unfold OneToOne
  infer_instance

/-- `UniqueConstraint`s of a pool's active rows: one holder of each number, one identity of each principal. -/
def Identity.Compatible (i j : Identity) : Prop :=
  i.released = false ∧ j.released = false ∧ i.pool = j.pool ∧
    (i.principal = j.principal ∨ ∃ c ∈ Namespace.all, (i.value c).isSome = true ∧ i.value c = j.value c) → i.id = j.id

instance (i j : Identity) : Decidable (i.Compatible j) := by
  unfold Identity.Compatible
  infer_instance

/-- The constraints of the two tables. -/
structure Constraints (pools : Pools) (identities : Identities) : Prop where
  checked : ∀ p ∈ pools.rows, p.Checked
  serviceProvider : OneToOne pools fun p => p.serviceProvider.map (·.id)
  offering : OneToOne pools fun p => p.offering.map (·.id)
  pool : ∀ i ∈ identities.rows, (pools.get? i.pool).isSome = true
  active : ∀ i ∈ identities.rows, ∀ j ∈ identities.rows, i.Compatible j

instance (pools : Pools) (identities : Identities) : Decidable (Constraints pools identities) :=
  decidable_of_iff ((∀ p ∈ pools.rows, p.Checked) ∧ OneToOne pools (fun p => p.serviceProvider.map (·.id)) ∧
      OneToOne pools (fun p => p.offering.map (·.id)) ∧ (∀ i ∈ identities.rows, (pools.get? i.pool).isSome = true) ∧
      ∀ i ∈ identities.rows, ∀ j ∈ identities.rows, i.Compatible j)
    ⟨fun ⟨checked, serviceProvider, offering, pool, active⟩ => ⟨checked, serviceProvider, offering, pool, active⟩,
      fun h => ⟨h.checked, h.serviceProvider, h.offering, h.pool, h.active⟩⟩

structure Db where
  pools : Pools
  identities : Identities
  groups : Table ℕ ProjectGroup ProjectGroup.id
  constraints : Constraints pools identities

/-! ## Errors -/

/-- `ValidationError`, with the values of its message. -/
inductive ValidationError
  | exactlyOneScope
  | setBothMinAndMax (range : RangeName)
  | bounds (range : RangeName)
  | nextOutside (range : RangeName) (next min max : ℤ)
  | noNamespace
  | groupRangeOfOffering
  | groupRangeOverlapsGid (min max gmin gmax : ℤ)
  | rangeOverlaps (range other : RangeName) (min max cmin cmax : ℤ) (scope : String)
  | containsAllocated (range : RangeName) (min max : ℤ)
  | noPool
  | notManaged (namespace_ : Namespace)
  | outsideRange (value : ℤ) (namespace_ : Namespace) (min max : ℤ)
  | noGidRange
  | outsideGroupRange (value : ℤ) (range : RangeName) (min max : ℤ)
  | insideOtherPool (value : ℤ) (range : RangeName) (scope : String)
deriving DecidableEq, Repr

def ValidationError.message : ValidationError → String
  | .exactlyOneScope => "Exactly one of service_provider or offering must be set."
  | .setBothMinAndMax r => s!"Set both min and max for the {r.label} namespace, or neither."
  | .bounds r => s!"{r.label} bounds must satisfy {minId} <= min <= max <= {maxId}."
  | .nextOutside r next min max => s!"{r.label} next pointer {next} is outside [{min}, {max}+1]."
  | .noNamespace => "At least one of the UID or GID ranges must be defined."
  | .groupRangeOfOffering =>
    "Only a service provider's pool may have a project group range: " ++
      "project groups belong to the whole provider."
  | .groupRangeOverlapsGid min max gmin gmax =>
    s!"Group GID range [{min}-{max}] overlaps the pool's GID range [{gmin}-{gmax}]."
  | .rangeOverlaps r other min max cmin cmax scope =>
    s!"{r.label} range [{min}-{max}] overlaps the {other.label} range [{cmin}-{cmax}] of another pool " ++
      s!"({scope}) of the same service provider."
  | .containsAllocated r min max =>
    s!"The {r.label} range [{min}-{max}] contains values another pool of the service provider has allocated"
  | .noPool => "No POSIX ID pool is configured for this offering."
  | .notManaged c => s!"The offering's POSIX ID pool does not manage {c.range.label} values."
  | .outsideRange value c min max => s!"{value} is outside the pool's {c.range.label} range [{min}-{max}]."
  | .noGidRange => "The service provider has no POSIX ID pool with a GID range."
  | .outsideGroupRange value r min max =>
    s!"{value} is outside the pool's {r.label} range [{min}-{max}]. " ++
      "Set allow_outside_range to use it anyway."
  | .insideOtherPool value r scope =>
    s!"{value} is inside the {r.label} range of another pool ({scope}) of the service provider."

inductive PosixError
  | validation (error : ValidationError)
  | exhausted (range : RangeName)
  | valueConflict
  | integrityError
  | doesNotExist
deriving DecidableEq, Repr

/-- Writes to the tables; the constraints decide. -/
def Db.store (db : Db) (pools : Pools) (identities : Identities) : Except PosixError Db :=
  if h : Constraints pools identities then .ok { db with pools := pools, identities := identities, constraints := h }
  else .error .integrityError

/-- `save`: the row is inserted, or rewritten where there is one with its key. -/
def saveIdentity (identities : Identities) (identity : Identity) : Identities :=
  if h : identities.get? identity.id = none then identities.insert identity h
  else identities.update identity.id (fun row => { identity with id := row.id }) (fun _ => rfl)

/-- A primary key that is not in use. -/
def freshId (identities : Identities) : ℕ := (identities.rows.map (·.id)).foldr max 0 + 1

/-! ## `validate_pool` -/

/-- `_provider_pools`. -/
def providerPools (db : Db) (customer : ℕ) : List Pool :=
  db.pools.rows.filter fun p => p.serviceProvider.any (·.customer == customer) || p.offering.any (·.customer == customer)

/-- `_provider_pools(pool.customer.id).exclude(pk=pool.pk)`. -/
def siblings (db : Db) (pool : Pool) : List Pool :=
  (pool.customer.map fun customer => (providerPools db customer).filter fun p => p.id != pool.id).getD []

/-- The bounds of one range. -/
def checkBounds (pool : Pool) (r : RangeName) : Except ValidationError Unit :=
  match (pool.range r).min, (pool.range r).max with
  | none, none => .ok ()
  | some min, some max =>
    if ¬ (minId ≤ min ∧ min ≤ max ∧ max ≤ maxId) then .error (.bounds r)
    else
      match (pool.range r).next with
      | some next => if ¬ (min ≤ next ∧ next ≤ max + 1) then .error (.nextOutside r next min max) else .ok ()
      | none => .ok ()
  | _, _ => .error (.setBothMinAndMax r)

/-- The ranges a pool manages. -/
def Pool.managed (p : Pool) : List RangeName := RangeName.all.filter p.manages

/-- One range against the ranges of the siblings that are recorded in the same column. -/
def checkOverlap (db : Db) (pool : Pool) (r other : RangeName) : Except ValidationError Unit :=
  if other.column ≠ r.column then .ok ()
  else
    match (siblings db pool).find? fun q => (pool.range r).overlaps (q.range other) with
    | some conflict => .error (.rangeOverlaps r other ((pool.range r).min.getD 0) ((pool.range r).max.getD 0)
        ((conflict.range other).min.getD 0) ((conflict.range other).max.getD 0) conflict.scope)
    | none => .ok ()

/-- `_check_foreign_identities`, of one range. -/
def checkForeignIdentities (db : Db) (pool : Pool) (r : RangeName) : Except ValidationError Unit :=
  if db.identities.rows.any fun i => (siblings db pool).any (fun q => i.pool == q.id) && !i.released &&
      (i.value r.column).any (pool.range r).holds then
    .error (.containsAllocated r ((pool.range r).min.getD 0) ((pool.range r).max.getD 0))
  else .ok ()

/-- `if fails: raise`. -/
def raiseIf (fails : Prop) [Decidable fails] (error : ValidationError) : Except ValidationError Unit :=
  if fails then .error error else .ok ()

def validatePool (db : Db) (pool : Pool) : Except ValidationError Unit := do
  raiseIf (pool.serviceProvider.isSome = pool.offering.isSome) .exactlyOneScope
  RangeName.all.forM (checkBounds pool)
  raiseIf ((Namespace.all.any fun c => pool.manages c.range) = false) .noNamespace
  raiseIf (pool.manages .groupGid = true ∧ pool.offering.isSome = true) .groupRangeOfOffering
  raiseIf (pool.manages .gid = true ∧ pool.manages .groupGid = true ∧ pool.gid.overlaps pool.groupGid = true)
    (.groupRangeOverlapsGid (pool.groupGid.min.getD 0) (pool.groupGid.max.getD 0) (pool.gid.min.getD 0)
      (pool.gid.max.getD 0))
  pool.managed.forM fun r => RangeName.all.forM fun other => checkOverlap db pool r other
  pool.managed.forM fun r => checkForeignIdentities db pool r

/-! ## Handing out numbers -/

/-- `PosixIdPool.resolve`. -/
def resolve (db : Db) (offering : Offering) : Option Pool :=
  (db.pools.rows.find? fun p => p.offering.any (·.id == offering.id)).orElse fun _ =>
    db.pools.rows.find? fun p => p.serviceProvider.any (·.customer == offering.customer)

/-- `_active_identity`. -/
def activeIdentity (db : Db) (pool : ℕ) (principal : Principal) : Option Identity :=
  db.identities.rows.find? fun i => i.pool == pool && !i.released && i.principal == principal

/-- `_get_or_create_active_identity`; a new one is not saved yet. -/
def getOrCreateActiveIdentity (db : Db) (pool : ℕ) (principal : Principal) : Identity :=
  (activeIdentity db pool principal).getD { id := freshId db.identities, pool := pool, principal := principal }

/-- `while value in taken: value += 1`; one turn for each value taken is enough (`countUp_not_mem`). -/
def countUp (taken : List ℤ) : ℕ → ℤ → ℤ
  | 0, value => value
  | turns + 1, value => if value ∈ taken then countUp taken turns (value + 1) else value

/-- The values of the column in the identities of the pool that a query selects. -/
def columnValues (db : Db) (pool : ℕ) (c : Namespace) (p : Identity → Bool) : List ℤ :=
  (db.identities.rows.filter fun i => i.pool == pool && p i).filterMap (·.value c)

/-- The active numbers of a column, and the released ones that are withheld or may be recycled. -/
def activeValues (db : Db) (pool : ℕ) (c : Namespace) : List ℤ := columnValues db pool c fun i => !i.released

def withheldValues (db : Db) (pool : ℕ) (c : Namespace) : List ℤ :=
  columnValues db pool c fun i => i.released && !i.recyclable

def recyclableValues (db : Db) (pool : ℕ) (c : Namespace) : List ℤ :=
  columnValues db pool c fun i => i.released && i.recyclable

/-- 1) the lowest released value in bounds that nobody holds and that is not withheld. -/
def recycledValue (db : Db) (pool : Pool) (r : RangeName) : Option ℤ :=
  ((recyclableValues db pool.id r.column).filter fun v => (pool.range r).holds v &&
    !(activeValues db pool.id r.column).contains v && !(withheldValues db pool.id r.column).contains v).min?

/-- The values at or above the mark that counting steps over. -/
def takenValues (db : Db) (pool : ℕ) (c : Namespace) (start max : ℤ) : List ℤ :=
  (activeValues db pool c ++ withheldValues db pool c).filter fun v => decide (start ≤ v) && decide (v ≤ max)

/-- 2) the first value from the mark on that is not taken. -/
def countedValue (db : Db) (pool : Pool) (r : RangeName) : Option ℤ :=
  match (pool.range r).next, (pool.range r).max with
  | some start, some max =>
    let taken := takenValues db pool.id r.column start max
    let value := countUp taken taken.length start
    if max < value then none else some value
  | _, _ => none

/-- `_candidate_value`: the value, and whether it comes from the counter. -/
def candidateValue (db : Db) (pool : Pool) (r : RangeName) (recycle : Bool) : Option ℤ × Bool :=
  match if recycle then recycledValue db pool r else none with
  | some value => (some value, false)
  | none => (countedValue db pool r, (countedValue db pool r).isSome)

/-- `_next_value`: the value and the pools with the counter advanced. -/
def nextValue (db : Db) (pool : Pool) (r : RangeName) (recycle : Bool) : Option ℤ × Pools :=
  match candidateValue db pool r recycle with
  | (some value, true) => (some value, db.pools.update pool.id (fun p => p.setNext (value + 1) r)
      (fun p => by cases r <;> rfl))
  | (value, _) => (value, db.pools)

/-- `_allocate_in_pool`. -/
def allocateInPool (db : Db) (pool : Pool) (r : RangeName) (consumer : Consumer) (recycle : Bool) :
    Except PosixError (Db × ℤ) :=
  let c := r.column
  let identity := getOrCreateActiveIdentity db pool.id consumer.principal
  match identity.value c with
  | some value => .ok (db, value)
  | none =>
    match nextValue db pool r recycle with
    | (none, _) => .error (.exhausted r)
    | (some value, pools) => do
      let db ← db.store pools (saveIdentity db.identities (identity.setValue value c))
      return (db, value)

/-- `pool_sourced_namespaces`. -/
def poolSourcedNamespaces (offering : Offering) : List Namespace :=
  if !offering.enablePosixAccount then []
  else Namespace.all.filter fun
    | .uid => offering.uidSourcePool
    | .gid => offering.gidSourcePool

def allocate (db : Db) (offering : Offering) (c : Namespace) (consumer : Consumer) :
    Except PosixError (Db × Option ℤ) :=
  if consumer.isAccount && !(poolSourcedNamespaces offering).contains c then .ok (db, none)
  else
    match resolve db offering with
    | none => .ok (db, none)
    | some pool =>
      if !pool.manages c.range then .ok (db, none)
      else (allocateInPool db pool c.range consumer true).map fun (db, value) => (db, some value)

/-- `set_value`. -/
def setValue (db : Db) (consumer : Consumer) (c : Namespace) (value : ℤ) (offering : Offering) :
    Except PosixError Db :=
  match resolve db offering with
  | none => .error (.validation .noPool)
  | some pool =>
    if !pool.manages c.range then .error (.validation (.notManaged c))
    else if !(pool.range c.range).holds value then
      .error (.validation (.outsideRange value c ((pool.range c.range).min.getD 0) ((pool.range c.range).max.getD 0)))
    else
      let identity := getOrCreateActiveIdentity db pool.id consumer.principal
      if identity.value c = some value then .ok db
      else
        match db.store db.pools (saveIdentity db.identities (identity.setValue value c)) with
        | .ok db => .ok db
        | .error _ => .error .valueConflict

/-! ## Project groups -/

/-- `provider_pool`. -/
def providerPool (db : Db) (serviceProvider : ServiceProvider) : Option Pool :=
  db.pools.rows.find? fun p => p.serviceProvider == some serviceProvider

/-- `group_range`. -/
def groupRange (pool : Pool) : Option RangeName :=
  [RangeName.groupGid, RangeName.gid].find? pool.manages

def ProjectGroup.consumer (group : ProjectGroup) : Consumer where
  contentType := .serviceProviderProjectGroup
  id := group.id

/-- `group.save(update_fields=["gid", ...])`. -/
def Db.setGroupGid (db : Db) (group : ℕ) (gid : ℤ) : Db :=
  { db with groups := db.groups.update group (fun g => { g with gid := some gid }) (fun _ => rfl) }

/-- `allocate_project_group_gid`. -/
def allocateProjectGroupGid (db : Db) (group : ProjectGroup) : Except PosixError (Db × Option ℤ) :=
  match providerPool db group.serviceProvider with
  | none => .ok (db, none)
  | some pool =>
    match groupRange pool with
    | none => .ok (db, none)
    | some r => (allocateInPool db pool r group.consumer false).map fun (db, value) => (db, some value)

/-- `project_groups.allocate_gid`: the caller records the GID on a group that has none. -/
def allocateGid (db : Db) (group : ProjectGroup) : Except PosixError Db :=
  if group.gid.isSome then .ok db
  else
    match allocateProjectGroupGid db group with
    | .error e => .error e
    | .ok (db, none) => .ok db
    | .ok (db, some gid) => .ok (db.setGroupGid group.id gid)

/-- A new row of the group, withheld where the GID is one it held before. -/
def ProjectGroup.identity (group : ProjectGroup) (id pool : ℕ) (gid : Option ℤ) (withheld : Bool) : Identity where
  id := id
  pool := pool
  principal := group.consumer.principal
  gid := gid
  released := withheld
  recyclable := !withheld

/-- The previous GID of the group leaves the ledger as withheld, or enters it so. -/
def withholdPrevious (identities : Identities) (pool : ℕ) (group : ProjectGroup) (identity : Option Identity)
    (previous : Option ℤ) : Identities × Option Identity :=
  match identity.filter (·.gid.isSome), previous with
  | some held, _ => (saveIdentity identities { held with released := true, recyclable := false }, none)
  | none, some gid => (saveIdentity identities (group.identity (freshId identities) pool (some gid) true), identity)
  | none, none => (identities, identity)

/-- `identity.gid = value; identity.save()`, on a new row where there is none. -/
def savePinned (identities : Identities) (pool : ℕ) (group : ProjectGroup) (identity : Option Identity) (value : ℤ) :
    Identities :=
  saveIdentity identities
    { identity.getD (group.identity (freshId identities) pool none false) with gid := some value }

/-- `set_project_group_gid`. -/
def setProjectGroupGid (db : Db) (group : ProjectGroup) (value : ℤ) (allowOutsideRange : Bool) :
    Except PosixError Db :=
  match providerPool db group.serviceProvider with
  | none => .error (.validation .noGidRange)
  | some pool =>
  match groupRange pool with
  | none => .error (.validation .noGidRange)
  | some r =>
  if !allowOutsideRange && !(pool.range r).holds value then
    .error (.validation (.outsideGroupRange value r ((pool.range r).min.getD 0) ((pool.range r).max.getD 0)))
  else
  let customer := group.serviceProvider.customer
  let others := (providerPools db customer).filter fun q => q.id != pool.id
  match others.find? (fun q => q.gid.holds value), others.find? (fun q => q.groupGid.holds value) with
  | some foreign, _ => .error (.validation (.insideOtherPool value .gid foreign.scope))
  | none, some foreign => .error (.validation (.insideOtherPool value .groupGid foreign.scope))
  | none, none =>
  if db.identities.rows.any fun i => (providerPools db customer).any (fun q => i.pool == q.id) && !i.released &&
      i.gid == some value && i.principal != group.consumer.principal then .error .valueConflict
  else
  let identity := activeIdentity db pool.id group.consumer.principal
  let previous := (identity.bind (·.gid)).orElse fun _ => group.gid
  if previous = some value then
    match identity with
    | some _ => .ok db
    | none =>
      db.store db.pools (saveIdentity db.identities (group.identity (freshId db.identities) pool.id (some value) false))
  else
  let withheld := withholdPrevious db.identities pool.id group identity previous
  match db.store db.pools (savePinned withheld.1 pool.id group withheld.2 value) with
  | .ok db => .ok (db.setGroupGid group.id value)
  | .error _ => .error .valueConflict

/-! ## Releases -/

/-- Releases the active identities a query selects; `recyclable` is rewritten where it is given. -/
def releaseWhere (identities : Identities) (p : Identity → Bool) (recyclable : Option Bool) : Identities :=
  identities.mapRows (fun i => if !i.released && p i then
    { i with released := true, recyclable := recyclable.getD i.recyclable } else i) (fun i => by split <;> rfl)

/-- `release_project_group_gid`. -/
def releaseProjectGroupGid (db : Db) (group : ProjectGroup) : Except PosixError Db :=
  db.store db.pools (releaseWhere db.identities
    (fun i => i.principal == .consumer .serviceProviderProjectGroup group.id) (some false))

/-- `release_user_allocations`; `inUse` are the pools the user still holds an account in. -/
def releaseUserAllocations (db : Db) (user : ℕ) (recyclable : Bool) (inUse : List ℕ) : Except PosixError Db :=
  db.store db.pools (releaseWhere db.identities
    (fun i => i.principal == .user user && !inUse.contains i.pool) (some recyclable))

/-- `release_posix_allocations`. -/
def releasePosixAllocations (db : Db) (consumer : Consumer) (inUse : List ℕ) : Except PosixError Db := do
  let db ← db.store db.pools (releaseWhere db.identities
    (fun i => i.principal == .consumer consumer.contentType consumer.id) none)
  if consumer.isAccount then releaseUserAllocations db consumer.user true inUse else return db

/-! ## Pools are created and edited -/

/-- One turn of the loop of `register_existing_gids`. -/
def registerGid (pool : ℕ) (identities : Identities) (group : ProjectGroup) : Identities :=
  match group.gid with
  | none => identities
  | some gid =>
    let active := identities.rows.filter fun i => i.pool == pool && !i.released
    if active.any (fun i => i.principal == group.consumer.principal) then identities
    else if active.any (fun i => i.gid == some gid) then identities
    else saveIdentity identities (group.identity (freshId identities) pool (some gid) false)

/-- `project_groups.register_existing_gids`. -/
def registerExistingGids (db : Db) (pool : Pool) : Identities :=
  match pool.serviceProvider with
  | none => db.identities
  | some serviceProvider =>
    (db.groups.rows.filter fun g => g.serviceProvider == serviceProvider).foldl (registerGid pool.id) db.identities

/-- A pool is created: it is validated, saved, and registers the GIDs its groups carry. -/
def createPool (db : Db) (pool : Pool) : Except PosixError Db :=
  match validatePool db pool with
  | .error e => .error (.validation e)
  | .ok () =>
    if h : db.pools.get? pool.id = none then db.store (db.pools.insert pool h) (registerExistingGids db pool)
    else .error .integrityError

/-- A pool is edited: its scope, its bounds and its counters. -/
def editPool (db : Db) (pool : Pool) : Except PosixError Db :=
  match validatePool db pool with
  | .error e => .error (.validation e)
  | .ok () =>
    match db.pools.get? pool.id with
    | none => .error .doesNotExist
    | some _ => db.store (db.pools.update pool.id (fun p => { pool with id := p.id }) (fun _ => rfl)) db.identities

/-! ## The operations -/

inductive Op
  | createPool (pool : Pool)
  | editPool (pool : Pool)
  | allocate (offering : Offering) (c : Namespace) (consumer : Consumer)
  | setValue (consumer : Consumer) (c : Namespace) (value : ℤ) (offering : Offering)
  | allocateProjectGroupGid (group : ℕ)
  | setProjectGroupGid (group : ℕ) (value : ℤ) (allowOutsideRange : Bool)
  | releasePosixAllocations (consumer : Consumer) (inUse : List ℕ)
  | releaseUserAllocations (user : ℕ) (recyclable : Bool) (inUse : List ℕ)
  | releaseProjectGroupGid (group : ℕ)

/-- An operation, each atomic. -/
def apply (db : Db) : Op → Except PosixError Db
  | .createPool pool => createPool db pool
  | .editPool pool => editPool db pool
  | .allocate offering c consumer => (allocate db offering c consumer).map (·.1)
  | .setValue consumer c value offering => setValue db consumer c value offering
  | .allocateProjectGroupGid group =>
    match db.groups.get? group with
    | some group => allocateGid db group
    | none => .error .doesNotExist
  | .setProjectGroupGid group value allowOutsideRange =>
    match db.groups.get? group with
    | some group => setProjectGroupGid db group value allowOutsideRange
    | none => .error .doesNotExist
  | .releasePosixAllocations consumer inUse => releasePosixAllocations db consumer inUse
  | .releaseUserAllocations user recyclable inUse => releaseUserAllocations db user recyclable inUse
  | .releaseProjectGroupGid group =>
    match db.groups.get? group with
    | some group => releaseProjectGroupGid db group
    | none => .error .doesNotExist

/-- An operation that fails leaves the database as it was. -/
def step (db : Db) (op : Op) : Db :=
  match apply db op with
  | .ok db' => db'
  | .error _ => db

end Waldur.PosixIds
