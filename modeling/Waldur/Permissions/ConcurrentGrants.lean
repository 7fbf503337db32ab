import Mathlib
import Waldur.Autoprovisioning.Reconciliation
import Waldur.Lib.Runs
import Waldur.Permissions.Grants

/-!
# Permissions.ConcurrentGrants — grants, reconciliations and removals at the same time

No constraint of the table keeps two active rows of one user, role and scope apart; each operation reads first and
writes later.  A worker is between the two in a `Phase`.  `Undisturbed` says that no other worker is about to activate
the pair that a write activates, and then no pair is ever held twice.
-/

namespace Waldur.Permissions

open Relational Runs Autoprovisioning

/-- A write that a reconciliation has decided on. -/
inductive GrantWrite
  | restore (id : ℕ)
  | add (source : String)

/-- What a worker has read and is about to write. -/
inductive Phase
  | idle
  | granting (user : ℕ) (pair : Pair) (expirationTime : Option ℤ)
  | reconciling (user : ℕ) (writes : List (Pair × GrantWrite))
  | revoking (ids : List ℕ)
  | updating (id : ℕ) (expirationTime : Option ℤ)

structure Grants where
  rows : UserRoles
  phase : ℕ → Phase := fun _ => .idle

/-- A read of a worker that is idle, or its next write.  What a read depends on besides the rows comes with it. -/
inductive GrantEvent
  | validate (worker : ℕ) (userActive : ℕ → Bool) (now : ℤ) (user : ℕ) (pair : Pair) (expirationTime : Option ℤ)
  | readAsserted (worker : ℕ) (w : Directory) (rules : List Rule) (user : User)
  | readStale (worker : ℕ) (w : Directory) (rules : List Rule) (user : User)
  | readRevoke (worker : ℕ) (id : ℕ)
  | readDelete (worker : ℕ) (user : ℕ) (pair : Pair)
  | readUpdate (worker : ℕ) (user : ℕ) (pair : Pair) (expirationTime : Option ℤ)
  | write (worker : ℕ) (now : ℤ)

section

variable (site : Site)

/-- What a reconciliation decides for an asserted pair. -/
def decideGrant (rules : List Rule) (user : User) (rows : UserRoles) (e : Pair × Rule) : Pair × GrantWrite :=
  match (revokedByUs rules user rows e.1).filter fun previous => previous.source == e.2.grantSource with
  | some previous => (e.1, .restore previous.id)
  | none => (e.1, .add e.2.grantSource)

/-- The phase after a read; a read that raises leaves the worker idle. -/
def readPhase (rows : UserRoles) : GrantEvent → Phase
  | .validate _ userActive now user pair expirationTime =>
    match validateRoleGrant site rows userActive now user pair with
    | .ok () => .granting user pair expirationTime
    | .error _ => .idle
  | .readAsserted _ w rules user => .reconciling user.id
      (((getAssertedGrants w rules user).filter fun e => !existing user rows e.1).map (decideGrant rules user rows))
  | .readStale _ w rules user => .revoking ((rows.rows.filter (stale w rules user)).map (·.id))
  | .readRevoke _ id =>
    match rows.get? id with
    | some r => if r.active then .revoking [id] else .idle
    | none => .idle
  | .readDelete _ user pair =>
    match getActive rows user pair with
    | .ok r => .revoking [r.id]
    | .error _ => .idle
  | .readUpdate _ user pair expirationTime =>
    match getActive rows user pair with
    | .ok r => .updating r.id expirationTime
    | .error _ => .idle
  | .write .. => .idle

/-- `restore` of a row as it was read: an inactive one. -/
def UserRole.reactivate (r : UserRole) : UserRole := { r with isActive := some true, expirationTime := none }

theorem UserRole.id_reactivate (r : UserRole) : r.reactivate.id = r.id := rfl

/-- `revoke` of a row as it was read: an active one. -/
def UserRole.deactivate (now : ℤ) (r : UserRole) : UserRole :=
  { r with isActive := some false, expirationTime := some now }

theorem UserRole.id_deactivate (now : ℤ) (r : UserRole) : (r.deactivate now).id = r.id := rfl

/-- The next write of a phase, with the policy check before a grant. -/
def writePhase (now : ℤ) (rows : UserRoles) : Phase → UserRoles × Phase
  | .idle => (rows, .idle)
  | .granting user pair expirationTime =>
    match addUser site.policy rows user pair expirationTime "" now with
    | .ok rows' => (rows', .idle)
    | .error _ => (rows, .idle)
  | .reconciling _ [] => (rows, .idle)
  | .reconciling user ((pair, .restore id) :: writes) =>
    match checkGrantPolicy site.policy pair with
    | .ok () => (rows.update id UserRole.reactivate UserRole.id_reactivate, .reconciling user writes)
    | .error _ => (rows, .reconciling user writes)
  | .reconciling user ((pair, .add source) :: writes) =>
    match addUser site.policy rows user pair none source now with
    | .ok rows' => (rows', .reconciling user writes)
    | .error _ => (rows, .reconciling user writes)
  | .revoking [] => (rows, .idle)
  | .revoking (id :: ids) => (rows.update id (UserRole.deactivate now) (UserRole.id_deactivate now), .revoking ids)
  | .updating id expirationTime =>
    (rows.update id (UserRole.setExpirationTime expirationTime) (UserRole.id_setExpirationTime expirationTime), .idle)

def GrantEvent.worker : GrantEvent → ℕ
  | .validate w .. | .readAsserted w .. | .readStale w .. | .readRevoke w _ | .readDelete w .. | .readUpdate w ..
  | .write w _ => w

/-- One atomic step. -/
def stepGrants (s : Grants) (e : GrantEvent) : Grants :=
  match e with
  | .write worker now =>
    let result := writePhase site now s.rows (s.phase worker)
    { rows := result.1, phase := Function.update s.phase worker result.2 }
  | read =>
    match s.phase read.worker with
    | .idle => { s with phase := Function.update s.phase read.worker (readPhase site s.rows read) }
    | _ => s

/-- The pairs that a worker is about to activate, with their user. -/
def Phase.activates : Phase → List (ℕ × Pair)
  | .granting user pair _ => [(user, pair)]
  | .reconciling user writes => writes.map fun x => (user, x.1)
  | _ => []

/-- The pair that the next write of a worker activates. -/
def Phase.next (phase : Phase) : Option (ℕ × Pair) := phase.activates.head?

/-- **When a write is undisturbed**: no other worker has read the rows and is about to activate the same pair of the
same user. -/
def Undisturbed (s : Grants) : GrantEvent → Prop
  | .write worker _ => ∀ key, (s.phase worker).next = some key →
      ∀ other, other ≠ worker → key ∉ (s.phase other).activates
  | _ => True

/-- At most one active row of each user, role and scope. -/
def HeldOnceByAll (rows : UserRoles) : Prop := ∀ user pair, rows.count (·.grants user pair) ≤ 1

/-- What the rows are to give: one active row at most, lookups that never find several, and no role after a removal. -/
structure OneGrant (rows : UserRoles) : Prop where
  once : HeldOnceByAll rows
  get : ∀ user pair, getActive rows user pair ≠ .error .multipleObjectsReturned
  removed : ∀ user pair now after, deleteUser rows user pair now = .ok (after, true) →
    hasUser after pair.1 user (some pair.2) = false

end

variable {site : Site} {rows rows' : UserRoles} {s : Grants} {user : ℕ} {pair : Pair} {now : ℤ} {phase : Phase}

/-! ## One write -/

/-- What a write may do: activate one row of `key`, and keep the user and the pair of every row. -/
structure Writes (rows rows' : UserRoles) (key : Option (ℕ × Pair)) : Prop where
  count : ∀ user pair, rows'.count (·.grants user pair) ≤
    rows.count (·.grants user pair) + if key = some (user, pair) then 1 else 0
  kept : ∀ id r, rows.get? id = some r → ∃ r', rows'.get? id = some r' ∧ r'.user = r.user ∧ r'.pair = r.pair

theorem Writes.refl (key : Option (ℕ × Pair)) : Writes rows rows key where
  count := fun _ _ => Nat.le_add_right _ _
  kept := fun _ r hr => ⟨r, hr, rfl, rfl⟩

theorem writes_update {id : ℕ} {f : UserRole → UserRole} (hf : ∀ r, (f r).id = r.id) {key : Option (ℕ × Pair)}
    (hkept : ∀ r, (f r).user = r.user ∧ (f r).pair = r.pair)
    (hactive : ∀ r, rows.get? id = some r → (f r).active = true → r.active = true ∨ key = some (r.user, r.pair)) :
    Writes rows (rows.update id f hf) key := by
  cases hrow : rows.get? id with
  | none =>
    rw [Table.update_of_none hrow]
    exact Writes.refl key
  | some r =>
    refine ⟨fun user pair => ?_, fun id' r' hr' => ?_⟩
    · have hcount := Table.count_update rows hrow f hf (·.grants user pair)
      cases hafter : (f r).grants user pair with
      | false =>
        rw [hafter, Bool.toNat_false] at hcount
        omega
      | true =>
        obtain ⟨hnew, huser, hpair⟩ := UserRole.grants_iff.mp hafter
        rw [(hkept r).1] at huser
        rw [(hkept r).2] at hpair
        rw [hafter, Bool.toNat_true] at hcount
        rcases hactive r hrow hnew with hold | hkey
        · have hbefore : r.grants user pair = true := UserRole.grants_iff.mpr ⟨hold, huser, hpair⟩
          rw [hbefore, Bool.toNat_true] at hcount
          omega
        · rw [huser, hpair] at hkey
          rw [if_pos hkey]
          omega
    · by_cases hid : id' = id
      · subst hid
        rw [hrow] at hr'
        obtain rfl := Option.some.inj hr'
        refine ⟨f r, ?_, hkept r⟩
        rw [Table.get?_update_self, hrow, Option.map_some]
      · refine ⟨r', ?_, rfl, rfl⟩
        rw [Table.get?_update_ne rows f hf hid, hr']

theorem writes_addUser {policy : Policy} {expirationTime : Option ℤ} {source : String}
    (h : addUser policy rows user pair expirationTime source now = .ok rows') :
    Writes rows rows' (some (user, pair)) := by
  unfold addUser at h
  obtain ⟨-, -, hrows⟩ := bind_eq_ok.mp h
  obtain rfl := Except.ok.inj hrows
  refine ⟨fun user' pair' => ?_, fun id r hr => ⟨r, Table.get?_add hr, rfl, rfl⟩⟩
  rw [Table.count_add]
  cases hnew : (newRole user pair expirationTime source now rows.freshId).grants user' pair' with
  | false => exact Nat.le_add_right _ _
  | true =>
    obtain ⟨-, huser, hpair⟩ := UserRole.grants_iff.mp hnew
    have huser' : user = user' := huser
    have hpair' : pair = pair' := hpair
    rw [huser', hpair', if_pos rfl]
    rfl

/-- The rows that a phase restores are of the user and the pairs that it names. -/
def Targets (rows : UserRoles) : Phase → Prop
  | .reconciling user writes => ∀ pair id, (pair, GrantWrite.restore id) ∈ writes →
      ∃ r, rows.get? id = some r ∧ r.user = user ∧ r.pair = pair
  | _ => True

/-- The next write of a phase activates its next pair at most, and the phase goes on with the others. -/
theorem writePhase_spec (h : Targets rows phase) :
    Writes rows (writePhase site now rows phase).1 phase.next ∧
      (writePhase site now rows phase).2.activates = phase.activates.tail ∧
      Targets rows (writePhase site now rows phase).2 := by
  have hactive : ∀ (id : ℕ) (f : UserRole → UserRole), (∀ r, (f r).active = true → r.active = true) → ∀ r,
      rows.get? id = some r → (f r).active = true → r.active = true ∨ phase.next = some (r.user, r.pair) :=
    fun _ _ hf r _ hnew => Or.inl (hf r hnew)
  cases phase with
  | idle => exact ⟨Writes.refl _, rfl, trivial⟩
  | granting user pair expirationTime =>
    dsimp only [writePhase]
    cases hadd : addUser site.policy rows user pair expirationTime "" now with
    | ok rows' => exact ⟨writes_addUser hadd, rfl, trivial⟩
    | error e => exact ⟨Writes.refl _, rfl, trivial⟩
  | reconciling user writes =>
    cases writes with
    | nil => exact ⟨Writes.refl _, rfl, trivial⟩
    | cons x writes =>
      obtain ⟨pair, write⟩ := x
      have hrest : Targets rows (.reconciling user writes) := fun pair' id hx => h pair' id (List.mem_cons_of_mem _ hx)
      cases write with
      | restore id =>
        dsimp only [writePhase]
        cases checkGrantPolicy site.policy pair with
        | ok u =>
          refine ⟨writes_update UserRole.id_reactivate (fun r => ⟨rfl, rfl⟩) fun r hr _ => Or.inr ?_, rfl, hrest⟩
          obtain ⟨r', hr', huser, hpair⟩ := h pair id List.mem_cons_self
          rw [hr] at hr'
          obtain rfl := Option.some.inj hr'
          rw [huser, hpair]
          rfl
        | error e => exact ⟨Writes.refl _, rfl, hrest⟩
      | add source =>
        dsimp only [writePhase]
        cases hadd : addUser site.policy rows user pair none source now with
        | ok rows' => exact ⟨writes_addUser hadd, rfl, hrest⟩
        | error e => exact ⟨Writes.refl _, rfl, hrest⟩
  | revoking ids =>
    cases ids with
    | nil => exact ⟨Writes.refl _, rfl, trivial⟩
    | cons id ids =>
      refine ⟨writes_update (UserRole.id_deactivate now) (fun r => ⟨rfl, rfl⟩) (hactive id _ fun r hnew => ?_), rfl,
        trivial⟩
      cases hnew
  | updating id expirationTime =>
    exact ⟨writes_update (UserRole.id_setExpirationTime expirationTime) (fun r => ⟨rfl, rfl⟩)
      (hactive id _ fun r hnew => hnew), rfl, trivial⟩

/-! ## The invariant -/

/-- No pair is held twice, no worker is about to activate a pair that is held, none activates a pair twice, and the
rows to restore are those of the pairs. -/
structure Consistent (s : Grants) : Prop where
  once : HeldOnceByAll s.rows
  free : ∀ worker, ∀ key ∈ (s.phase worker).activates, s.rows.count (·.grants key.1 key.2) = 0
  distinct : ∀ worker, (s.phase worker).activates.Nodup
  targets : ∀ worker, Targets s.rows (s.phase worker)

theorem count_of_hasUser (h : hasUser rows pair.1 user (some pair.2) = false) : rows.count (·.grants user pair) = 0 := by
  unfold Table.count
  rw [List.countP_eq_zero]
  intro r hr hgrants
  obtain ⟨hactive, huser, hpair⟩ := UserRole.grants_iff.mp hgrants
  unfold hasUser at h
  rw [List.any_eq_false] at h
  apply h r hr
  have hscope : r.scope = pair.1 := congrArg Prod.fst hpair
  have hrole : r.role = pair.2 := congrArg Prod.snd hpair
  rw [hactive, huser, hscope]
  simp [hrole]

/-- What a read finds: the pairs that it will activate are not held, and distinct. -/
theorem readPhase_spec (e : GrantEvent) :
    (∀ key ∈ (readPhase site rows e).activates, rows.count (·.grants key.1 key.2) = 0) ∧
      (readPhase site rows e).activates.Nodup ∧ Targets rows (readPhase site rows e) := by
  have hnone : ∀ phase : Phase, phase.activates = [] → Targets rows phase →
      (∀ key ∈ phase.activates, rows.count (·.grants key.1 key.2) = 0) ∧ phase.activates.Nodup ∧ Targets rows phase := by
    intro phase hnil htargets
    rw [hnil]
    exact ⟨fun key hkey => absurd hkey List.not_mem_nil, List.nodup_nil, htargets⟩
  cases e with
  | validate worker userActive now user pair expirationTime =>
    dsimp only [readPhase]
    cases hvalid : validateRoleGrant site rows userActive now user pair with
    | error e => exact hnone _ rfl trivial
    | ok u =>
      obtain ⟨hfree, -, -⟩ := validateRoleGrant_ok hvalid
      refine ⟨fun key hkey => ?_, List.nodup_singleton _, trivial⟩
      rw [List.mem_singleton.mp hkey]
      exact count_of_hasUser hfree
  | readAsserted worker w rules user =>
    have hpair : ∀ e, (decideGrant rules user rows e).1 = e.1 := by
      intro e
      unfold decideGrant
      split <;> rfl
    have hactivates : (readPhase site rows (.readAsserted worker w rules user)).activates =
        ((getAssertedGrants w rules user).filter fun e => !existing user rows e.1).map fun e => (user.id, e.1) := by
      dsimp only [readPhase, Phase.activates]
      rw [List.map_map]
      refine List.map_congr_left fun e _ => ?_
      rw [Function.comp_apply, hpair]
    refine ⟨fun key hkey => ?_, ?_, ?_⟩
    · rw [hactivates] at hkey
      obtain ⟨e, he, rfl⟩ := List.mem_map.mp hkey
      have hexisting : existing user rows e.1 = false := by simpa using (List.mem_filter.mp he).2
      rw [← Bool.not_eq_true, existing_iff] at hexisting
      dsimp only
      omega
    · rw [hactivates]
      have hkeys := (@wellAsserted w rules user).1.sublist
        ((List.filter_sublist (p := fun e => !existing user rows e.1)).map _)
      exact List.pairwise_map.mpr ((List.pairwise_map.mp hkeys).imp fun hne heq => hne (congrArg Prod.snd heq))
    · intro pair id hmem
      obtain ⟨e, -, heq⟩ := List.mem_map.mp hmem
      unfold decideGrant at heq
      cases hprevious : (revokedByUs rules user rows e.1).filter fun r => r.source == e.2.grantSource with
      | none =>
        rw [hprevious] at heq
        cases (Prod.mk.inj heq).2
      | some r =>
        rw [hprevious] at heq
        obtain ⟨rfl, hid⟩ := Prod.mk.inj heq
        obtain rfl := GrantWrite.restore.inj hid
        obtain ⟨hr, huser, -, -, hrpair⟩ := revokedByUs_spec (Option.filter_eq_some_iff.mp hprevious).1
        exact ⟨r, Table.get?_eq_some.mpr ⟨hr, rfl⟩, huser, hrpair⟩
  | readStale worker w rules user => exact hnone _ rfl trivial
  | readRevoke worker id =>
    dsimp only [readPhase]
    cases rows.get? id with
    | none => exact hnone _ rfl trivial
    | some r =>
      dsimp only
      split
      · exact hnone _ rfl trivial
      · exact hnone _ rfl trivial
  | readDelete worker user pair =>
    dsimp only [readPhase]
    cases getActive rows user pair with
    | ok r => exact hnone _ rfl trivial
    | error e => exact hnone _ rfl trivial
  | readUpdate worker user pair expirationTime =>
    dsimp only [readPhase]
    cases getActive rows user pair with
    | ok r => exact hnone _ rfl trivial
    | error e => exact hnone _ rfl trivial
  | write worker now => exact hnone _ rfl trivial

theorem consistent_read (e : GrantEvent) (h : Consistent s) : Consistent
    { s with phase := Function.update s.phase e.worker (readPhase site s.rows e) } := by
  obtain ⟨hfree, hdistinct, htargets⟩ := @readPhase_spec site s.rows e
  refine ⟨h.once, fun worker => ?_, fun worker => ?_, fun worker => ?_⟩
  · by_cases hw : worker = e.worker
    · rw [hw]
      dsimp only
      rw [Function.update_self]
      exact hfree
    · dsimp only
      rw [Function.update_of_ne hw]
      exact h.free worker
  · by_cases hw : worker = e.worker
    · rw [hw]
      dsimp only
      rw [Function.update_self]
      exact hdistinct
    · dsimp only
      rw [Function.update_of_ne hw]
      exact h.distinct worker
  · by_cases hw : worker = e.worker
    · rw [hw]
      dsimp only
      rw [Function.update_self]
      exact htargets
    · dsimp only
      rw [Function.update_of_ne hw]
      exact h.targets worker

theorem targets_kept (h : Targets rows phase) (hkept : ∀ id r, rows.get? id = some r →
    ∃ r', rows'.get? id = some r' ∧ r'.user = r.user ∧ r'.pair = r.pair) : Targets rows' phase := by
  cases phase with
  | reconciling user writes =>
    intro pair id hmem
    obtain ⟨r, hr, huser, hpair⟩ := h pair id hmem
    obtain ⟨r', hr', huser', hpair'⟩ := hkept id r hr
    exact ⟨r', hr', huser'.trans huser, hpair'.trans hpair⟩
  | idle => trivial
  | granting => trivial
  | revoking => trivial
  | updating => trivial

theorem consistent_write {worker : ℕ} (h : Consistent s) (hundisturbed : Undisturbed s (.write worker now)) :
    Consistent (stepGrants site s (.write worker now)) := by
  obtain ⟨hwrites, hrest, htargets⟩ := @writePhase_spec site _ now _ (h.targets worker)
  -- the pair that is activated was free, and is none that any worker still activates
  have hnext : ∀ key, (s.phase worker).next = some key → (s.phase worker).activates = key :: (s.phase worker).activates.tail :=
    fun key hkey => (List.eq_cons_of_mem_head? hkey).trans rfl
  have hothers : ∀ other, ∀ key ∈ ((Function.update s.phase worker
      (writePhase site now s.rows (s.phase worker)).2) other).activates,
      key ∈ (s.phase other).activates ∧ (s.phase worker).next ≠ some key := by
    intro other key hkey
    by_cases hw : other = worker
    · subst hw
      rw [Function.update_self, hrest] at hkey
      refine ⟨List.mem_of_mem_tail hkey, fun hsome => ?_⟩
      have hnodup := h.distinct other
      rw [hnext key hsome] at hnodup
      exact (List.nodup_cons.mp hnodup).1 hkey
    · rw [Function.update_of_ne hw] at hkey
      exact ⟨hkey, fun hsome => hundisturbed key hsome other hw hkey⟩
  refine ⟨fun user pair => ?_, fun other key hkey => ?_, fun other => ?_, fun other => ?_⟩
  · have hle := hwrites.count user pair
    have hone := h.once user pair
    split_ifs at hle with hkey
    · have hzero := h.free worker (user, pair) ((hnext _ hkey).symm ▸ List.mem_cons_self)
      dsimp only at hzero
      exact hle.trans (by omega)
    · exact hle.trans (by omega)
  · obtain ⟨hmem, hne⟩ := hothers other key hkey
    have hle := hwrites.count key.1 key.2
    rw [if_neg hne] at hle
    have hzero := h.free other key hmem
    exact Nat.le_zero.mp (hle.trans (by omega))
  · show ((Function.update s.phase worker _) other).activates.Nodup
    by_cases hw : other = worker
    · rw [hw, Function.update_self, hrest]
      exact (h.distinct worker).tail
    · rw [Function.update_of_ne hw]
      exact h.distinct other
  · show Targets _ ((Function.update s.phase worker _) other)
    by_cases hw : other = worker
    · rw [hw, Function.update_self]
      exact targets_kept htargets hwrites.kept
    · rw [Function.update_of_ne hw]
      exact targets_kept (h.targets other) hwrites.kept

theorem consistent_step (e : GrantEvent) (h : Consistent s) (hundisturbed : Undisturbed s e) :
    Consistent (stepGrants site s e) := by
  have hread : ∀ e : GrantEvent, Consistent (match s.phase e.worker with
      | .idle => { s with phase := Function.update s.phase e.worker (readPhase site s.rows e) }
      | _ => s) := by
    intro e
    split
    · exact consistent_read e h
    · exact h
  cases e with
  | write worker now => exact consistent_write h hundisturbed
  | validate worker userActive now user pair expirationTime => exact hread _
  | readAsserted worker w rules user => exact hread _
  | readStale worker w rules user => exact hread _
  | readRevoke worker id => exact hread _
  | readDelete worker user pair => exact hread _
  | readUpdate worker user pair expirationTime => exact hread _

/-! ## Runs -/

/-- A step leaves the other workers where they are. -/
theorem phase_stepGrants_ne {e : GrantEvent} {other : ℕ} (h : other ≠ e.worker) :
    (stepGrants site s e).phase other = s.phase other := by
  have hread : ∀ e : GrantEvent, other ≠ e.worker → (match s.phase e.worker with
      | .idle => { s with phase := Function.update s.phase e.worker (readPhase site s.rows e) }
      | _ => s).phase other = s.phase other := by
    intro e hne
    split
    · exact Function.update_of_ne hne _ _
    · rfl
  cases e with
  | write worker now => exact Function.update_of_ne h _ _
  | validate worker userActive now user pair expirationTime => exact hread _ h
  | readAsserted worker w rules user => exact hread _ h
  | readStale worker w rules user => exact hread _ h
  | readRevoke worker id => exact hread _ h
  | readDelete worker user pair => exact hread _ h
  | readUpdate worker user pair expirationTime => exact hread _ h

theorem phase_run_ne {other : ℕ} : ∀ {events : List GrantEvent} {s : Grants}, (∀ e ∈ events, other ≠ e.worker) →
    (run (stepGrants site) s events).phase other = s.phase other
  | [], _, _ => rfl
  | e :: events, s, h => by
    rw [run_cons, phase_run_ne fun e' he' => h e' (List.mem_cons_of_mem e he')]
    exact phase_stepGrants_ne (h e List.mem_cons_self)

theorem oneGrant_of_once (h : HeldOnceByAll rows) : OneGrant rows where
  once := h
  get := fun user pair hmultiple => by
    have hone := h user pair
    have hmany := getActive_multiple.mp hmultiple
    omega
  removed := fun user pair now after hdelete => by
    unfold deleteUser at hdelete
    cases hget : getActive rows user pair with
    | error e =>
      rw [hget] at hdelete
      cases e <;> cases hdelete
    | ok r =>
      rw [hget] at hdelete
      obtain rfl := (Prod.mk.inj (Except.ok.inj hdelete)).1
      obtain ⟨hr, hgrants, hone⟩ := getActive_ok hget
      have hcount := Table.count_update rows hr (UserRole.revoke now) (UserRole.id_revoke now) (·.grants user pair)
      have hgone : (r.revoke now).grants user pair = false := by
        unfold UserRole.grants
        rw [UserRole.active_revoke, Bool.false_and]
      rw [hgrants, hgone, hone, Bool.toNat_true, Bool.toNat_false] at hcount
      have hzero : (rows.update r.id (UserRole.revoke now) (UserRole.id_revoke now)).count (·.grants user pair) = 0 := by
        omega
      unfold Table.count at hzero
      rw [List.countP_eq_zero] at hzero
      unfold hasUser
      rw [List.any_eq_false]
      intro r' hr' hheld
      apply hzero r' hr'
      simp only [Bool.and_eq_true, beq_iff_eq, Option.all_some] at hheld
      obtain ⟨⟨⟨hactive, huser⟩, hscope⟩, hrole⟩ := hheld
      exact UserRole.grants_iff.mpr ⟨hactive, huser, Prod.ext hscope hrole⟩

/-- **One grant**: from rows without a pair held twice and no operation under way, every state of a run whose writes
are undisturbed has at most one active row of each user, role and scope, so lookups find one and a removal ends it. -/
theorem oneGrant_along (site : Site) (s : Grants) (events : List GrantEvent) (honce : HeldOnceByAll s.rows)
    (hidle : ∀ worker, s.phase worker = .idle) (h : Along (stepGrants site) Undisturbed s events) :
    OneGrant s.rows ∧ Along (stepGrants site) (fun s e => OneGrant (stepGrants site s e).rows) s events := by
  have hstart : Consistent s := by
    refine ⟨honce, fun worker => ?_, fun worker => ?_, fun worker => ?_⟩
    · rw [hidle]
      exact fun key hkey => absurd hkey List.not_mem_nil
    · rw [hidle]
      exact List.nodup_nil
    · rw [hidle]
      trivial
  refine ⟨oneGrant_of_once honce, ?_⟩
  have hstep : ∀ s e, Consistent s → Undisturbed s e →
      Consistent (stepGrants site s e) ∧ OneGrant (stepGrants site s e).rows := by
    intro s e hs hP
    have hs' := @consistent_step site _ e hs hP
    exact ⟨hs', oneGrant_of_once hs'.once⟩
  exact along_of_invariant hstep events s hstart h

/-- One role of projects, open to all. -/
def openSite : Site where
  roles := ⟨[⟨1, "PROJECT.MEMBER", none, .project, true⟩], by decide⟩
  policy := ⟨fun scope => [scope], [], []⟩

/-- The grant of role 1 in project 1 to a user, as a worker validates it. -/
def validateMember (worker user : ℕ) : GrantEvent :=
  .validate worker (fun _ => true) 0 user (⟨.project, 1⟩, 1) none

/-- Two workers grant a role to two users, each between the read and the write of the other. -/
theorem twoUsers_oneGrant : OneGrant (Table.empty : UserRoles) ∧ Along (stepGrants openSite)
    (fun s e => OneGrant (stepGrants openSite s e).rows) ⟨Table.empty, fun _ => .idle⟩
    [validateMember 0 1, validateMember 1 2, .write 0 0, .write 1 0] := by
  refine oneGrant_along openSite ⟨Table.empty, fun _ => .idle⟩ _ (fun _ _ => Nat.zero_le 1) (fun _ => rfl) ?_
  refine ⟨trivial, trivial, fun key hkey other hne => ?_, fun key hkey other hne => ?_, trivial⟩
  · have hfirst : key = (1, (⟨.project, 1⟩, 1)) := (Option.some.inj hkey).symm
    by_cases hother : other = 1
    · rw [hother, hfirst]
      decide
    · have hphase := @phase_run_ne openSite other [validateMember 0 1, validateMember 1 2] ⟨Table.empty, fun _ => .idle⟩
        (by simp [validateMember, GrantEvent.worker, hother, hne])
      intro hmem
      have hactivates := congrArg Phase.activates hphase
      have hidle : key ∈ Phase.idle.activates := (congrArg (key ∈ ·) hactivates).mp hmem
      cases hidle
  · by_cases hother : other = 0
    · rw [hother]
      intro hmem
      cases hmem
    · have hphase := @phase_run_ne openSite other [validateMember 0 1, validateMember 1 2, .write 0 0]
        ⟨Table.empty, fun _ => .idle⟩ (by simp [validateMember, GrantEvent.worker, hother, hne])
      intro hmem
      have hactivates := congrArg Phase.activates hphase
      have hidle : key ∈ Phase.idle.activates := (congrArg (key ∈ ·) hactivates).mp hmem
      cases hidle

/-- Two workers grant a role to one user: both have found no active row. -/
theorem twoWorkers_twoGrants : ¬ ∀ events : List GrantEvent, Along (stepGrants openSite)
    (fun s e => OneGrant (stepGrants openSite s e).rows) ⟨Table.empty, fun _ => .idle⟩ events := by
  intro h
  have hlast := (h [validateMember 0 1, validateMember 1 1, .write 0 0, .write 1 0]).2.2.2.1
  have htwo := hlast.once 1 (⟨.project, 1⟩, 1)
  revert htwo
  decide

end Waldur.Permissions
