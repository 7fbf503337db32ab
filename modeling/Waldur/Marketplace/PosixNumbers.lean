import Mathlib
import Waldur.Marketplace.PosixClaims

/-!
# Marketplace.PosixNumbers — no number is issued twice by the pools of one provider

`validate_pool` and the checks of a pinned GID keep the claims of a provider's pools apart.  What the code
does not compare is what a pool brings along: the numbers its identities hold when it is moved to another
provider (`editPool`), the GIDs it registers when it is created (`createPool`), and a GID the group itself
holds in another pool (`setProjectGroupGid`).
-/

namespace Waldur.PosixIds

open Relational Reservations Runs

/-! ## A pinned GID -/

section Pinned

variable {db db' : Db} {pool : Pool} {group : ProjectGroup} {value : ℤ}

theorem providerPool_mem {serviceProvider : ServiceProvider} (h : providerPool db serviceProvider = some pool) :
    pool ∈ db.pools.rows ∧ pool.customer = some serviceProvider.customer := by
  have hscope : pool.serviceProvider = some serviceProvider := by simpa using List.find?_some h
  refine ⟨List.mem_of_find?_eq_some h, ?_⟩
  unfold Pool.customer
  rw [hscope]

/-- The GID a group held before leaves the active rows. -/
theorem withholdPrevious_spec (identities : Identities) (k : ℕ) (group : ProjectGroup) (identity : Option Identity)
    (previous : Option ℤ) :
    (∀ k' x, heldIn (withholdPrevious identities k group identity previous).1 k' x → heldIn identities k' x) ∧
      ∀ i, (withholdPrevious identities k group identity previous).2 = some i → identity = some i := by
  unfold withholdPrevious
  split
  · refine ⟨fun k x hx => ?_, nofun⟩
    rcases heldIn_saveIdentity hx with ⟨-, hreleased, -⟩ | hx
    · exact nomatch hreleased
    · exact hx
  · refine ⟨fun k x hx => ?_, fun _ hi => hi⟩
    rcases heldIn_saveIdentity hx with ⟨-, hreleased, -⟩ | hx
    · exact nomatch hreleased
    · exact hx
  · exact ⟨fun _ _ hx => hx, fun _ hi => hi⟩

/-- What a GID pinned in a pool leaves, and what was checked of it. -/
structure Pinned (db db' : Db) (pool : Pool) (group : ProjectGroup) (value : ℤ) : Prop where
  mem : pool ∈ db.pools.rows
  customer : pool.customer = some group.serviceProvider.customer
  scopes : SameScopes db'.pools db.pools
  held : ∀ k x, heldIn db'.identities k x → heldIn db.identities k x ∨ k = pool.id ∧ x = (.gid, value)
  ranges : ∀ q ∈ db.pools.rows, q.id ≠ pool.id → q.customer = pool.customer → q.holds .gid value = false
  holders : ∀ i ∈ db.identities.rows, i.released = false → i.gid = some value →
    customerOf db.pools i.pool = pool.customer → i.principal = group.consumer.principal

/-- A row that is saved with the GID, in the pool and with no other number than it had. -/
theorem held_saveGid {identities : Identities} (identity : Identity) (hpool : identity.pool = pool.id)
    (huid : ∀ v, identity.uid = some v → heldIn db.identities pool.id (.uid, v))
    (hids : ∀ k x, heldIn identities k x → heldIn db.identities k x) :
    ∀ k x, heldIn (saveIdentity identities { identity with gid := some value }) k x →
      heldIn db.identities k x ∨ k = pool.id ∧ x = (.gid, value) := by
  rintro k ⟨c, v⟩ hx
  rcases heldIn_saveIdentity hx with ⟨rfl, -, hv⟩ | hx
  · cases c with
    | uid =>
      left
      have hheld := huid v hv
      rw [← hpool] at hheld
      exact hheld
    | gid =>
      obtain rfl := Option.some.inj hv
      exact Or.inr ⟨hpool, rfl⟩
  · exact Or.inl (hids k _ hx)

theorem held_savePinned {identities : Identities} {identity : Option Identity}
    (hids : ∀ k x, heldIn identities k x → heldIn db.identities k x)
    (hidentity : ∀ i, identity = some i → activeIdentity db pool.id group.consumer.principal = some i) :
    ∀ k x, heldIn (savePinned identities pool.id group identity value) k x →
      heldIn db.identities k x ∨ k = pool.id ∧ x = (.gid, value) := by
  unfold savePinned
  cases identity with
  | none => exact held_saveGid _ rfl nofun hids
  | some i =>
    obtain ⟨hmem, hpool, hactive, -⟩ := activeIdentity_some (hidentity i rfl)
    exact held_saveGid i hpool (fun v hv => ⟨i, hmem, hpool, hactive, hv⟩) hids

theorem pinned_ranges (hcustomer : pool.customer = some group.serviceProvider.customer)
    (hgid : ((providerPools db group.serviceProvider.customer).filter fun q => q.id != pool.id).find?
      (fun q => q.gid.holds value) = none)
    (hgroupGid : ((providerPools db group.serviceProvider.customer).filter fun q => q.id != pool.id).find?
      (fun q => q.groupGid.holds value) = none) :
    ∀ q ∈ db.pools.rows, q.id ≠ pool.id → q.customer = pool.customer → q.holds .gid value = false := by
  intro q hq hid hsame
  have hother : q ∈ (providerPools db group.serviceProvider.customer).filter fun q => q.id != pool.id :=
    List.mem_filter.mpr ⟨(mem_providerPools hq).mpr (hsame.trans hcustomer), by simpa using hid⟩
  rw [Bool.eq_false_iff, Ne, holds_iff]
  rintro ⟨r, hcolumn, hr⟩
  cases r with
  | uid => exact nomatch hcolumn
  | gid => exact List.find?_eq_none.mp hgid q hother hr
  | groupGid => exact List.find?_eq_none.mp hgroupGid q hother hr

theorem pinned_holders (hcustomer : pool.customer = some group.serviceProvider.customer)
    (hfree : (db.identities.rows.any fun i =>
      (providerPools db group.serviceProvider.customer).any (fun q => i.pool == q.id) && !i.released &&
        i.gid == some value && i.principal != group.consumer.principal) = false) :
    ∀ i ∈ db.identities.rows, i.released = false → i.gid = some value →
      customerOf db.pools i.pool = pool.customer → i.principal = group.consumer.principal := by
  intro i hi hactive hgid hsame
  by_contra hother
  obtain ⟨q, hq⟩ := Option.isSome_iff_exists.mp (db.constraints.pool i hi)
  obtain ⟨hqmem, hqid⟩ := Table.get?_eq_some.mp hq
  rw [← hqid, customerOf_of_mem hqmem, hcustomer] at hsame
  have hin : (providerPools db group.serviceProvider.customer).any (fun q => i.pool == q.id) = true :=
    List.any_eq_true.mpr ⟨q, (mem_providerPools hqmem).mpr hsame, by simpa using hqid.symm⟩
  refine absurd (List.any_eq_true.mpr ⟨i, hi, ?_⟩) (Bool.eq_false_iff.mp hfree)
  simp [hin, hactive, hgid, hother]

theorem setProjectGroupGid_ok {allowOutsideRange : Bool}
    (h : setProjectGroupGid db group value allowOutsideRange = .ok db') :
    (board db').Within (board db) ∨ ∃ pool, providerPool db group.serviceProvider = some pool ∧
      Pinned db db' pool group value := by
  unfold setProjectGroupGid at h
  split at h
  · exact nomatch h
  next pool hpool =>
  split at h
  · exact nomatch h
  split at h
  · exact nomatch h
  simp only at h
  split at h
  · exact nomatch h
  · exact nomatch h
  next hgid hgroupGid =>
  split at h
  · exact nomatch h
  next hfree =>
  obtain ⟨hmem, hcustomer⟩ := providerPool_mem hpool
  have hranges := pinned_ranges hcustomer hgid hgroupGid
  have hholders := pinned_holders hcustomer (Bool.eq_false_iff.mpr hfree)
  split at h
  · split at h
    · obtain rfl := Except.ok.inj h
      exact Or.inl (Board.Within.refl _)
    · obtain ⟨hp, hi⟩ := store_ok h
      refine Or.inr ⟨pool, hpool, hmem, hcustomer, hp ▸ SameScopes.refl _, ?_, hranges, hholders⟩
      rw [hi]
      exact held_saveGid (group.identity (freshId db.identities) pool.id none false) rfl nofun
        (fun _ _ hx => hx)
  · right
    obtain ⟨hids, hidentity⟩ := withholdPrevious_spec db.identities pool.id group
      (activeIdentity db pool.id group.consumer.principal)
      (((activeIdentity db pool.id group.consumer.principal).bind (·.gid)).orElse fun _ => group.gid)
    split at h
    · next db₁ hstore =>
      obtain ⟨hp, hi⟩ := store_ok hstore
      obtain rfl := Except.ok.inj h
      refine ⟨pool, hpool, hmem, hcustomer, hp ▸ SameScopes.refl _, ?_, hranges, hholders⟩
      show ∀ k x, heldIn db₁.identities k x → _
      rw [hi]
      exact held_savePinned hids hidentity
    · exact nomatch h

end Pinned

/-! ## `validate_pool` -/

section Validated

variable {db db' : Db} {pool : Pool}

theorem raiseIf_ok {fails : Prop} [Decidable fails] {error : ValidationError} :
    raiseIf fails error = .ok () ↔ ¬ fails := by
  unfold raiseIf
  by_cases h : fails <;> simp [h]

theorem holds_min {r : IdRange} {value : ℤ} (h : r.holds value = true) : r.min.isSome = true := by
  unfold IdRange.holds at h
  cases hmin : r.min with
  | none =>
    rw [hmin] at h
    exact nomatch h
  | some min => rfl

/-- Two ranges that hold one number overlap. -/
theorem overlaps_of_holds {r other : IdRange} {value : ℤ} (h : r.holds value = true) (h' : other.holds value = true) :
    r.overlaps other = true := by
  obtain ⟨min, max, next⟩ := r
  obtain ⟨min', max', next'⟩ := other
  cases min <;> cases max <;> cases min' <;> cases max' <;> simp_all [IdRange.holds, IdRange.overlaps]
  omega

theorem mem_siblings {customer : ℕ} (hcustomer : pool.customer = some customer) {q : Pool} :
    q ∈ siblings db pool ↔ q ∈ db.pools.rows ∧ q.id ≠ pool.id ∧ q.customer = pool.customer := by
  unfold siblings
  rw [hcustomer, Option.map_some, Option.getD_some, List.mem_filter, bne_iff_ne]
  constructor
  · rintro ⟨hq, hid⟩
    have hmem := (List.mem_filter.mp hq).1
    exact ⟨hmem, hid, (mem_providerPools hmem).mp hq⟩
  · rintro ⟨hmem, hid, hq⟩
    exact ⟨(mem_providerPools hmem).mpr hq, hid⟩

theorem validatePool_customer (h : validatePool db pool = .ok ()) : ∃ customer, pool.customer = some customer := by
  obtain ⟨_, hscope, -⟩ := bind_eq_ok.mp h
  rw [raiseIf_ok] at hscope
  unfold Pool.customer
  cases hs : pool.serviceProvider <;> cases ho : pool.offering <;> simp_all

theorem checkOverlap_ok {r other : RangeName} (hcolumn : other.column = r.column)
    (h : checkOverlap db pool r other = .ok ()) :
    ∀ q ∈ siblings db pool, ¬ (pool.range r).overlaps (q.range other) = true := by
  unfold checkOverlap at h
  rw [if_neg (not_not.mpr hcolumn)] at h
  split at h
  · exact nomatch h
  · next hnone => exact List.find?_eq_none.mp hnone

theorem checkForeignIdentities_ok {r : RangeName} {q : Pool} {i : Identity} {v : ℤ}
    (h : checkForeignIdentities db pool r = .ok ()) (hq : q ∈ siblings db pool) (hi : i ∈ db.identities.rows)
    (hpool : i.pool = q.id) (hactive : i.released = false) (hv : i.value r.column = some v) :
    (pool.range r).holds v = false := by
  unfold checkForeignIdentities at h
  split at h
  · exact nomatch h
  next hnone =>
  by_contra hholds
  have hsibling : (siblings db pool).any (fun q => i.pool == q.id) = true :=
    List.any_eq_true.mpr ⟨q, hq, by simpa using hpool⟩
  refine hnone (List.any_eq_true.mpr ⟨i, hi, ?_⟩)
  simpa [hsibling, hactive, hv] using hholds

/-- **What `validate_pool` is for**: no sibling of the pool claims a number of its ranges. -/
theorem validatePool_apart (hvalid : validatePool db pool = .ok ()) {q : Pool} (hq : q ∈ siblings db pool)
    {x : Namespace × ℤ} (hx : pool.holds x.1 x.2 = true) : x ∉ (board db).claims q.id := by
  obtain ⟨_, -, h⟩ := bind_eq_ok.mp hvalid
  obtain ⟨_, -, h⟩ := bind_eq_ok.mp h
  obtain ⟨_, -, h⟩ := bind_eq_ok.mp h
  obtain ⟨_, -, h⟩ := bind_eq_ok.mp h
  obtain ⟨_, -, h⟩ := bind_eq_ok.mp h
  obtain ⟨_, hoverlap, hforeign⟩ := bind_eq_ok.mp h
  obtain ⟨r, hcolumn, hr⟩ := holds_iff.mp hx
  have hmanaged : r ∈ pool.managed := List.mem_filter.mpr ⟨RangeName.mem_all r, holds_min hr⟩
  have hmem := (mem_siblings (validatePool_customer hvalid).choose_spec).mp hq
  rintro (hrange | ⟨i, hi, hpool, hactive, hv⟩)
  · obtain ⟨other, hcolumn', hr'⟩ := holds_iff.mp ((inRange_of_mem hmem.1).mp hrange)
    have hcheck := forM_eq_ok.mp (forM_eq_ok.mp hoverlap r hmanaged) other (RangeName.mem_all other)
    exact absurd (checkOverlap_ok (hcolumn'.trans hcolumn.symm) hcheck q hq)
      (by rw [overlaps_of_holds hr hr']; simp)
  · have hcheck := checkForeignIdentities_ok (forM_eq_ok.mp hforeign r hmanaged) hq hi hpool hactive
      (hcolumn ▸ hv)
    rw [hr] at hcheck
    exact nomatch hcheck

end Validated

/-! ## What the code does not compare -/

/-- A pool claims the number: a range of it or an active identity. -/
def claims (db : Db) (k : ℕ) (c : Namespace) (v : ℤ) : Bool :=
  (db.pools.get? k).any (·.holds c v) ||
    db.identities.rows.any fun i => i.pool == k && !i.released && i.value c == some v

/-- No other pool of its provider claims the number. -/
def unclaimed (db : Db) (pool : Pool) (c : Namespace) (v : ℤ) : Bool :=
  (siblings db pool).all fun q => !claims db q.id c v

/-- The numbers that an operation brings to a pool unchecked are free: what its identities hold when it is
edited to belong to another provider, the GIDs of the groups it registers when it is created, and a GID
that the group itself holds in another pool when it is pinned. -/
def BringsFree (db : Db) : Op → Prop
  | .createPool pool => (validatePool db pool).isOk = true →
      ∀ g ∈ db.groups.rows, pool.serviceProvider = some g.serviceProvider →
        ∀ v ∈ g.gid, unclaimed db pool .gid v = true
  | .editPool pool => (validatePool db pool).isOk = true → customerOf db.pools pool.id ≠ pool.customer →
      ∀ i ∈ db.identities.rows, i.pool = pool.id → i.released = false →
        ∀ c ∈ Namespace.all, ∀ v ∈ i.value c, unclaimed db pool c v = true
  | .setProjectGroupGid group value _ => ∀ g ∈ db.groups.get? group, ∀ p ∈ providerPool db g.serviceProvider,
      ∀ i ∈ db.identities.rows, i.principal = g.consumer.principal → i.released = false → i.gid = some value →
        customerOf db.pools i.pool = p.customer → i.pool = p.id
  | _ => True

instance (db : Db) (op : Op) : Decidable (BringsFree db op) := by
  unfold BringsFree
  split <;> infer_instance

section Brought

variable {db db' : Db} {pool : Pool}

theorem claims_iff {k : ℕ} {c : Namespace} {v : ℤ} : claims db k c v = true ↔ (c, v) ∈ (board db).claims k := by
  have hrange : (db.pools.get? k).any (·.holds c v) = true ↔ inRange db.pools k (c, v) := by
    unfold inRange
    cases db.pools.get? k <;> simp
  have hheld : (db.identities.rows.any fun i => i.pool == k && !i.released && i.value c == some v) = true ↔
      heldIn db.identities k (c, v) := by
    unfold heldIn
    simp [and_assoc]
  unfold claims
  rw [Bool.or_eq_true, hrange, hheld]
  rfl

theorem unclaimed_iff {c : Namespace} {v : ℤ} :
    unclaimed db pool c v = true ↔ ∀ q ∈ siblings db pool, (c, v) ∉ (board db).claims q.id := by
  unfold unclaimed
  rw [List.all_eq_true]
  refine forall₂_congr fun q _ => ?_
  rw [← claims_iff]
  simp

/-- A pool is written that `validate_pool` accepts; what its identities then hold is free. -/
theorem apart_put (h : (board db).Apart) (hvalid : validatePool db pool = .ok ())
    (hget : ∀ k, db'.pools.get? k = if k = pool.id then some pool else db.pools.get? k)
    (hothers : ∀ k x, k ≠ pool.id → heldIn db'.identities k x → heldIn db.identities k x)
    (hown : ∀ x, heldIn db'.identities pool.id x → ∀ q ∈ siblings db pool, x ∉ (board db).claims q.id) :
    (board db').Apart := by
  obtain ⟨customer, hcustomer⟩ := validatePool_customer hvalid
  have hself : customerOf db'.pools pool.id = some customer := by
    unfold customerOf
    rw [hget, if_pos rfl]
    exact hcustomer
  have hkeep : ∀ k, k ≠ pool.id → customerOf db'.pools k = customerOf db.pools k := fun k hk => by
    unfold customerOf
    rw [hget, if_neg hk]
  refine h.reclaim (k := pool.id) ⟨?_, ?_, ?_⟩
  · rintro a b ha hb ⟨hne, c, hca, hcb⟩
    exact ⟨hne, c, hkeep a ha ▸ hca, hkeep b hb ▸ hcb⟩
  · rintro k hk x (⟨p, hp, hx⟩ | hx)
    · rw [hget, if_neg hk] at hp
      exact Or.inl ⟨p, hp, hx⟩
    · exact Or.inr (hothers k x hk hx)
  · rintro k ⟨hne, c, hcself, hck⟩
    rw [hself] at hcself
    obtain rfl := Option.some.inj hcself
    rw [hkeep k (Ne.symm hne)] at hck
    obtain ⟨q, hq, hqc⟩ := Option.bind_eq_some_iff.mp hck
    obtain ⟨hmem, rfl⟩ := Table.get?_eq_some.mp hq
    have hsibling : q ∈ siblings db pool :=
      (mem_siblings hcustomer).mpr ⟨hmem, Ne.symm hne, hqc.trans hcustomer.symm⟩
    rw [Set.disjoint_left]
    rintro x (⟨p, hp, hx⟩ | hx)
    · rw [hget, if_pos rfl] at hp
      obtain rfl := Option.some.inj hp
      exact validatePool_apart hvalid hsibling hx
    · exact hown x hx q hsibling

/-- What the pool holds after the GIDs of the groups are registered. -/
theorem heldIn_registerGids {groups : List ProjectGroup} {k k' : ℕ} {x : Namespace × ℤ} :
    ∀ {identities : Identities}, heldIn (groups.foldl (registerGid k) identities) k' x →
      heldIn identities k' x ∨ k' = k ∧ ∃ g ∈ groups, x.1 = .gid ∧ g.gid = some x.2 := by
  induction groups with
  | nil => exact fun h => Or.inl h
  | cons g groups ih =>
    intro identities h
    rcases ih h with h | ⟨hk, g', hg', hx⟩
    · unfold registerGid at h
      split at h
      · exact Or.inl h
      next gid hgid =>
      simp only at h
      split at h
      · exact Or.inl h
      split at h
      · exact Or.inl h
      rcases heldIn_saveIdentity h with ⟨hk, -, hv⟩ | h
      · obtain ⟨c, v⟩ := x
        cases c with
        | uid => exact nomatch hv
        | gid => exact Or.inr ⟨hk.symm, g, List.mem_cons_self, rfl, hgid.trans hv⟩
      · exact Or.inl h
    · exact Or.inr ⟨hk, g', List.mem_cons_of_mem g hg', hx⟩

theorem heldIn_registerExistingGids {k : ℕ} {x : Namespace × ℤ} (h : heldIn (registerExistingGids db pool) k x) :
    heldIn db.identities k x ∨ k = pool.id ∧
      ∃ g ∈ db.groups.rows, pool.serviceProvider = some g.serviceProvider ∧ x.1 = .gid ∧ g.gid = some x.2 := by
  unfold registerExistingGids at h
  split at h
  · exact Or.inl h
  next serviceProvider hsp =>
  rcases heldIn_registerGids h with h | ⟨hk, g, hg, hx⟩
  · exact Or.inl h
  · obtain ⟨hg, hscope⟩ := List.mem_filter.mp hg
    rw [beq_iff_eq] at hscope
    exact Or.inr ⟨hk, g, hg, by rw [hsp, hscope], hx⟩

theorem isOk_of_eq {ε α : Type} {x : Except ε α} {a : α} (h : x = .ok a) : x.isOk = true := by rw [h]; rfl

theorem createPool_apart (h : (board db).Apart) (hfree : BringsFree db (.createPool pool))
    (hok : createPool db pool = .ok db') : (board db').Apart := by
  unfold createPool at hok
  split at hok
  · cases hok
  next hvalid =>
  split at hok
  · next hnew =>
    obtain ⟨hpools, hids⟩ := store_ok hok
    refine apart_put h hvalid (fun k => by rw [hpools, Table.get?_insert]) ?_ ?_
    · intro k x hk hx
      rw [hids] at hx
      rcases heldIn_registerExistingGids hx with hx | ⟨hk', -⟩
      · exact hx
      · exact absurd hk' hk
    · rintro ⟨c, v⟩ hx
      rw [hids] at hx
      rcases heldIn_registerExistingGids hx with ⟨i, hi, hpool, -⟩ | ⟨-, g, hg, hscope, hc, hgid⟩
      · have hsome := db.constraints.pool i hi
        rw [hpool, hnew] at hsome
        cases hsome
      · obtain rfl : c = .gid := hc
        exact unclaimed_iff.mp (hfree (isOk_of_eq hvalid) g hg hscope v hgid)
  · cases hok

theorem editPool_apart (h : (board db).Apart) (hfree : BringsFree db (.editPool pool))
    (hok : editPool db pool = .ok db') : (board db').Apart := by
  unfold editPool at hok
  split at hok
  · exact nomatch hok
  next hvalid =>
  split at hok
  · exact nomatch hok
  next old hold =>
  obtain ⟨hpools, hids⟩ := store_ok hok
  refine apart_put h hvalid (fun k => ?_) (fun k x _ hx => hids ▸ hx) ?_
  · rw [hpools]
    split
    · next hk =>
      rw [hk, Table.get?_update_self, hold]
      obtain ⟨-, hid⟩ := Table.get?_eq_some.mp hold
      rw [Option.map_some, hid]
    · next hk => exact Table.get?_update_ne _ _ _ hk
  · rintro ⟨c, v⟩ hx q hq
    rw [hids] at hx
    obtain ⟨customer, hcustomer⟩ := validatePool_customer hvalid
    obtain ⟨hmem, hne, hqc⟩ := (mem_siblings hcustomer).mp hq
    by_cases hsame : customerOf db.pools pool.id = pool.customer
    · -- The provider stays: the number was claimed before, so no sibling claims it.
      refine h.not_mem ⟨Ne.symm hne, customer, hsame.trans hcustomer, ?_⟩ (Or.inr hx)
      rw [customerOf_of_mem hmem, hqc, hcustomer]
    · obtain ⟨i, hi, hpool, hactive, hv⟩ := hx
      exact unclaimed_iff.mp
        (hfree (isOk_of_eq hvalid) hsame i hi hpool hactive c (Namespace.mem_all c) v hv) q hq

theorem setProjectGroupGid_apart {group : ℕ} {g : ProjectGroup} {value : ℤ} {allowOutsideRange : Bool}
    (h : (board db).Apart) (hfree : BringsFree db (.setProjectGroupGid group value allowOutsideRange))
    (hg : db.groups.get? group = some g) (hok : setProjectGroupGid db g value allowOutsideRange = .ok db') :
    (board db').Apart := by
  rcases setProjectGroupGid_ok hok with hwithin | ⟨pool, hpool, hpin⟩
  · exact h.within hwithin
  have hself : customerOf db.pools pool.id = pool.customer := customerOf_of_mem hpin.mem
  refine h.reclaim (k := pool.id) ⟨?_, ?_, ?_⟩
  · rintro a b - - ⟨hne, c, hca, hcb⟩
    exact ⟨hne, c, (hpin.scopes a).1 ▸ hca, (hpin.scopes b).1 ▸ hcb⟩
  · rintro k hk x (hx | hx)
    · exact Or.inl ((hpin.scopes k).2 x hx)
    · rcases hpin.held k x hx with hx | ⟨hk', -⟩
      · exact Or.inr hx
      · exact absurd hk' hk
  · rintro k ⟨hne, c, hcself, hck⟩
    rw [(hpin.scopes pool.id).1] at hcself
    rw [(hpin.scopes k).1] at hck
    have hrival : (board db).rival pool.id k := ⟨hne, c, hcself, hck⟩
    rw [Set.disjoint_left]
    rintro x hx
    have hcase : x ∈ (board db).claims pool.id ∨ x = (.gid, value) := by
      rcases hx with hx | hx
      · exact Or.inl (Or.inl ((hpin.scopes pool.id).2 x hx))
      · rcases hpin.held pool.id x hx with hx | ⟨-, hx⟩
        · exact Or.inl (Or.inr hx)
        · exact Or.inr hx
    rcases hcase with hx | rfl
    · exact h.not_mem hrival hx
    obtain ⟨q, hq, hqc⟩ := Option.bind_eq_some_iff.mp hck
    obtain ⟨hmem, rfl⟩ := Table.get?_eq_some.mp hq
    have hsame : q.customer = pool.customer := by rw [hqc, ← hself, hcself]
    rintro (hrange | ⟨i, hi, hipool, hactive, hv⟩)
    · have hnone := hpin.ranges q hmem (Ne.symm hne) hsame
      rw [(inRange_of_mem hmem).mp hrange] at hnone
      exact nomatch hnone
    · have hicustomer : customerOf db.pools i.pool = pool.customer := by
        rw [hipool, customerOf_of_mem hmem, hsame]
      have hprincipal := hpin.holders i hi hactive hv hicustomer
      have hown := hfree g hg pool hpool i hi hprincipal hactive hv hicustomer
      exact hne (hown.symm.trans hipool)

end Brought

/-! ## Runs -/

section Run

variable {db db' : Db}

theorem allocateProjectGroupGid_within {group : ProjectGroup} {v : Option ℤ}
    (h : allocateProjectGroupGid db group = .ok (db', v)) : (board db').Within (board db) := by
  unfold allocateProjectGroupGid at h
  split at h
  · obtain ⟨rfl, -⟩ := Prod.mk.inj (Except.ok.inj h)
    exact Board.Within.refl _
  next pool hpool =>
  split at h
  · obtain ⟨rfl, -⟩ := Prod.mk.inj (Except.ok.inj h)
    exact Board.Within.refl _
  · obtain ⟨⟨db₁, value⟩, halloc, heq⟩ := map_eq_ok.mp h
    obtain ⟨rfl, -⟩ := Prod.mk.inj heq
    exact allocateInPool_within (providerPool_mem hpool).1 halloc

theorem allocateGid_within {group : ProjectGroup} (h : allocateGid db group = .ok db') :
    (board db').Within (board db) := by
  unfold allocateGid at h
  split at h
  · obtain rfl := Except.ok.inj h
    exact Board.Within.refl _
  split at h
  · exact nomatch h
  · next db₁ halloc =>
    obtain rfl := Except.ok.inj h
    exact allocateProjectGroupGid_within halloc
  · next db₁ gid halloc =>
    obtain rfl := Except.ok.inj h
    have hwithin := allocateProjectGroupGid_within halloc
    exact hwithin

/-- Each operation keeps the claims of rivals apart. -/
theorem apply_apart {op : Op} (h : (board db).Apart) (hfree : BringsFree db op) (hok : apply db op = .ok db') :
    (board db').Apart := by
  cases op with
  | createPool pool => exact createPool_apart h hfree hok
  | editPool pool => exact editPool_apart h hfree hok
  | allocate offering c consumer =>
    obtain ⟨⟨db₁, v⟩, halloc, rfl⟩ := map_eq_ok.mp hok
    exact h.within (allocate_within halloc)
  | setValue consumer c value offering => exact h.within (setValue_within hok)
  | allocateProjectGroupGid group =>
    simp only [apply] at hok
    split at hok
    · exact h.within (allocateGid_within hok)
    · cases hok
  | setProjectGroupGid group value allowOutsideRange =>
    simp only [apply] at hok
    split at hok
    · next g hg => exact setProjectGroupGid_apart h hfree hg hok
    · cases hok
  | releasePosixAllocations consumer inUse => exact h.within (releasePosixAllocations_within hok)
  | releaseUserAllocations user recyclable inUse => exact h.within (release_within hok)
  | releaseProjectGroupGid group =>
    simp only [apply] at hok
    split at hok
    · exact h.within (release_within hok)
    · cases hok

theorem step_apart {op : Op} (h : (board db).Apart) (hfree : BringsFree db op) : (board (step db op)).Apart := by
  unfold step
  split
  · next db' hok => exact apply_apart h hfree hok
  · exact h

theorem run_apart {ops : List Op} (h : (board db).Apart) (hfree : Along step BringsFree db ops) :
    (board (run step db ops)).Apart :=
  have hstep : ∀ (db : Db) (op : Op), (board db).Apart → BringsFree db op → (board (step db op)).Apart :=
    fun _ _ => step_apart
  run_invariant_along hstep ops db h hfree

/-- In a ledger without pools and identities nothing is claimed. -/
theorem apart_of_empty (hpools : db.pools.rows = []) : (board db).Apart := by
  rintro a b ⟨-, customer, ha, -⟩
  obtain ⟨p, hp, -⟩ := Option.bind_eq_some_iff.mp ha
  have hmem := (Table.get?_eq_some.mp hp).1
  rw [hpools] at hmem
  exact absurd hmem List.not_mem_nil

/-- Of the active identities in the pools of a provider no two carry one number of a column. -/
def UniquePerProvider (db : Db) : Prop :=
  ∀ customer, ∀ p ∈ providerPools db customer, ∀ q ∈ providerPools db customer,
    ∀ i ∈ db.identities.rows, ∀ j ∈ db.identities.rows, i.pool = p.id → j.pool = q.id →
      i.released = false → j.released = false → ∀ c v, i.value c = some v → j.value c = some v → i = j

/-- A number taken by counting lies within the bounds of the pool. -/
def CountsWithinBounds (db : Db) : Prop :=
  ∀ pool ∈ db.pools.rows, ∀ r recycle v, candidateValue db pool r recycle = (some v, true) →
    (pool.range r).holds v = true

theorem unique_of_apart (h : (board db).Apart) : UniquePerProvider db := by
  intro customer p hp q hq i hi j hj hip hjq hiactive hjactive c v hiv hjv
  by_cases hpq : p.id = q.id
  · -- One pool: the unique constraint over its active rows.
    refine db.identities.eq_of_key_eq hi hj (db.constraints.active i hi j hj
      ⟨hiactive, hjactive, by rw [hip, hjq, hpq], Or.inr ⟨c, Namespace.mem_all c, ?_, hiv.trans hjv.symm⟩⟩)
    rw [hiv]
    rfl
  · have hpmem := (List.mem_filter.mp hp).1
    have hqmem := (List.mem_filter.mp hq).1
    have hrival : (board db).rival p.id q.id := by
      refine ⟨hpq, customer, ?_, ?_⟩
      · rw [customerOf_of_mem hpmem, (mem_providerPools hpmem).mp hp]
      · rw [customerOf_of_mem hqmem, (mem_providerPools hqmem).mp hq]
    have hclaim : (c, v) ∈ (board db).claims p.id := Or.inr ⟨i, hi, hip, hiactive, hiv⟩
    exact absurd (Or.inr ⟨j, hj, hjq, hjactive, hjv⟩) (h.not_mem hrival hclaim)

theorem countsWithinBounds (db : Db) : CountsWithinBounds db := by
  intro pool hpool r recycle v hv
  have hchecked := (db.constraints.checked pool hpool).2.2 r (RangeName.mem_all r)
  exact candidateValue_holds hchecked (by rw [hv])

/-- **Unique numbers**: from an empty ledger, along every run whose operations bring only free numbers into
a pool, no number is held twice under one provider and every counted number is within bounds. -/
theorem numbers_unique_per_provider (db : Db) (ops : List Op) (hpools : db.pools.rows = [])
    (hfree : Along step BringsFree db ops) :
    UniquePerProvider (run step db ops) ∧ CountsWithinBounds (run step db ops) :=
  ⟨unique_of_apart (run_apart (apart_of_empty hpools) hfree), countsWithinBounds _⟩

/-- A ledger with the project groups given and nothing else. -/
def emptyLedger (groups : List ProjectGroup) (h : (groups.map (·.id)).Nodup) : Db where
  pools := Table.empty
  identities := Table.empty
  groups := ⟨groups, h⟩
  constraints := by decide

private def user (id : ℕ) : Consumer := { contentType := .offeringUser, id := id, user := id }

/-- An offering's pool for UIDs. -/
private def uidPool (id offering customer : ℕ) (min max : ℤ) : Pool :=
  { id := id, offering := some ⟨offering, customer, true, true, true⟩,
    uid := ⟨some min, some max, some min⟩ }

private def providerPoolOfX : Pool where
  id := 1
  serviceProvider := some ⟨1, 10⟩
  uid := ⟨some 1000, some 2000, some 1000⟩
  gid := ⟨some 5000, some 6000, some 5000⟩

/-- A provider's pool and the pool of one of its offerings hand out numbers, the group is pinned outside the
range, and the second pool is moved before it has handed out any. -/
def ordinaryRun : List Op :=
  [.createPool providerPoolOfX,
    .createPool (uidPool 2 2 10 3000 4000),
    .allocate ⟨1, 10, true, true, true⟩ .uid (user 7),
    .allocateProjectGroupGid 1,
    .setProjectGroupGid 1 9000 true,
    .editPool (uidPool 2 3 20 1000 2000),
    .allocate ⟨3, 20, true, true, true⟩ .uid (user 7)]

theorem ordinary_numbers_unique :
    (run step (emptyLedger [⟨1, ⟨1, 10⟩, none⟩] (by decide)) ordinaryRun).identities.rows.map
        (fun i => (i.pool, i.uid, i.gid, i.released)) =
      [(1, some 1000, none, false), (1, none, some 5000, true), (1, none, some 9000, false),
        (2, some 1000, none, false)] ∧
    UniquePerProvider (run step (emptyLedger [⟨1, ⟨1, 10⟩, none⟩] (by decide)) ordinaryRun) ∧
      CountsWithinBounds (run step (emptyLedger [⟨1, ⟨1, 10⟩, none⟩] (by decide)) ordinaryRun) :=
  ⟨by decide +kernel, numbers_unique_per_provider _ _ rfl (by decide +kernel)⟩

/-- A pool has issued 1000, moves its range away and then to another provider, whose pool has issued 1000 too. -/
def movedPool : List Op :=
  [.createPool (uidPool 1 1 10 1000 2000),
    .allocate ⟨1, 10, true, true, true⟩ .uid (user 7),
    .editPool (uidPool 1 1 10 3000 4000),
    .createPool (uidPool 2 3 20 1000 2000),
    .allocate ⟨3, 20, true, true, true⟩ .uid (user 8),
    .editPool (uidPool 1 2 20 3000 4000)]

theorem moved_pool_repeats_number :
    ¬ ∀ (db : Db) (ops : List Op), db.pools.rows = [] → db.identities.rows = [] →
      UniquePerProvider (run step db ops) ∧ CountsWithinBounds (run step db ops) := by
  intro h
  have hunique := (h (emptyLedger [] (by decide)) movedPool rfl rfl).1
  have hequal := hunique 20 (uidPool 1 2 20 3000 4000) (by decide +kernel)
    { uidPool 2 3 20 1000 2000 with uid := ⟨some 1000, some 2000, some 1001⟩ } (by decide +kernel)
    ⟨1, 1, .user 7, some 1000, none, false, true⟩ (by decide +kernel)
    ⟨2, 2, .user 8, some 1000, none, false, true⟩ (by decide +kernel) rfl rfl rfl rfl .uid 1000 rfl rfl
  exact nomatch congrArg Identity.id hequal

end Run

end Waldur.PosixIds
