import Mathlib
import Waldur.Marketplace.PosixDepartures

/-!
# Marketplace.PosixWithheld — numbers that left their holder stay out

A number is withheld in the row of one pool.  `set_value` overwrites the number of an identity in place and
leaves no such row, and a withheld row is read for its own pool only: `StaysOut` says what has to hold at each
override, release and edit for a number that left to stay out.
-/

namespace Waldur.PosixIds

open Relational Runs

/-! ## Where numbers that left stay out -/

/-- The rows that an operation releases, each with whether it may be recycled. -/
def releasedBy (db : Db) : Op → List (Identity × Bool)
  | .releasePosixAllocations consumer inUse =>
    (db.identities.rows.filter fun i => !i.released &&
        i.principal == .consumer consumer.contentType consumer.id).map (fun i => (i, i.recyclable)) ++
      if consumer.isAccount then
        (db.identities.rows.filter fun i => !i.released &&
          (i.principal == .user consumer.user && !inUse.contains i.pool)).map (·, true)
      else []
  | .releaseUserAllocations user recyclable inUse =>
    (db.identities.rows.filter fun i => !i.released &&
      (i.principal == .user user && !inUse.contains i.pool)).map (·, recyclable)
  | .releaseProjectGroupGid group =>
    match db.groups.get? group with
    | some group => (db.identities.rows.filter fun i => !i.released &&
        i.principal == .consumer .serviceProviderProjectGroup group.id).map (·, false)
    | none => []
  | _ => []

/-- The numbers of the rows that an operation releases as withheld. -/
def withheldBy (db : Db) (op : Op) : List Holding :=
  ((releasedBy db op).filter (!·.2)).flatMap fun x => Namespace.all.filterMap (holdingOf db.pools x.1)

/-- A number that is released as withheld is one that no other pool of the provider could hand out, and a number
that left is not released for recycling where its pool could hand it out. -/
def ReleasesSafely (s : Ledger) (op : Op) : Prop :=
  ∀ x ∈ releasedBy s.db op, ∀ c ∈ Namespace.all, ∀ y ∈ holdingOf s.db.pools x.1 c,
    (x.2 = false → someIssues s.db y.customer c y.value [x.1.pool] = false) ∧
      (x.2 = true → (∃ z ∈ s.gone ++ withheldBy s.db op, z.customer = y.customer ∧ z.column = c ∧ z.value = y.value) →
        recallable s.db x.1.pool c y.value = false)

instance (s : Ledger) (op : Op) : Decidable (ReleasesSafely s op) := by
  unfold ReleasesSafely
  infer_instance

/-- **What keeps out the numbers that left**: a number overwritten in place is one that no pool of the provider
could hand out, a GID withheld for a group one that no other pool could; releases are safe; a pool is not
created or edited so that it could hand out a number that left; and where a row that withholds such a number is
returned, the pool has another one or no range for it. -/
def StaysOut (s : Ledger) : LedgerOp → Prop
  | .op (.setValue consumer c value offering) => ∀ pool ∈ resolve s.db offering,
      (pool.range c.range).holds value = true → (activeValues s.db pool.id c).contains value = false →
        ∀ i ∈ activeIdentity s.db pool.id consumer.principal, ∀ w ∈ i.value c,
          ∀ customer ∈ pool.customer, someIssues s.db customer c w [] = false
  | .op (.setProjectGroupGid group value _) => ∀ g ∈ s.db.groups.get? group,
      ∀ pool ∈ providerPool s.db g.serviceProvider, ∀ i ∈ activeIdentity s.db pool.id g.consumer.principal,
        i.gid.isSome = true → i.gid ≠ some value →
          ∀ c ∈ Namespace.all, ∀ y ∈ holdingOf s.db.pools i c, someIssues s.db y.customer c y.value [pool.id] = false
  | .op (.createPool pool) | .op (.editPool pool) => (validatePool s.db pool).isOk = true →
      ∀ y ∈ s.gone, pool.customer = some y.customer → canIssue s.db pool y.column y.value = false
  | .op op => ReleasesSafely s op
  | .returnValuesToThePool selected => ∀ i ∈ s.db.identities.rows.filter (returned selected),
      ∀ c ∈ Namespace.all, ∀ y ∈ holdingOf s.db.pools i c,
        (∃ z ∈ s.gone, (returns s.db selected).contains z = false ∧
          z.customer = y.customer ∧ z.column = c ∧ z.value = y.value) →
        (columnValues s.db i.pool c fun j => j.released && !j.recyclable && !selected.contains j.id).contains y.value =
            true ∨
          (s.db.pools.get? i.pool).all (fun p => !p.holds c y.value) = true

instance (s : Ledger) : (op : LedgerOp) → Decidable (StaysOut s op)
  | .op (.createPool _) | .op (.editPool _) | .op (.allocate _ _ _) | .op (.setValue _ _ _ _)
  | .op (.allocateProjectGroupGid _) | .op (.setProjectGroupGid _ _ _) | .op (.releasePosixAllocations _ _)
  | .op (.releaseUserAllocations _ _ _) | .op (.releaseProjectGroupGid _) | .returnValuesToThePool _ => by
    dsimp only [StaysOut]
    infer_instance

/-! ## Each operation keeps the numbers out -/

section Kept

/-- No pool of the provider could hand out a number that left. -/
def Kept (s : Ledger) : Prop :=
  ∀ y ∈ s.gone, someIssues s.db y.customer y.column y.value [] = false

variable {s : Ledger} {db db' : Db} {op : Op} {ids ids' : Identities} {c : Namespace} {v : ℤ}

theorem kept_iff : Kept s ↔ ∀ y ∈ s.gone, ∀ p ∈ s.db.pools.rows, p.customer = some y.customer →
    canIssue s.db p y.column y.value = false := by
  unfold Kept
  refine forall₂_congr fun y _ => ?_
  rw [someIssues_eq_false]
  exact forall₃_congr fun p _ _ => by simp

/-- The marks of the pools are kept, and the released rows; a pool that is new cannot issue what left, and a
number that leaves now is withheld in each pool that could issue it. -/
theorem kept_of_writes (h : Kept s) (hrows : KeepsReleased s.db.identities db'.identities)
    (hpools : ∀ p' ∈ db'.pools.rows, (∃ p ∈ s.db.pools.rows, MarkKept p' p) ∨
      (∀ y ∈ s.gone, p'.customer = some y.customer → canIssue s.db p' y.column y.value = false) ∧
        departures s.db db'.identities = [])
    (hgone : ∀ y ∈ departures s.db db'.identities, ∀ p ∈ s.db.pools.rows, p.customer = some y.customer →
      canIssue s.db p y.column y.value = false ∨ y.value ∈ withheldValues db' p.id y.column) :
    Kept ⟨db', s.gone ++ departures s.db db'.identities⟩ := by
  rw [kept_iff] at h ⊢
  intro y hy p' hp' hcustomer
  by_contra hissues
  rw [Bool.not_eq_false] at hissues
  have hback : ∀ p, MarkKept p' p → canIssue s.db p y.column y.value = true := fun p hkept =>
    canIssue_mono hkept hrows.recyclable hrows.withheld hissues
  rcases hpools p' hp' with ⟨p, hp, hkept⟩ | ⟨hnew, hnone⟩
  · have hbefore := hback p hkept
    rcases List.mem_append.mp hy with hold | hleft
    · rw [h y hold p hp (hkept.customer ▸ hcustomer)] at hbefore
      exact nomatch hbefore
    · rcases hgone y hleft p hp (hkept.customer ▸ hcustomer) with hno | hwithheld
      · rw [hno] at hbefore
        exact nomatch hbefore
      · exact (canIssue_iff.mp hissues).1 (hkept.id ▸ hwithheld)
  · have hbefore := hback p' (MarkKept.refl p')
    rw [hnone, List.append_nil] at hy
    rw [hnew y hy hcustomer] at hbefore
    exact nomatch hbefore

theorem Handed.kept {pool : Pool} {principal : Principal} (h : Kept s)
    (hhanded : Handed s.db db' pool c v principal) : Kept ⟨db', s.gone ++ departures s.db db'.identities⟩ := by
  refine kept_of_writes h ?_ (fun p' hp' => Or.inl (hhanded.marks p' hp')) fun y hy => ?_
  · rw [hhanded.rows]
    exact keepsReleased_give _ _ _ _
  · rw [hhanded.rows] at hy
    obtain ⟨-, -, i, hsome, hholding⟩ := departures_give hy
    have hvalue := (holdingOf_eq_some.mp hholding).2.1
    have hempty := hhanded.empty
    unfold getOrCreateActiveIdentity at hempty
    rw [hsome, Option.getD_some, hvalue] at hempty
    exact nomatch hempty

/-- Every row stays, and the new ones are active. -/
structure Extends (ids ids' : Identities) : Prop where
  stay : ∀ i ∈ ids.rows, i ∈ ids'.rows
  fresh : ∀ i ∈ ids'.rows, i ∈ ids.rows ∨ i.released = false

theorem Extends.refl (ids : Identities) : Extends ids ids := ⟨fun _ h => h, fun _ h => Or.inl h⟩

theorem Extends.trans {ids'' : Identities} (h : Extends ids ids') (h' : Extends ids' ids'') : Extends ids ids'' := by
  refine ⟨fun i hi => h'.stay i (h.stay i hi), fun i hi => ?_⟩
  rcases h'.fresh i hi with hi | hactive
  · exact h.fresh i hi
  · exact Or.inr hactive

theorem extends_save {j : Identity} (hnew : ∀ i ∈ ids.rows, i.id ≠ j.id) (hj : j.released = false) :
    Extends ids (saveIdentity ids j) := by
  constructor
  · intro i hi
    have hget : (saveIdentity ids j).get? i.id = some i := by
      rw [get?_saveIdentity, if_neg (hnew i hi)]
      exact Table.get?_eq_some.mpr ⟨hi, rfl⟩
    exact (Table.get?_eq_some.mp hget).1
  · intro i hi
    rcases mem_saveIdentity hi with rfl | hi
    · exact Or.inr hj
    · exact Or.inl hi

theorem Extends.keepsReleased (h : Extends ids ids') : KeepsReleased ids ids' := by
  refine ⟨fun i hi _ => h.stay i hi, fun i hi hr => ?_⟩
  rcases h.fresh i hi with hi | hactive
  · exact Or.inl hi
  · rw [hr] at hactive
    exact nomatch hactive

theorem Extends.departures_eq_nil (h : Extends db.identities ids') : departures db ids' = [] := by
  refine List.eq_nil_iff_forall_not_mem.mpr fun y hy => ?_
  obtain ⟨i, hi, hactive, hleaves, -⟩ := mem_departures.mp hy
  unfold leaves at hleaves
  rw [Table.get?_eq_some.mpr ⟨h.stay i hi, rfl⟩, Option.any_some, hactive] at hleaves
  simp at hleaves

theorem kept_of_extends (h : Kept s) (hrows : Extends s.db.identities db'.identities)
    (hpools : ∀ p' ∈ db'.pools.rows, (∃ p ∈ s.db.pools.rows, MarkKept p' p) ∨
      ∀ y ∈ s.gone, p'.customer = some y.customer → canIssue s.db p' y.column y.value = false) :
    Kept ⟨db', s.gone ++ departures s.db db'.identities⟩ := by
  refine kept_of_writes h hrows.keepsReleased (fun p' hp' => ?_) fun y hy => ?_
  · rcases hpools p' hp' with hkept | hnew
    · exact Or.inl hkept
    · exact Or.inr ⟨hnew, hrows.departures_eq_nil⟩
  · rw [hrows.departures_eq_nil] at hy
    exact absurd hy List.not_mem_nil

theorem registerExistingGids_extends (db : Db) (pool : Pool) : Extends db.identities (registerExistingGids db pool) := by
  have hstep : ∀ (ids : Identities) (g : ProjectGroup), Extends ids (registerGid pool.id ids g) := by
    intro ids g
    unfold registerGid
    split
    · exact Extends.refl _
    simp only
    split
    · exact Extends.refl _
    split
    · exact Extends.refl _
    · exact extends_save (fun i hi => freshId_unused hi) rfl
  have hfold : ∀ (groups : List ProjectGroup) (ids : Identities),
      Extends ids (groups.foldl (registerGid pool.id) ids) := by
    intro groups
    induction groups with
    | nil => exact Extends.refl
    | cons g groups ih => exact fun ids => (hstep ids g).trans (ih _)
  unfold registerExistingGids
  split
  · exact Extends.refl _
  · exact hfold _ _

theorem createPool_kept {pool : Pool} (h : Kept s) (hout : StaysOut s (.op (.createPool pool)))
    (hok : createPool s.db pool = .ok db') : Kept ⟨db', s.gone ++ departures s.db db'.identities⟩ := by
  unfold createPool at hok
  split at hok
  · cases hok
  next hvalid =>
  split at hok
  · obtain ⟨hpools, hids⟩ := store_ok hok
    refine kept_of_extends h (hids ▸ registerExistingGids_extends s.db pool) fun p' hp' => ?_
    rw [hpools] at hp'
    rcases List.mem_append.mp hp' with hp' | hp'
    · exact Or.inl ⟨p', hp', MarkKept.refl p'⟩
    · obtain rfl := List.mem_singleton.mp hp'
      exact Or.inr (hout (isOk_of_eq hvalid))
  · cases hok

theorem editPool_kept {pool : Pool} (h : Kept s) (hout : StaysOut s (.op (.editPool pool)))
    (hok : editPool s.db pool = .ok db') : Kept ⟨db', s.gone ++ departures s.db db'.identities⟩ := by
  unfold editPool at hok
  split at hok
  · exact nomatch hok
  next hvalid =>
  split at hok
  · exact nomatch hok
  obtain ⟨hpools, hids⟩ := store_ok hok
  refine kept_of_extends h (hids ▸ Extends.refl _) fun p' hp' => ?_
  rw [hpools] at hp'
  obtain ⟨p, hp, rfl⟩ := Table.mem_update.mp hp'
  by_cases hid : p.id = pool.id
  · rw [if_pos hid, hid]
    exact Or.inr (hout (isOk_of_eq hvalid))
  · rw [if_neg hid]
    exact Or.inl ⟨p, hp, MarkKept.refl p⟩

/-- A number that is written to another row of the pool is not written here. -/
theorem activeValues_of_give {pool : Pool} {principal : Principal}
    (hne : (getOrCreateActiveIdentity db pool.id principal).value c ≠ some v)
    (hstore : db.store db.pools
      (saveIdentity db.identities ((getOrCreateActiveIdentity db pool.id principal).setValue v c)) = .ok db') :
    v ∉ activeValues db pool.id c := by
  intro hv
  obtain ⟨j, hj, hpool, hactive, hvalue⟩ := mem_columnValues.mp hv
  obtain ⟨-, hids⟩ := store_ok hstore
  have hid : j.id ≠ (getOrCreateActiveIdentity db pool.id principal).id := fun hid => by
    rw [← (getOrCreate_over hj hid).1] at hne
    exact hne hvalue
  have hmem : ∀ k i, (saveIdentity db.identities
      ((getOrCreateActiveIdentity db pool.id principal).setValue v c)).get? k = some i → i ∈ db'.identities.rows :=
    fun k i hget => hids ▸ (Table.get?_eq_some.mp hget).1
  have hj' : j ∈ db'.identities.rows := hmem j.id j (by
    rw [get?_saveIdentity, id_setValue, if_neg hid]
    exact Table.get?_eq_some.mpr ⟨hj, rfl⟩)
  have hgiven : (getOrCreateActiveIdentity db pool.id principal).setValue v c ∈ db'.identities.rows :=
    hmem _ _ (by rw [get?_saveIdentity, if_pos rfl])
  refine hid ((db'.constraints.active j hj' _ hgiven ⟨by simpa using hactive, ?_, ?_, ?_⟩).trans (id_setValue _ _ _))
  · rw [released_setValue, getOrCreate_active]
  · rw [pool_setValue, getOrCreate_pool, hpool]
  · refine Or.inr ⟨c, Namespace.mem_all c, by rw [hvalue]; rfl, ?_⟩
    rw [hvalue, value_setValue, if_pos rfl]

theorem setValue_kept {consumer : Consumer} {offering : Offering} (h : Kept s)
    (hout : StaysOut s (.op (.setValue consumer c v offering)))
    (hok : setValue s.db consumer c v offering = .ok db') :
    Kept ⟨db', s.gone ++ departures s.db db'.identities⟩ := by
  unfold setValue at hok
  split at hok
  · exact nomatch hok
  next pool hresolve =>
  split at hok
  · exact nomatch hok
  split at hok
  · exact nomatch hok
  next hholds =>
  simp only at hok
  split at hok
  · obtain rfl := Except.ok.inj hok
    exact kept_of_extends h (Extends.refl _) fun p hp => Or.inl ⟨p, hp, MarkKept.refl p⟩
  next hne =>
  split at hok
  · next db₁ hstore =>
    obtain rfl := Except.ok.inj hok
    obtain ⟨hpools, hids⟩ := store_ok hstore
    have hfree := activeValues_of_give hne hstore
    refine kept_of_writes h (hids ▸ keepsReleased_give _ _ _ _)
      (fun p' hp' => Or.inl ⟨p', hpools ▸ hp', MarkKept.refl p'⟩) fun y hy p hp hcustomer => Or.inl ?_
    rw [hids] at hy
    obtain ⟨hc, -, i, hsome, hholding⟩ := departures_give hy
    obtain ⟨-, hvalue, hscope, -⟩ := holdingOf_eq_some.mp hholding
    rw [(activeIdentity_some hsome).2.1, customerOf_of_mem (resolve_mem hresolve)] at hscope
    have hno := hout pool hresolve (by simpa using hholds) (by simpa using hfree) i hsome y.value hvalue
      y.customer hscope
    rw [hc]
    exact someIssues_eq_false.mp hno p hp hcustomer List.not_mem_nil
  · exact nomatch hok

/-- A GID is pinned on a row that has none: no number of the rows before leaves. -/
theorem savePinned_rows (pool : ℕ) (group : ProjectGroup) {identity : Option Identity}
    (hidentity : ∀ i, identity = some i → i ∈ ids.rows ∧ i.released = false ∧ i.gid = none) :
    KeepsReleased ids (savePinned ids pool group identity v) ∧
      ∀ i ∈ ids.rows, i.released = false → leaves (savePinned ids pool group identity v) i c = true →
        i.value c = none := by
  unfold savePinned
  cases identity with
  | none =>
    have hextends : Extends ids (saveIdentity ids { group.identity (freshId ids) pool none false with gid := some v }) :=
      extends_save (fun i hi => freshId_unused hi) rfl
    refine ⟨hextends.keepsReleased, fun i hi hactive hleaves => ?_⟩
    exact absurd (leaves_saveIdentity hi hactive hleaves).1 (freshId_unused hi)
  | some j =>
    obtain ⟨hj, hjactive, hgid⟩ := hidentity j rfl
    have hover : ∀ i ∈ ids.rows, i.id = j.id → i = j := fun i hi hid => ids.eq_of_key_eq hi hj hid
    refine ⟨keepsReleased_save (fun i hi hid => (hover i hi hid).symm ▸ hjactive)
      (fun hr => nomatch hjactive.symm.trans hr), fun i hi hactive hleaves => ?_⟩
    obtain ⟨hid, hchanged⟩ := leaves_saveIdentity hi hactive hleaves
    obtain rfl := hover i hi hid
    cases c with
    | gid => exact hgid
    | uid => simp [hjactive, Identity.value] at hchanged

/-- The row that holds the GID before is released as withheld; no other one changes. -/
theorem withholdPrevious_rows (db : Db) (pool : ℕ) (group : ProjectGroup) (previous : Option ℤ) :
    let identity := activeIdentity db pool group.consumer.principal
    let written := withholdPrevious db.identities pool group identity previous
    KeepsReleased db.identities written.1 ∧
      (∀ i, written.2 = some i → i ∈ written.1.rows ∧ i.released = false ∧ i.gid = none) ∧
      ∀ i ∈ db.identities.rows, i ∈ written.1.rows ∨
        identity = some i ∧ i.gid.isSome = true ∧ { i with released := true, recyclable := false } ∈ written.1.rows := by
  intro identity written
  have hkept : ∀ i, (activeIdentity db pool group.consumer.principal).filter (·.gid.isSome) ≠ some i →
      activeIdentity db pool group.consumer.principal = some i → i.gid = none := by
    intro i hnot hsome
    rw [hsome, Option.filter_some] at hnot
    cases hgid : i.gid with
    | none => rfl
    | some w => exact absurd (if_pos (by rw [hgid]; rfl)) hnot
  unfold written withholdPrevious
  split
  · next held hheld =>
    obtain ⟨hsome, hgid⟩ := Option.filter_eq_some_iff.mp hheld
    obtain ⟨hmem, -, hactive, -⟩ := activeIdentity_some hsome
    refine ⟨keepsReleased_save (fun i hi hid => ?_) fun _ => rfl, nofun, fun i hi => ?_⟩
    · exact (db.identities.eq_of_key_eq hi hmem hid).symm ▸ hactive
    · by_cases hid : i.id = held.id
      · obtain rfl := db.identities.eq_of_key_eq hi hmem hid
        refine Or.inr ⟨hsome, hgid, (Table.get?_eq_some (k := i.id).mp ?_).1⟩
        rw [get?_saveIdentity, if_pos rfl]
      · refine Or.inl (Table.get?_eq_some (k := i.id).mp ?_).1
        rw [get?_saveIdentity, if_neg hid]
        exact Table.get?_eq_some.mpr ⟨hi, rfl⟩
  · next hnot =>
    have hrows : ∀ i ∈ db.identities.rows, i.id ≠ freshId db.identities := fun i hi => freshId_unused hi
    have hstay : ∀ (j : Identity) i, j.id = freshId db.identities → i ∈ db.identities.rows →
        i ∈ (saveIdentity db.identities j).rows := fun j i hj hi => (Table.get?_eq_some (k := i.id).mp (by
      rw [get?_saveIdentity, hj, if_neg (hrows i hi)]
      exact Table.get?_eq_some.mpr ⟨hi, rfl⟩)).1
    refine ⟨keepsReleased_save (fun i hi hid => absurd hid (hrows i hi)) fun _ => rfl, fun i hi => ?_,
      fun i hi => Or.inl (hstay _ i rfl hi)⟩
    obtain ⟨hmem, -, hactive, -⟩ := activeIdentity_some hi
    exact ⟨hstay _ i rfl hmem, hactive, hkept i (by rw [hnot]; nofun) hi⟩
  · next hnot =>
    refine ⟨KeepsReleased.refl _, fun i hi => ?_, fun i hi => Or.inl hi⟩
    obtain ⟨hmem, -, hactive, -⟩ := activeIdentity_some hi
    exact ⟨hmem, hactive, hkept i (by rw [hnot]; nofun) hi⟩

theorem setProjectGroupGid_kept {group : ℕ} {g : ProjectGroup} {allowOutsideRange : Bool} (h : Kept s)
    (hout : StaysOut s (.op (.setProjectGroupGid group v allowOutsideRange))) (hg : s.db.groups.get? group = some g)
    (hok : setProjectGroupGid s.db g v allowOutsideRange = .ok db') :
    Kept ⟨db', s.gone ++ departures s.db db'.identities⟩ := by
  unfold setProjectGroupGid at hok
  split at hok
  · exact nomatch hok
  next pool hpool =>
  split at hok
  · exact nomatch hok
  split at hok
  · exact nomatch hok
  simp only at hok
  split at hok
  · exact nomatch hok
  · exact nomatch hok
  split at hok
  · exact nomatch hok
  split at hok
  · split at hok
    · obtain rfl := Except.ok.inj hok
      exact kept_of_extends h (Extends.refl _) fun p hp => Or.inl ⟨p, hp, MarkKept.refl p⟩
    · obtain ⟨hpools, hids⟩ := store_ok hok
      refine kept_of_extends h (hids ▸ extends_save (fun i hi => freshId_unused hi) rfl) fun p hp => ?_
      exact Or.inl ⟨p, hpools ▸ hp, MarkKept.refl p⟩
  next hprevious =>
  split at hok
  · next db₁ hstore =>
    obtain rfl := Except.ok.inj hok
    obtain ⟨hpools, hids⟩ := store_ok hstore
    obtain ⟨hreleased, hidentity, hrows⟩ := withholdPrevious_rows s.db pool.id g
      (((activeIdentity s.db pool.id g.consumer.principal).bind (·.gid)).orElse fun _ => g.gid)
    have hpinned := fun c => @savePinned_rows _ c v pool.id g _ hidentity
    refine @kept_of_writes s (db₁.setGroupGid g.id v) h (hids ▸ hreleased.trans (hpinned .gid).1)
      (fun p' hp' => Or.inl ⟨p', hpools ▸ hp', MarkKept.refl p'⟩) fun y hy p hp hcustomer => ?_
    obtain ⟨i, hi, hactive, hleaves, hholding⟩ := mem_departures.mp hy
    obtain ⟨-, hvalue, -⟩ := holdingOf_eq_some.mp hholding
    have hnew : db₁.identities.rows = (savePinned _ pool.id g _ v).rows := congrArg Table.rows hids
    rcases hrows i hi with hi | ⟨hsome, hgid, hwithheld⟩
    · have hleaves' : leaves (savePinned _ pool.id g _ v) i y.column = true := hids ▸ hleaves
      rw [(hpinned y.column).2 i hi hactive hleaves'] at hvalue
      exact nomatch hvalue
    · have hne : i.gid ≠ some v := by
        rw [hsome] at hprevious
        intro hsame
        exact hprevious (by rw [Option.bind_some, hsame]; rfl)
      have hno := hout g hg pool hpool i hsome hgid hne y.column (Namespace.mem_all _) y hholding
      by_cases hid : p.id = pool.id
      · right
        refine mem_withheld.mpr ⟨{ i with released := true, recyclable := false }, ?_, ?_, ⟨rfl, rfl⟩, ?_⟩
        · show _ ∈ db₁.identities.rows
          rw [hnew]
          exact (hpinned .gid).1.stay _ hwithheld rfl
        · exact (activeIdentity_some hsome).2.1.trans hid.symm
        · rw [← hvalue]
          cases y.column <;> rfl
      · exact Or.inl (someIssues_eq_false.mp hno p hp hcustomer (by simpa using hid))
  · exact nomatch hok

/-- A release rewrites active rows of its own and nothing else. -/
structure Released (db db' : Db) (op : Op) (f : Identity → Identity) : Prop where
  pools : db'.pools = db.pools
  rows : db'.identities.rows = db.identities.rows.map f
  each : ∀ i ∈ db.identities.rows, f i = i ∨ i.released = false ∧
    ∃ flag, (i, flag) ∈ releasedBy db op ∧ f i = { i with released := true, recyclable := flag }

variable {f : Identity → Identity}

theorem Released.get? (h : Released db db' op f) {i : Identity} (hi : i ∈ db.identities.rows) :
    db'.identities.get? i.id = some (f i) := by
  refine Table.get?_eq_some.mpr ⟨h.rows ▸ List.mem_map_of_mem hi, ?_⟩
  rcases h.each i hi with heq | ⟨-, flag, -, heq⟩
  · rw [heq]
  · rw [heq]

theorem Released.withheld (h : Released db db' op f) {k : ℕ} (hv : v ∈ withheldValues db k c) :
    v ∈ withheldValues db' k c := by
  obtain ⟨i, hi, hpool, hr, hvalue⟩ := mem_withheld.mp hv
  have hstay : f i = i := by
    rcases h.each i hi with heq | ⟨hactive, -⟩
    · exact heq
    · exact nomatch hactive.symm.trans hr.1
  refine mem_withheld.mpr ⟨i, ?_, hpool, hr, hvalue⟩
  rw [h.rows, List.mem_map]
  exact ⟨i, hi, hstay⟩

theorem Released.recyclable (h : Released db db' op f) {k : ℕ} (hv : v ∈ recyclableValues db' k c) :
    v ∈ recyclableValues db k c ∨ ∃ i, (i, true) ∈ releasedBy db op ∧ i.pool = k ∧ i.value c = some v := by
  obtain ⟨j, hj, hpool, hr, hvalue⟩ := mem_recyclable.mp hv
  rw [h.rows] at hj
  obtain ⟨i, hi, rfl⟩ := List.mem_map.mp hj
  rcases h.each i hi with heq | ⟨-, flag, hflag, heq⟩
  · rw [heq] at hpool hr hvalue
    exact Or.inl (mem_recyclable.mpr ⟨i, hi, hpool, hr, hvalue⟩)
  · rw [heq] at hpool hr hvalue
    obtain rfl : flag = true := hr.2
    exact Or.inr ⟨i, hflag, hpool, by rw [← hvalue]; cases c <;> rfl⟩

/-- What leaves is withheld in the pool of its row. -/
theorem Released.departs (h : Released db db' op f) {y : Holding} (hy : y ∈ departures db db'.identities) :
    ∃ i, (i, false) ∈ releasedBy db op ∧ holdingOf db.pools i y.column = some y ∧
      y.value ∈ withheldValues db' i.pool y.column := by
  obtain ⟨i, hi, hactive, hleaves, hholding⟩ := mem_departures.mp hy
  unfold leaves at hleaves
  rw [h.get? hi, Option.any_some] at hleaves
  have hmem : f i ∈ db'.identities.rows := (Table.get?_eq_some.mp (h.get? hi)).1
  rcases h.each i hi with heq | ⟨-, flag, hflag, heq⟩
  · rw [heq, hactive] at hleaves
    simp at hleaves
  · rw [heq] at hleaves hmem
    obtain rfl : flag = false := by simpa using hleaves
    refine ⟨i, hflag, hholding, mem_withheld.mpr ⟨_, hmem, rfl, ⟨rfl, rfl⟩, ?_⟩⟩
    rw [← (holdingOf_eq_some.mp hholding).2.1]
    cases y.column <;> rfl

theorem Released.kept (hrel : Released s.db db' op f) (h : Kept s) (hout : ReleasesSafely s op) :
    Kept ⟨db', s.gone ++ departures s.db db'.identities⟩ := by
  rw [kept_iff] at h ⊢
  intro y hy p hp hcustomer
  rw [hrel.pools] at hp
  by_contra hissues
  rw [Bool.not_eq_false] at hissues
  obtain ⟨hnot, r, hcolumn, hholds, hopen⟩ := canIssue_iff.mp hissues
  have hwithheld : y.value ∉ withheldValues s.db p.id y.column := fun hv => hnot (hrel.withheld hv)
  -- Nothing that left could be handed out by the pool before.
  have hbefore : canIssue s.db p y.column y.value = false := by
    rcases List.mem_append.mp hy with hold | hleft
    · exact h y hold p hp hcustomer
    · obtain ⟨i, hi, hholding, hown⟩ := hrel.departs hleft
      have hno := (hout (i, false) hi y.column (Namespace.mem_all _) y hholding).1 rfl
      refine someIssues_eq_false.mp hno p hp hcustomer fun hid => hnot ?_
      rw [List.mem_singleton.mp hid]
      exact hown
  have hclosed : ¬ ((p.range r).next.any (· ≤ y.value) = true ∨
      r = y.column.range ∧ y.value ∈ recyclableValues s.db p.id y.column) := fun hopen => by
    rw [canIssue_iff.mpr ⟨hwithheld, r, hcolumn, hholds, hopen⟩] at hbefore
    exact nomatch hbefore
  rcases hopen with hnext | ⟨rfl, hrecyclable⟩
  · exact hclosed (Or.inl hnext)
  rcases hrel.recyclable hrecyclable with hrecyclable | ⟨i, hi, hpool, hvalue⟩
  · exact hclosed (Or.inr ⟨rfl, hrecyclable⟩)
  -- A row that is released for recycling carries the number: the pool may not recall it.
  have hholding : holdingOf s.db.pools i y.column = some ⟨y.customer, y.column, y.value, i.principal⟩ :=
    holdingOf_eq_some.mpr ⟨rfl, hvalue, by rw [hpool, customerOf_of_mem hp, hcustomer], rfl⟩
  have hgone : y ∈ s.gone ++ withheldBy s.db op := by
    rcases List.mem_append.mp hy with hold | hleft
    · exact List.mem_append_left _ hold
    · obtain ⟨i', hi', hholding', -⟩ := hrel.departs hleft
      exact List.mem_append_right _ (List.mem_flatMap.mpr ⟨(i', false), List.mem_filter.mpr ⟨hi', rfl⟩,
        List.mem_filterMap.mpr ⟨y.column, Namespace.mem_all _, hholding'⟩⟩)
  have hrecall := (hout (i, true) hi y.column (Namespace.mem_all _) _ hholding).2 rfl ⟨y, hgone, rfl, rfl, rfl⟩
  unfold recallable at hrecall
  rw [hpool, Table.get?_eq_some.mpr ⟨hp, rfl⟩, Option.any_some, hholds, Bool.true_and, Bool.not_eq_false',
    List.contains_eq_mem, decide_eq_true_eq] at hrecall
  exact hwithheld hrecall

/-- What `releaseWhere` makes of a row. -/
def releaseRow (p : Identity → Bool) (recyclable : Option Bool) (i : Identity) : Identity :=
  if !i.released && p i then { i with released := true, recyclable := recyclable.getD i.recyclable } else i

theorem releasePosixAllocations_rows {consumer : Consumer} {inUse : List ℕ}
    (hok : releasePosixAllocations db consumer inUse = .ok db') :
    ∃ f, Released db db' (.releasePosixAllocations consumer inUse) f := by
  obtain ⟨db₁, hfirst, hsecond⟩ := bind_eq_ok.mp hok
  obtain ⟨hp₁, hi₁⟩ := store_ok hfirst
  by_cases haccount : consumer.isAccount = true
  · rw [if_pos haccount] at hsecond
    obtain ⟨hp₂, hi₂⟩ := store_ok hsecond
    refine ⟨releaseRow (fun i => i.principal == .user consumer.user && !inUse.contains i.pool) (some true) ∘
      releaseRow (fun i => i.principal == .consumer consumer.contentType consumer.id) none, hp₂.trans hp₁, ?_,
      fun i hi => ?_⟩
    · rw [hi₂, hi₁]
      exact List.map_map
    · simp only [Function.comp_apply, releaseRow, releasedBy, List.mem_append, List.mem_map, List.mem_filter, if_pos haccount,
        Bool.and_eq_true, Bool.not_eq_true', Option.getD_none, Option.getD_some]
      by_cases hconsumer : i.released = false ∧ (i.principal == .consumer consumer.contentType consumer.id) = true
      · right
        refine ⟨hconsumer.1, i.recyclable, Or.inl ⟨i, ⟨hi, hconsumer⟩, rfl⟩, ?_⟩
        rw [if_pos hconsumer]
        simp
      · rw [if_neg hconsumer]
        by_cases huser : i.released = false ∧ (i.principal == .user consumer.user) = true ∧ inUse.contains i.pool = false
        · rw [if_pos huser]
          exact Or.inr ⟨huser.1, true, Or.inr ⟨i, ⟨hi, huser⟩, rfl⟩, rfl⟩
        · rw [if_neg huser]
          exact Or.inl rfl
  · rw [if_neg haccount] at hsecond
    obtain rfl := Except.ok.inj hsecond
    refine ⟨_, hp₁, congrArg Table.rows hi₁, fun i hi => ?_⟩
    simp only [releasedBy, if_neg haccount, List.append_nil, List.mem_map, List.mem_filter, Bool.and_eq_true,
      Bool.not_eq_true', Option.getD_none]
    by_cases hconsumer : i.released = false ∧ (i.principal == .consumer consumer.contentType consumer.id) = true
    · rw [if_pos hconsumer]
      exact Or.inr ⟨hconsumer.1, i.recyclable, ⟨i, ⟨hi, hconsumer⟩, rfl⟩, rfl⟩
    · rw [if_neg hconsumer]
      exact Or.inl rfl

/-- A release of the rows that one query selects. -/
theorem releaseWhere_rows {p : Identity → Bool} {recyclable : Bool}
    (hby : releasedBy db op = (db.identities.rows.filter fun i => !i.released && p i).map (·, recyclable))
    (hok : db.store db.pools (releaseWhere db.identities p (some recyclable)) = .ok db') : ∃ f, Released db db' op f := by
  obtain ⟨hp, hi⟩ := store_ok hok
  refine ⟨_, hp, congrArg Table.rows hi, fun i hmem => ?_⟩
  rw [hby]
  simp only [List.mem_map, List.mem_filter, Option.getD_some, Bool.and_eq_true, Bool.not_eq_true']
  by_cases hsel : i.released = false ∧ p i = true
  · rw [if_pos hsel]
    exact Or.inr ⟨hsel.1, recyclable, ⟨i, ⟨hmem, hsel⟩, rfl⟩, rfl⟩
  · rw [if_neg hsel]
    exact Or.inl rfl

theorem apply_kept (h : Kept s) (hout : StaysOut s (.op op)) (hok : apply s.db op = .ok db') :
    Kept ⟨db', s.gone ++ departures s.db db'.identities⟩ := by
  have hsame : Kept ⟨s.db, s.gone ++ departures s.db s.db.identities⟩ :=
    kept_of_extends h (Extends.refl _) fun p hp => Or.inl ⟨p, hp, MarkKept.refl p⟩
  cases op with
  | createPool pool => exact createPool_kept h hout hok
  | editPool pool => exact editPool_kept h hout hok
  | allocate offering c consumer =>
    obtain ⟨⟨db₁, v⟩, halloc, rfl⟩ := map_eq_ok.mp hok
    rcases allocate_spec halloc with rfl | ⟨pool, v, hhanded⟩
    · exact hsame
    · exact hhanded.kept h
  | setValue consumer c value offering => exact setValue_kept h hout hok
  | allocateProjectGroupGid group =>
    simp only [apply] at hok
    split at hok
    · rcases allocateGid_spec hok with ⟨hp, hi⟩ | ⟨pool, c, v, hhanded⟩
      · exact kept_of_extends h (hi ▸ Extends.refl _) fun p hmem => Or.inl ⟨p, hp ▸ hmem, MarkKept.refl p⟩
      · exact hhanded.kept h
    · cases hok
  | setProjectGroupGid group value allowOutsideRange =>
    simp only [apply] at hok
    split at hok
    · next g hg => exact setProjectGroupGid_kept h hout hg hok
    · cases hok
  | releasePosixAllocations consumer inUse =>
    obtain ⟨f, hrel⟩ := releasePosixAllocations_rows hok
    exact hrel.kept h hout
  | releaseUserAllocations user recyclable inUse =>
    obtain ⟨f, hrel⟩ : ∃ f, Released _ _ (.releaseUserAllocations user recyclable inUse) f := releaseWhere_rows rfl hok
    exact hrel.kept h hout
  | releaseProjectGroupGid group =>
    simp only [apply] at hok
    split at hok
    · next g hg =>
      obtain ⟨f, hrel⟩ : ∃ f, Released _ _ (.releaseProjectGroupGid group) f := releaseWhere_rows
        (by simp only [releasedBy]; rw [hg]) hok
      exact hrel.kept h hout
    · cases hok

theorem step_kept {op : LedgerOp} (h : Kept s) (hout : StaysOut s op) : Kept (s.step op) := by
  cases op with
  | op op =>
    unfold Ledger.step PosixIds.step
    simp only
    split
    · next db' hok => exact apply_kept h hout hok
    · exact kept_of_extends h (Extends.refl _) fun p hp => Or.inl ⟨p, hp, MarkKept.refl p⟩
  | returnValuesToThePool selected =>
    unfold Ledger.step
    simp only
    split
    · next db' hok =>
      obtain ⟨hpools, hids⟩ := store_ok hok
      rw [kept_iff] at h ⊢
      intro y hy p hp hcustomer
      obtain ⟨hy, hstays⟩ := List.mem_filter.mp hy
      rw [hpools] at hp
      have hbefore := h y hy p hp hcustomer
      by_contra hissues
      rw [Bool.not_eq_false] at hissues
      obtain ⟨hnot, r, hcolumn, hholds, hopen⟩ := canIssue_iff.mp hissues
      -- No row that is still withheld has the number, so none had it: the selection would be refused.
      have hwithheld : y.value ∉ withheldValues s.db p.id y.column := by
        intro hv
        obtain ⟨i, hi, hpool, ⟨hreleased, hheld⟩, hvalue⟩ := mem_withheld.mp hv
        have hkeep : ∀ j ∈ s.db.identities.rows, j.pool = p.id → j.released = true → j.recyclable = false →
            j.value y.column = some y.value → selected.contains j.id = true := by
          intro j hj hpool hreleased hheld hvalue
          by_contra hsel
          refine hnot (mem_withheld.mpr ⟨j, ?_, hpool, ⟨hreleased, hheld⟩, hvalue⟩)
          rw [hids]
          refine List.mem_map.mpr ⟨j, hj, if_neg ?_⟩
          unfold returned
          rw [Bool.eq_false_iff.mpr hsel, Bool.and_false]
          exact Bool.false_ne_true
        have hret : returned selected i = true := by
          unfold returned
          rw [hreleased, hheld, hkeep i hi hpool hreleased hheld hvalue]
          rfl
        have hholding : holdingOf s.db.pools i y.column = some ⟨y.customer, y.column, y.value, i.principal⟩ :=
          holdingOf_eq_some.mpr ⟨rfl, hvalue, by rw [hpool, customerOf_of_mem hp, hcustomer], rfl⟩
        rcases hout i (List.mem_filter.mpr ⟨hi, hret⟩) y.column (Namespace.mem_all _) _ hholding
          ⟨y, hy, by simpa using hstays, rfl, rfl, rfl⟩ with hother | hrange
        · rw [List.contains_eq_mem, decide_eq_true_eq] at hother
          obtain ⟨j, hj, hjpool, hjp, hjvalue⟩ := mem_columnValues.mp hother
          simp only [Bool.and_eq_true, Bool.not_eq_true'] at hjp
          have hsel := hkeep j hj (hjpool.trans hpool) hjp.1.1 hjp.1.2 hjvalue
          rw [hjp.2] at hsel
          cases hsel
        · rw [hpool, Table.get?_eq_some.mpr ⟨hp, rfl⟩, Option.all_some, Bool.not_eq_true'] at hrange
          rw [holds_iff.mpr ⟨r, hcolumn, hholds⟩] at hrange
          cases hrange
      rw [canIssue_iff.mpr ⟨hwithheld, r, hcolumn, hholds, ?_⟩] at hbefore
      · cases hbefore
      · rcases hopen with hnext | ⟨hr, hrecyclable⟩
        · exact Or.inl hnext
        refine Or.inr ⟨hr, ?_⟩
        obtain ⟨j, hj, hpool, ⟨hreleased, hrec⟩, hvalue⟩ := mem_recyclable.mp hrecyclable
        rw [hids] at hj
        obtain ⟨i, hi, rfl⟩ := List.mem_map.mp hj
        by_cases hret : returned selected i = true
        · -- A returned row was withheld before.
          rw [if_pos hret] at hpool hvalue
          unfold returned at hret
          simp only [Bool.and_eq_true, Bool.not_eq_true'] at hret
          refine absurd (mem_withheld.mpr ⟨i, hi, hpool, ⟨hret.1.1, hret.1.2⟩, ?_⟩) hwithheld
          rw [← hvalue]
          cases y.column <;> rfl
        · rw [if_neg hret] at hpool hreleased hrec hvalue
          exact mem_recyclable.mpr ⟨i, hi, hpool, ⟨hreleased, hrec⟩, hvalue⟩
    · exact h

end Kept

/-! ## Runs -/

section Run

variable {s : Ledger} {db db' : Db}

theorem issued_eq_nil (h : db'.identities = db.identities) : issued db db' = [] := by
  refine List.eq_nil_iff_forall_not_mem.mpr fun x hx => ?_
  obtain ⟨i, hi, hactive, hcarried, -⟩ := mem_issued.mp hx
  rw [h] at hi
  unfold carried at hcarried
  rw [Table.get?_eq_some.mpr ⟨hi, rfl⟩, Option.any_some, hactive] at hcarried
  simp at hcarried

theorem Handed.issued {pool : Pool} {c : Namespace} {v : ℤ} {principal : Principal}
    (h : Handed db db' pool c v principal) {x : Holding} (hx : x ∈ issued db db') :
    pool.customer = some x.customer ∧ x.column = c ∧ x.value = v := by
  obtain ⟨i, hi, hactive, hcarried, hholding⟩ := mem_issued.mp hx
  obtain ⟨-, hvalue, hcustomer, -⟩ := holdingOf_eq_some.mp hholding
  have hbefore : ∀ j ∈ db.identities.rows, j.id = i.id → j.released = false → j.value x.column ≠ i.value x.column := by
    intro j hj hid hjactive hsame
    unfold carried at hcarried
    rw [← hid, Table.get?_eq_some.mpr ⟨hj, rfl⟩, Option.any_some, hjactive, hsame] at hcarried
    simp at hcarried
  rw [h.rows] at hi
  rcases mem_saveIdentity hi with rfl | hi
  · rw [value_setValue] at hvalue hbefore
    by_cases hc : x.column = c
    · rw [if_pos hc] at hvalue
      rw [pool_setValue, getOrCreate_pool, (h.scopes pool.id).1, customerOf_of_mem h.mem] at hcustomer
      exact ⟨hcustomer, hc, (Option.some.inj hvalue).symm⟩
    · -- The other column is as it was before.
      rw [if_neg hc] at hvalue hbefore
      unfold getOrCreateActiveIdentity at hvalue hbefore
      cases hsome : activeIdentity db pool.id principal with
      | none =>
        rw [hsome] at hvalue
        cases hcol : x.column <;> rw [hcol] at hvalue <;> exact nomatch hvalue
      | some j =>
        rw [hsome] at hbefore
        obtain ⟨hmem, -, hjactive, -⟩ := activeIdentity_some hsome
        exact absurd rfl (hbefore j hmem (by rw [id_setValue]; rfl) hjactive)
  · exact absurd rfl (hbefore i hi rfl hactive)

/-- Where no pool could hand out what left, nothing that left is handed out. -/
theorem neverReissued_of_kept (h : Kept s) (op : LedgerOp) : NeverReissued s op := by
  have hnil : ∀ x, x ∉ issued s.db s.db := fun x => by rw [issued_eq_nil rfl]; exact List.not_mem_nil
  have hhanded : ∀ {db' pool c v principal}, Handed s.db db' pool c v principal → ∀ x ∈ issued s.db db', ∀ y ∈ s.gone,
      y.customer = x.customer → y.column = x.column → y.value = x.value → y.principal = x.principal := by
    intro db' pool c v principal hhanded x hx y hy hcustomer hcolumn hvalue
    obtain ⟨hscope, rfl, rfl⟩ := hhanded.issued hx
    have hno := kept_iff.mp h y hy pool hhanded.mem (hcustomer ▸ hscope)
    rw [hcolumn, hvalue, hhanded.issues] at hno
    cases hno
  cases op with
  | returnValuesToThePool selected => exact trivial
  | op op =>
    unfold NeverReissued PosixIds.step
    intro hauto
    split
    · next db' hok =>
      cases op with
      | allocate offering c consumer =>
        obtain ⟨⟨db₁, v⟩, halloc, rfl⟩ := map_eq_ok.mp hok
        rcases allocate_spec halloc with rfl | ⟨pool, v, hgiven⟩
        · exact fun x hx => absurd hx (hnil x)
        · exact hhanded hgiven
      | allocateProjectGroupGid group =>
        simp only [apply] at hok
        split at hok
        · rcases allocateGid_spec hok with ⟨-, hi⟩ | ⟨pool, c, v, hgiven⟩
          · exact fun x hx => absurd hx (by rw [issued_eq_nil hi]; exact List.not_mem_nil)
          · exact hhanded hgiven
        · cases hok
      | createPool | editPool | setValue | setProjectGroupGid | releasePosixAllocations | releaseUserAllocations
      | releaseProjectGroupGid => cases hauto
    · exact fun x hx => absurd hx (hnil x)

/-- **Numbers that left stay out**: along every run whose overrides, releases and edits keep the numbers that
left out of what a pool could hand out, no automatic allocation issues one of them to somebody else. -/
theorem withheld_never_reissued (db : Db) (ops : List LedgerOp) (hout : Along Ledger.step StaysOut ⟨db, []⟩ ops) :
    Along Ledger.step NeverReissued ⟨db, []⟩ ops := by
  refine along_of_invariant (fun s op h hop => ⟨step_kept h hop, neverReissued_of_kept h op⟩) ops ⟨db, []⟩ ?_ hout
  exact fun y hy => absurd hy List.not_mem_nil

private def account (id : ℕ) : Consumer := { contentType := .offeringUser, id := id, user := id }

private def offeringOfX : Offering := ⟨1, 10, true, true, true⟩

private def poolOfX (max next : ℤ) : Pool where
  id := 1
  offering := some offeringOfX
  uid := ⟨some 1000, some max, some next⟩

/-- An override above the mark, a release that is withheld, a pool that grows past it and is counted over it;
when the operator has returned the number it is issued again. -/
def guardedRun : List LedgerOp :=
  [.op (.createPool (poolOfX 2000 1000)),
    .op (.allocate offeringOfX .uid (account 7)),
    .op (.setValue (account 7) .uid 1500 offeringOfX),
    .op (.releaseUserAllocations 7 false []),
    .op (.allocate offeringOfX .uid (account 8)),
    .op (.editPool (poolOfX 3000 1500)),
    .op (.allocate offeringOfX .uid (account 9)),
    .returnValuesToThePool [1],
    .op (.allocate offeringOfX .uid (account 10))]

theorem guarded_numbers_stay_out :
    (run Ledger.step ⟨emptyLedger [] (by decide), []⟩ guardedRun).db.identities.rows.map
        (fun i => (i.principal, i.uid, i.released)) =
      [(.user 7, some 1500, true), (.user 8, some 1001, false), (.user 9, some 1501, false),
        (.user 10, some 1500, false)] ∧
    Along Ledger.step NeverReissued ⟨emptyLedger [] (by decide), []⟩ guardedRun :=
  ⟨by decide +kernel, withheld_never_reissued _ _ (by decide +kernel)⟩

/-- 1000 was released for recycling once; an override moves its next holder off it, and it is recycled. -/
def overriddenRun : List LedgerOp :=
  [.op (.createPool (poolOfX 2000 1000)),
    .op (.allocate offeringOfX .uid (account 7)),
    .op (.releaseUserAllocations 7 true []),
    .op (.allocate offeringOfX .uid (account 8)),
    .op (.setValue (account 8) .uid 1500 offeringOfX),
    .op (.allocate offeringOfX .uid (account 9))]

theorem overridden_number_reissued :
    ¬ ∀ (db : Db) (ops : List LedgerOp), Along Ledger.step NeverReissued ⟨db, []⟩ ops := by
  intro h
  have hrun : ¬ Along Ledger.step NeverReissued ⟨emptyLedger [] (by decide), []⟩ overriddenRun := by decide +kernel
  exact hrun (h _ _)

end Run

end Waldur.PosixIds
