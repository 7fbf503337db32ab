import Mathlib
import Waldur.Lib.Reservations
import Waldur.Marketplace.PosixIds

/-!
# Marketplace.PosixClaims — the numbers a pool claims

A pool claims the numbers of its ranges and those its active identities hold; the pools of one customer
are rivals.  A number that is recycled, counted or set by hand comes from a range of the pool, so it was
claimed before; a release only takes claims away.
-/

namespace Waldur.PosixIds

open Relational Reservations Runs

/-! ## The tables after a write -/

section Ledger

variable {db db' : Db} {pools : Pools} {identities : Identities}

theorem store_ok (h : db.store pools identities = .ok db') :
    db'.pools = pools ∧ db'.identities = identities := by
  unfold Db.store at h
  split at h
  · obtain rfl := Except.ok.inj h
    exact ⟨rfl, rfl⟩
  · exact nomatch h

theorem mem_saveIdentity {identity i : Identity} (h : i ∈ (saveIdentity identities identity).rows) :
    i = identity ∨ i ∈ identities.rows := by
  unfold saveIdentity at h
  split at h
  · rcases List.mem_append.mp h with h | h
    · exact Or.inr h
    · exact Or.inl (List.mem_singleton.mp h)
  · obtain ⟨row, hrow, rfl⟩ := List.mem_map.mp h
    by_cases hid : row.id = identity.id
    · left
      rw [if_pos hid]
      simp only [hid]
    · rw [if_neg hid]
      exact Or.inr hrow

theorem activeIdentity_some {pool : ℕ} {principal : Principal} {i : Identity}
    (h : activeIdentity db pool principal = some i) :
    i ∈ db.identities.rows ∧ i.pool = pool ∧ i.released = false ∧ i.principal = principal := by
  have hmem := List.mem_of_find?_eq_some h
  have hp := List.find?_some h
  simp only [Bool.and_eq_true, beq_iff_eq, Bool.not_eq_true'] at hp
  exact ⟨hmem, hp.1.1, hp.1.2, hp.2⟩

/-- A checked range that is managed has its three columns. -/
theorem IdRange.Checked.bounds {r : IdRange} (h : r.Checked) (hm : r.min.isSome = true) :
    ∃ min max next, r = ⟨some min, some max, some next⟩ ∧ min ≤ next ∧ next ≤ max + 1 := by
  obtain ⟨min?, max?, next?⟩ := r
  cases min? <;> cases max? <;> cases next? <;> simp_all [IdRange.Checked]

end Ledger

/-! ## Claims -/

section Claims

variable {db db' : Db} {k : ℕ} {x : Namespace × ℤ}

/-- A range of the pool holds the number. -/
def inRange (pools : Pools) (k : ℕ) (x : Namespace × ℤ) : Prop := ∃ p, pools.get? k = some p ∧ p.holds x.1 x.2 = true

/-- An active identity of the pool carries the number. -/
def heldIn (identities : Identities) (k : ℕ) (x : Namespace × ℤ) : Prop :=
  ∃ i ∈ identities.rows, i.pool = k ∧ i.released = false ∧ i.value x.1 = some x.2

def customerOf (pools : Pools) (k : ℕ) : Option ℕ := (pools.get? k).bind Pool.customer

/-- The pools of a database as owners of numbers. -/
def board (db : Db) : Board ℕ (Namespace × ℤ) where
  rival a b := a ≠ b ∧ ∃ customer, customerOf db.pools a = some customer ∧ customerOf db.pools b = some customer
  claims k := {x | inRange db.pools k x ∨ heldIn db.identities k x}
  symm := fun ⟨hne, customer, ha, hb⟩ => ⟨hne.symm, customer, hb, ha⟩
  irrefl := fun _ h => h.1 rfl

theorem mem_providerPools {customer : ℕ} {p : Pool} (h : p ∈ db.pools.rows) :
    p ∈ providerPools db customer ↔ p.customer = some customer := by
  have hscope := (db.constraints.checked p h).1
  unfold providerPools Pool.customer
  rw [List.mem_filter]
  cases hs : p.serviceProvider <;> cases ho : p.offering <;> simp_all

theorem customerOf_of_mem {p : Pool} (h : p ∈ db.pools.rows) : customerOf db.pools p.id = p.customer := by
  unfold customerOf
  rw [Table.get?_eq_some.mpr ⟨h, rfl⟩]
  rfl

theorem inRange_of_mem {p : Pool} (h : p ∈ db.pools.rows) : inRange db.pools p.id x ↔ p.holds x.1 x.2 = true := by
  unfold inRange
  rw [Table.get?_eq_some.mpr ⟨h, rfl⟩]
  simp

theorem holds_column {p : Pool} {r : RangeName} {value : ℤ} (h : (p.range r).holds value = true) :
    p.holds r.column value = true :=
  List.any_eq_true.mpr ⟨r, RangeName.mem_all r, by simp [h]⟩

/-- A range, its column and the numbers it holds. -/
theorem holds_iff {p : Pool} {c : Namespace} {value : ℤ} :
    p.holds c value = true ↔ ∃ r : RangeName, r.column = c ∧ (p.range r).holds value = true := by
  unfold Pool.holds
  rw [List.any_eq_true]
  constructor
  · rintro ⟨r, -, hr⟩
    simp only [Bool.and_eq_true, beq_iff_eq] at hr
    exact ⟨r, hr⟩
  · rintro ⟨r, hc, hr⟩
    exact ⟨r, RangeName.mem_all r, by simp [hc, hr]⟩

theorem heldIn_saveIdentity {identities : Identities} {identity : Identity}
    (h : heldIn (saveIdentity identities identity) k x) :
    (identity.pool = k ∧ identity.released = false ∧ identity.value x.1 = some x.2) ∨ heldIn identities k x := by
  obtain ⟨i, hi, hactive⟩ := h
  rcases mem_saveIdentity hi with rfl | hi
  · exact Or.inl hactive
  · exact Or.inr ⟨i, hi, hactive⟩

/-- The pools keep their providers and their bounds. -/
def SameScopes (pools' pools : Pools) : Prop :=
  ∀ k, customerOf pools' k = customerOf pools k ∧ ∀ x, inRange pools' k x → inRange pools k x

theorem SameScopes.refl (pools : Pools) : SameScopes pools pools := fun _ => ⟨rfl, fun _ h => h⟩

theorem within_of_heldIn (hpools : SameScopes db'.pools db.pools)
    (hheld : ∀ k x, heldIn db'.identities k x → x ∈ (board db).claims k) : (board db').Within (board db) where
  rival := by
    rintro a b ⟨hne, customer, ha, hb⟩
    exact ⟨hne, customer, (hpools a).1 ▸ ha, (hpools b).1 ▸ hb⟩
  claims := by
    rintro k x (h | h)
    · exact Or.inl ((hpools k).2 x h)
    · exact hheld k x h

/-- A row is saved whose numbers its pool claims already. -/
theorem within_save {identity : Identity} (hpools : SameScopes db'.pools db.pools)
    (hids : db'.identities = saveIdentity db.identities identity)
    (hvalue : ∀ c v, identity.value c = some v → (c, v) ∈ (board db).claims identity.pool) :
    (board db').Within (board db) := by
  refine within_of_heldIn hpools fun k x hx => ?_
  rw [hids] at hx
  rcases heldIn_saveIdentity hx with ⟨rfl, -, hv⟩ | hx
  · exact hvalue x.1 x.2 hv
  · exact Or.inr hx

end Claims

/-! ## Numbers from a range -/

section Ranges

variable {db db' : Db} {pool : Pool}

@[simp] theorem pool_setValue (i : Identity) (value : ℤ) (c : Namespace) : (i.setValue value c).pool = i.pool := by
  cases c <;> rfl

theorem value_setValue (i : Identity) (value : ℤ) (c c' : Namespace) :
    (i.setValue value c).value c' = if c' = c then some value else i.value c' := by
  cases c <;> cases c' <;> rfl

theorem getOrCreate_pool (k : ℕ) (principal : Principal) : (getOrCreateActiveIdentity db k principal).pool = k := by
  unfold getOrCreateActiveIdentity
  cases h : activeIdentity db k principal with
  | none => rfl
  | some i => exact (activeIdentity_some h).2.1

theorem getOrCreate_value {k : ℕ} {principal : Principal} {c : Namespace} {v : ℤ}
    (h : (getOrCreateActiveIdentity db k principal).value c = some v) : heldIn db.identities k (c, v) := by
  unfold getOrCreateActiveIdentity at h
  cases hi : activeIdentity db k principal with
  | none =>
    rw [hi] at h
    cases c <;> exact nomatch h
  | some i =>
    rw [hi] at h
    obtain ⟨hmem, hpool, hactive, -⟩ := activeIdentity_some hi
    exact ⟨i, hmem, hpool, hactive, h⟩

/-- A number of the pool's own ranges is given to a principal. -/
theorem within_give {principal : Principal} {c : Namespace} {v : ℤ} (hpool : pool ∈ db.pools.rows)
    (hpools : SameScopes db'.pools db.pools) (hholds : pool.holds c v = true)
    (hids : db'.identities =
      saveIdentity db.identities ((getOrCreateActiveIdentity db pool.id principal).setValue v c)) :
    (board db').Within (board db) := by
  refine within_save hpools hids fun c' v' hv' => ?_
  rw [value_setValue] at hv'
  rw [pool_setValue, getOrCreate_pool]
  by_cases hc : c' = c
  · rw [if_pos hc] at hv'
    obtain rfl := Option.some.inj hv'
    exact Or.inl ((inRange_of_mem hpool).mpr (hc ▸ hholds))
  · rw [if_neg hc] at hv'
    exact Or.inr (getOrCreate_value hv')

theorem le_countUp (taken : List ℤ) : ∀ (turns : ℕ) (value : ℤ), value ≤ countUp taken turns value
  | 0, _ => le_rfl
  | turns + 1, value => by
    unfold countUp
    split
    · have ih := le_countUp taken turns (value + 1)
      omega
    · exact le_rfl

/-- Counting stops at a number that is not taken, or every number it passed is. -/
theorem countUp_cases (taken : List ℤ) : ∀ (turns : ℕ) (value : ℤ),
    countUp taken turns value ∉ taken ∨
      countUp taken turns value = value + turns ∧ ∀ k : ℕ, k < turns → value + k ∈ taken
  | 0, value => Or.inr ⟨by simp [countUp], fun k hk => absurd hk (Nat.not_lt_zero k)⟩
  | turns + 1, value => by
    unfold countUp
    by_cases hmem : value ∈ taken
    · rw [if_pos hmem]
      rcases countUp_cases taken turns (value + 1) with h | ⟨h, hpassed⟩
      · exact Or.inl h
      · refine Or.inr ⟨by rw [h]; push_cast; omega, fun k hk => ?_⟩
        cases k with
        | zero => simpa using hmem
        | succ k =>
          have hnext := hpassed k (by omega)
          have hsucc : value + ((k + 1 : ℕ) : ℤ) = value + 1 + k := by push_cast; omega
          rwa [hsucc]
    · rw [if_neg hmem]
      exact Or.inl hmem

/-- One turn for each taken number is enough. -/
theorem countUp_not_mem (taken : List ℤ) (value : ℤ) : countUp taken taken.length value ∉ taken := by
  intro hmem
  rcases countUp_cases taken taken.length value with h | ⟨h, hpassed⟩
  · exact h hmem
  have hsub : (List.range (taken.length + 1)).map (fun k : ℕ => value + k) ⊆ taken := by
    intro v hv
    obtain ⟨k, hk, rfl⟩ := List.mem_map.mp hv
    rcases Nat.lt_succ_iff_lt_or_eq.mp (List.mem_range.mp hk) with hk | rfl
    · exact hpassed k hk
    · exact h ▸ hmem
  have hnodup : ((List.range (taken.length + 1)).map (fun k : ℕ => value + k)).Nodup :=
    List.nodup_range.map fun a b hab => by simpa using hab
  have hlength := (List.subperm_of_subset hnodup hsub).length_le
  rw [List.length_map, List.length_range] at hlength
  omega

/-- A number taken by counting lies within the bounds of the pool. -/
theorem countedValue_holds {r : RangeName} {v : ℤ} (hchecked : (pool.range r).Checked)
    (h : countedValue db pool r = some v) : (pool.range r).holds v = true := by
  unfold countedValue at h
  split at h
  · next start max hnext hmax =>
    simp only at h
    split at h
    · exact nomatch h
    next hle =>
    obtain rfl := Option.some.inj h
    have hmin : (pool.range r).min.isSome = true := by
      unfold IdRange.Checked at hchecked
      split at hchecked <;> simp_all
    obtain ⟨min, max', next, hr, hlow, -⟩ := hchecked.bounds hmin
    rw [hr] at hnext hmax ⊢
    obtain rfl := Option.some.inj hnext
    obtain rfl := Option.some.inj hmax
    simp only [IdRange.holds, Option.any_some, Bool.and_eq_true, decide_eq_true_eq]
    exact ⟨hlow.trans (le_countUp _ _ _), not_lt.mp hle⟩
  · exact nomatch h

theorem recycledValue_holds {r : RangeName} {v : ℤ} (h : recycledValue db pool r = some v) :
    (pool.range r).holds v = true := by
  have hmem := List.min?_mem h
  have hp := (List.mem_filter.mp hmem).2
  simp only [Bool.and_eq_true] at hp
  exact hp.1.1

theorem candidateValue_holds {r : RangeName} {recycle : Bool} {v : ℤ} (hchecked : (pool.range r).Checked)
    (h : (candidateValue db pool r recycle).1 = some v) : (pool.range r).holds v = true := by
  unfold candidateValue at h
  split at h
  · next value hvalue =>
    obtain rfl := Option.some.inj h
    split at hvalue
    · exact recycledValue_holds hvalue
    · exact nomatch hvalue
  · exact countedValue_holds hchecked h

/-- The number is new in its pool: no active identity carries it and none that is withheld. -/
theorem countedValue_new {r : RangeName} {v : ℤ} (h : countedValue db pool r = some v) :
    v ∉ activeValues db pool.id r.column ∧ v ∉ withheldValues db pool.id r.column := by
  unfold countedValue at h
  split at h
  · next start max hnext hmax =>
    simp only at h
    split at h
    · exact nomatch h
    next hle =>
    obtain rfl := Option.some.inj h
    have hlow := le_countUp (takenValues db pool.id r.column start max)
      (takenValues db pool.id r.column start max).length start
    have hnew := countUp_not_mem (takenValues db pool.id r.column start max) start
    have hout : ∀ v, start ≤ v → v ≤ max → v ∉ takenValues db pool.id r.column start max →
        v ∉ activeValues db pool.id r.column ∧ v ∉ withheldValues db pool.id r.column := by
      intro v hlow hhigh hv
      refine ⟨fun h => hv ?_, fun h => hv ?_⟩
      · exact List.mem_filter.mpr ⟨List.mem_append_left _ h, by simp [hlow, hhigh]⟩
      · exact List.mem_filter.mpr ⟨List.mem_append_right _ h, by simp [hlow, hhigh]⟩
    exact hout _ hlow (not_lt.mp hle) hnew
  · exact nomatch h

theorem candidateValue_new {r : RangeName} {recycle : Bool} {v : ℤ}
    (h : (candidateValue db pool r recycle).1 = some v) :
    v ∉ activeValues db pool.id r.column ∧ v ∉ withheldValues db pool.id r.column := by
  unfold candidateValue at h
  split at h
  · next value hvalue =>
    obtain rfl := Option.some.inj h
    split at hvalue
    · have hp := (List.mem_filter.mp (List.min?_mem hvalue)).2
      simp only [Bool.and_eq_true, Bool.not_eq_true', List.contains_eq_mem, decide_eq_false_iff_not] at hp
      exact ⟨hp.1.2, hp.2⟩
    · exact nomatch hvalue
  · exact countedValue_new h

theorem sameScopes_setNext (pools : Pools) (k : ℕ) (next : ℤ) (r : RangeName)
    (hid : ∀ p : Pool, (p.setNext next r).id = p.id) :
    SameScopes (pools.update k (fun p => p.setNext next r) hid) pools := by
  have hcustomer : ∀ p : Pool, (p.setNext next r).customer = p.customer := fun p => by cases r <;> rfl
  have hrange : ∀ (p : Pool) (r' : RangeName) (v : ℤ), ((p.setNext next r).range r').holds v = (p.range r').holds v :=
    fun p r' v => by cases r <;> cases r' <;> rfl
  intro k'
  have hget : (pools.update k (fun p => p.setNext next r) hid).get? k' = pools.get? k' ∨
      (pools.update k (fun p => p.setNext next r) hid).get? k' = (pools.get? k').map fun p => p.setNext next r := by
    by_cases hk : k' = k
    · rw [hk]
      exact Or.inr (Table.get?_update_self _ _ _ _)
    · exact Or.inl (Table.get?_update_ne _ _ _ hk)
  rcases hget with hget | hget
  · refine ⟨by unfold customerOf; rw [hget], fun x hx => ?_⟩
    unfold inRange at hx ⊢
    rwa [hget] at hx
  · refine ⟨?_, fun x hx => ?_⟩
    · unfold customerOf
      rw [hget]
      cases pools.get? k' <;> simp [hcustomer]
    · unfold inRange at hx ⊢
      rw [hget] at hx
      obtain ⟨p', hp', hx⟩ := hx
      obtain ⟨p, hp, rfl⟩ := Option.map_eq_some_iff.mp hp'
      refine ⟨p, hp, ?_⟩
      rw [holds_iff] at hx ⊢
      obtain ⟨r', hc, hr'⟩ := hx
      exact ⟨r', hc, hrange p r' x.2 ▸ hr'⟩

theorem nextValue_spec {r : RangeName} {recycle : Bool} {v : ℤ} {pools : Pools} (hpool : pool ∈ db.pools.rows)
    (h : nextValue db pool r recycle = (some v, pools)) :
    (pool.range r).holds v = true ∧ SameScopes pools db.pools := by
  have hchecked := (db.constraints.checked pool hpool).2.2 r (RangeName.mem_all r)
  unfold nextValue at h
  split at h
  · next value heq =>
    obtain ⟨hv, hpools⟩ := Prod.mk.inj h
    have hvalue : (candidateValue db pool r recycle).1 = some v := by rw [heq, ← hv]
    exact ⟨candidateValue_holds hchecked hvalue, hpools ▸ sameScopes_setNext _ _ _ _ _⟩
  · next value _ _ heq =>
    obtain ⟨hv, hpools⟩ := Prod.mk.inj h
    have hvalue : (candidateValue db pool r recycle).1 = some v := by rw [heq, ← hv]
    exact ⟨candidateValue_holds hchecked hvalue, hpools ▸ SameScopes.refl _⟩

theorem allocateInPool_within {r : RangeName} {consumer : Consumer} {recycle : Bool} {v : ℤ}
    (hpool : pool ∈ db.pools.rows) (h : allocateInPool db pool r consumer recycle = .ok (db', v)) :
    (board db').Within (board db) := by
  unfold allocateInPool at h
  simp only at h
  split at h
  · obtain ⟨rfl, -⟩ := Prod.mk.inj (Except.ok.inj h)
    exact Board.Within.refl _
  split at h
  · exact nomatch h
  · next value pools hnext =>
    obtain ⟨db₁, hstore, hret⟩ := bind_eq_ok.mp h
    obtain ⟨rfl, -⟩ := Prod.mk.inj (Except.ok.inj hret)
    obtain ⟨hholds, hpools⟩ := nextValue_spec hpool hnext
    obtain ⟨hp, hi⟩ := store_ok hstore
    exact within_give hpool (hp ▸ hpools) (holds_column hholds) hi

theorem resolve_mem {offering : Offering} (h : resolve db offering = some pool) : pool ∈ db.pools.rows := by
  unfold resolve at h
  cases hown : db.pools.rows.find? fun p => p.offering.any (·.id == offering.id) with
  | none =>
    rw [hown] at h
    exact List.mem_of_find?_eq_some h
  | some p =>
    rw [hown] at h
    obtain rfl := Option.some.inj h
    exact List.mem_of_find?_eq_some hown

theorem allocate_within {offering : Offering} {c : Namespace} {consumer : Consumer} {v : Option ℤ}
    (h : allocate db offering c consumer = .ok (db', v)) : (board db').Within (board db) := by
  unfold allocate at h
  split at h
  · obtain ⟨rfl, -⟩ := Prod.mk.inj (Except.ok.inj h)
    exact Board.Within.refl _
  split at h
  · obtain ⟨rfl, -⟩ := Prod.mk.inj (Except.ok.inj h)
    exact Board.Within.refl _
  next pool hresolve =>
  split at h
  · obtain ⟨rfl, -⟩ := Prod.mk.inj (Except.ok.inj h)
    exact Board.Within.refl _
  · obtain ⟨⟨db₁, value⟩, halloc, heq⟩ := map_eq_ok.mp h
    obtain ⟨rfl, -⟩ := Prod.mk.inj heq
    exact allocateInPool_within (resolve_mem hresolve) halloc

theorem setValue_within {consumer : Consumer} {c : Namespace} {value : ℤ} {offering : Offering}
    (h : setValue db consumer c value offering = .ok db') : (board db').Within (board db) := by
  unfold setValue at h
  split at h
  · exact nomatch h
  next pool hresolve =>
  split at h
  · exact nomatch h
  split at h
  · exact nomatch h
  next hholds =>
  simp only at h
  split at h
  · obtain rfl := Except.ok.inj h
    exact Board.Within.refl _
  split at h
  · next db₁ hstore =>
    obtain rfl := Except.ok.inj h
    obtain ⟨hp, hi⟩ := store_ok hstore
    have hholds : (pool.range c.range).holds value = true := by simpa using hholds
    have hcolumn := holds_column hholds
    rw [column_range] at hcolumn
    exact within_give (resolve_mem hresolve) (hp ▸ SameScopes.refl _) hcolumn hi
  · exact nomatch h

/-- Releases take numbers away. -/
theorem release_within {p : Identity → Bool} {recyclable : Option Bool}
    (h : db.store db.pools (releaseWhere db.identities p recyclable) = .ok db') : (board db').Within (board db) := by
  obtain ⟨hpools, hids⟩ := store_ok h
  refine within_of_heldIn (hpools ▸ SameScopes.refl _) fun k x hx => Or.inr ?_
  rw [hids] at hx
  obtain ⟨i', hi', hpool, hactive, hv⟩ := hx
  obtain ⟨i, hi, rfl⟩ := List.mem_map.mp hi'
  split at hactive
  · exact nomatch hactive
  · next hkeep =>
    rw [if_neg hkeep] at hpool hv
    exact ⟨i, hi, hpool, hactive, hv⟩

theorem releasePosixAllocations_within {consumer : Consumer} {inUse : List ℕ}
    (h : releasePosixAllocations db consumer inUse = .ok db') : (board db').Within (board db) := by
  obtain ⟨db₁, hstore, hrest⟩ := bind_eq_ok.mp h
  have hfirst := release_within hstore
  split at hrest
  · exact (release_within hrest).trans hfirst
  · obtain rfl := Except.ok.inj hrest
    exact hfirst

end Ranges

end Waldur.PosixIds
