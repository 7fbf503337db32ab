import Mathlib
import Waldur.Lib.TableCounts
import Waldur.Marketplace.PosixNumbers

/-!
# Marketplace.PosixDepartures — numbers that leave their holder and numbers that are issued

What left and what was issued is read off the rows before and after a step, `canIssue` says what a pool could
hand out, and each number that is handed out is one that its pool could.
-/

namespace Waldur.PosixIds

open Relational Runs

/-! ## What leaves and what is issued -/

/-- A number in the hands of a principal, in the column of a provider. -/
structure Holding where
  customer : ℕ
  column : Namespace
  value : ℤ
  principal : Principal
deriving DecidableEq, Repr

/-- The number that a row carries in a column. -/
def holdingOf (pools : Pools) (i : Identity) (c : Namespace) : Option Holding :=
  match i.value c, customerOf pools i.pool with
  | some value, some customer => some ⟨customer, c, value, i.principal⟩
  | _, _ => none

/-- The row was overwritten in the column, or released without being recyclable. -/
def leaves (identities' : Identities) (i : Identity) (c : Namespace) : Bool :=
  (identities'.get? i.id).any fun j => if j.released then !j.recyclable else j.value c != i.value c

/-- The numbers that left their holder between two ledgers. -/
def departures (db : Db) (identities' : Identities) : List Holding :=
  (db.identities.rows.filter fun i => !i.released).flatMap fun i =>
    (Namespace.all.filter (leaves identities' i)).filterMap (holdingOf db.pools i)

/-- The row carried the number before. -/
def carried (identities : Identities) (i : Identity) (c : Namespace) : Bool :=
  (identities.get? i.id).any fun j => !j.released && j.value c == i.value c

/-- The numbers that were issued between two ledgers. -/
def issued (db db' : Db) : List Holding :=
  (db'.identities.rows.filter fun i => !i.released).flatMap fun i =>
    (Namespace.all.filter fun c => !carried db.identities i c).filterMap (holdingOf db'.pools i)

/-- The number is handed out by the code and not by hand. -/
def Op.automatic : Op → Bool
  | .allocate .. | .allocateProjectGroupGid _ => true
  | _ => false

/-- A row of the selection that `return_values_to_the_pool` rewrites. -/
def returned (selected : List ℕ) (i : Identity) : Bool := i.released && !i.recyclable && selected.contains i.id

/-- `return_values_to_the_pool`. -/
def returnValues (identities : Identities) (selected : List ℕ) : Identities :=
  identities.mapRows (fun i => if returned selected i then { i with recyclable := true } else i)
    (fun i => by split <;> rfl)

inductive LedgerOp
  | op (op : Op)
  | returnValuesToThePool (selected : List ℕ)

/-- The tables, and the numbers that left and that no operator has returned since. -/
structure Ledger where
  db : Db
  gone : List Holding

/-- The numbers of the rows that are returned. -/
def returns (db : Db) (selected : List ℕ) : List Holding :=
  (db.identities.rows.filter (returned selected)).flatMap fun i => Namespace.all.filterMap (holdingOf db.pools i)

def Ledger.step (s : Ledger) : LedgerOp → Ledger
  | .op op => ⟨PosixIds.step s.db op, s.gone ++ departures s.db (PosixIds.step s.db op).identities⟩
  | .returnValuesToThePool selected =>
    match s.db.store s.db.pools (returnValues s.db.identities selected) with
    | .ok db => ⟨db, s.gone.filter fun y => !(returns s.db selected).contains y⟩
    | .error _ => s

/-- A number that is handed out automatically left nobody else. -/
def NeverReissued (s : Ledger) : LedgerOp → Prop
  | .op op => op.automatic = true → ∀ x ∈ issued s.db (PosixIds.step s.db op), ∀ y ∈ s.gone,
      y.customer = x.customer → y.column = x.column → y.value = x.value → y.principal = x.principal
  | .returnValuesToThePool _ => True

instance (s : Ledger) (op : LedgerOp) : Decidable (NeverReissued s op) := by
  unfold NeverReissued
  split <;> infer_instance

/-! ## What a pool could hand out -/

/-- No row of the pool withholds the number and a range holds it that counting has not passed, or that has it
back for recycling. -/
def canIssue (db : Db) (p : Pool) (c : Namespace) (v : ℤ) : Bool :=
  !(withheldValues db p.id c).contains v && RangeName.all.any fun r => r.column == c && (p.range r).holds v &&
    ((p.range r).next.any (· ≤ v) || r == c.range && (recyclableValues db p.id c).contains v)

/-- A pool of the provider could hand out the number. -/
def someIssues (db : Db) (customer : ℕ) (c : Namespace) (v : ℤ) (except : List ℕ) : Bool :=
  (providerPools db customer).any fun p => !except.contains p.id && canIssue db p c v

/-- The number is in the range that the pool recycles for, and no row of the pool withholds it. -/
def recallable (db : Db) (k : ℕ) (c : Namespace) (v : ℤ) : Bool :=
  (db.pools.get? k).any (fun p => (p.range c.range).holds v) && !(withheldValues db k c).contains v

/-! ## Rows before and after -/

section Rows

variable {db db' : Db} {ids ids' : Identities} {k : ℕ} {c : Namespace} {v : ℤ}

theorem get?_saveIdentity (ids : Identities) (j : Identity) (k : ℕ) :
    (saveIdentity ids j).get? k = if k = j.id then some j else ids.get? k := by
  unfold saveIdentity
  split
  · exact Table.get?_insert ids j _ k
  · next h =>
    by_cases hk : k = j.id
    · obtain ⟨i, hi⟩ := Option.ne_none_iff_exists'.mp h
      obtain ⟨-, hid⟩ := Table.get?_eq_some.mp hi
      rw [if_pos hk, hk, Table.get?_update_self, hi, Option.map_some]
      simp only [hid]
    · rw [if_neg hk, Table.get?_update_ne _ _ _ hk]

theorem mem_columnValues {p : Identity → Bool} :
    v ∈ columnValues db k c p ↔ ∃ i ∈ db.identities.rows, i.pool = k ∧ p i = true ∧ i.value c = some v := by
  unfold columnValues
  simp only [List.mem_filterMap, List.mem_filter, Bool.and_eq_true, beq_iff_eq, and_assoc]

theorem mem_recyclable : v ∈ recyclableValues db k c ↔
    ∃ i ∈ db.identities.rows, i.pool = k ∧ (i.released = true ∧ i.recyclable = true) ∧ i.value c = some v := by
  unfold recyclableValues
  rw [mem_columnValues]
  simp only [Bool.and_eq_true]

theorem mem_withheld : v ∈ withheldValues db k c ↔
    ∃ i ∈ db.identities.rows, i.pool = k ∧ (i.released = true ∧ i.recyclable = false) ∧ i.value c = some v := by
  unfold withheldValues
  rw [mem_columnValues]
  simp only [Bool.and_eq_true, Bool.not_eq_true']

theorem holdingOf_eq_some {pools : Pools} {i : Identity} {y : Holding} :
    holdingOf pools i c = some y ↔
      y.column = c ∧ i.value c = some y.value ∧ customerOf pools i.pool = some y.customer ∧ y.principal = i.principal := by
  obtain ⟨customer, column, value, principal⟩ := y
  unfold holdingOf
  cases hv : i.value c <;> cases hcustomer : customerOf pools i.pool <;> simp [eq_comm, and_comm, and_left_comm]

theorem mem_departures {y : Holding} : y ∈ departures db ids' ↔
    ∃ i ∈ db.identities.rows, i.released = false ∧ leaves ids' i y.column = true ∧
      holdingOf db.pools i y.column = some y := by
  unfold departures
  simp only [List.mem_flatMap, List.mem_filter, List.mem_filterMap, Bool.not_eq_true', and_assoc]
  constructor
  · rintro ⟨i, hi, hactive, c, -, hleaves, hy⟩
    obtain rfl := (holdingOf_eq_some.mp hy).1
    exact ⟨i, hi, hactive, hleaves, hy⟩
  · rintro ⟨i, hi, hactive, hleaves, hy⟩
    exact ⟨i, hi, hactive, y.column, Namespace.mem_all _, hleaves, hy⟩

theorem mem_issued {y : Holding} : y ∈ issued db db' ↔
    ∃ i ∈ db'.identities.rows, i.released = false ∧ carried db.identities i y.column = false ∧
      holdingOf db'.pools i y.column = some y := by
  unfold issued
  simp only [List.mem_flatMap, List.mem_filter, List.mem_filterMap, Bool.not_eq_true', and_assoc]
  constructor
  · rintro ⟨i, hi, hactive, c, -, hcarried, hy⟩
    obtain rfl := (holdingOf_eq_some.mp hy).1
    exact ⟨i, hi, hactive, hcarried, hy⟩
  · rintro ⟨i, hi, hactive, hcarried, hy⟩
    exact ⟨i, hi, hactive, y.column, Namespace.mem_all _, hcarried, hy⟩

/-- The released rows stay as they are, and a row is released only if it was before or is withheld. -/
structure KeepsReleased (ids ids' : Identities) : Prop where
  stay : ∀ i ∈ ids.rows, i.released = true → i ∈ ids'.rows
  fresh : ∀ i ∈ ids'.rows, i.released = true → i ∈ ids.rows ∨ i.recyclable = false

theorem KeepsReleased.refl (ids : Identities) : KeepsReleased ids ids := ⟨fun _ hi _ => hi, fun _ hi _ => Or.inl hi⟩

theorem KeepsReleased.trans {ids'' : Identities} (h : KeepsReleased ids ids') (h' : KeepsReleased ids' ids'') :
    KeepsReleased ids ids'' := by
  refine ⟨fun i hi hr => h'.stay i (h.stay i hi hr) hr, fun i hi hr => ?_⟩
  rcases h'.fresh i hi hr with hi | hw
  · exact h.fresh i hi hr
  · exact Or.inr hw

/-- A row is saved over an active one or under a new key; it is active itself or withheld. -/
theorem keepsReleased_save {j : Identity} (hover : ∀ i ∈ ids.rows, i.id = j.id → i.released = false)
    (hj : j.released = true → j.recyclable = false) : KeepsReleased ids (saveIdentity ids j) := by
  constructor
  · intro i hi hr
    have hne : i.id ≠ j.id := fun hid => by
      have hactive := hover i hi hid
      rw [hr] at hactive
      exact nomatch hactive
    have hget : (saveIdentity ids j).get? i.id = some i := by
      rw [get?_saveIdentity, if_neg hne]
      exact Table.get?_eq_some.mpr ⟨hi, rfl⟩
    exact (Table.get?_eq_some.mp hget).1
  · intro i hi hr
    rcases mem_saveIdentity hi with rfl | hi
    · exact Or.inr (hj hr)
    · exact Or.inl hi

theorem KeepsReleased.recyclable (h : KeepsReleased db.identities db'.identities)
    (hv : v ∈ recyclableValues db' k c) : v ∈ recyclableValues db k c := by
  obtain ⟨i, hi, hpool, ⟨hr, hrecyclable⟩, hvalue⟩ := mem_recyclable.mp hv
  rcases h.fresh i hi hr with hi | hw
  · exact mem_recyclable.mpr ⟨i, hi, hpool, ⟨hr, hrecyclable⟩, hvalue⟩
  · rw [hrecyclable] at hw
    exact nomatch hw

theorem KeepsReleased.withheld (h : KeepsReleased db.identities db'.identities)
    (hv : v ∈ withheldValues db k c) : v ∈ withheldValues db' k c := by
  obtain ⟨i, hi, hpool, hr, hvalue⟩ := mem_withheld.mp hv
  exact mem_withheld.mpr ⟨i, h.stay i hi hr.1, hpool, hr, hvalue⟩

/-- A row that keeps its place in the table does not leave, another one leaves where it is overwritten. -/
theorem leaves_saveIdentity {i j : Identity} (hi : i ∈ ids.rows) (hactive : i.released = false) :
    leaves (saveIdentity ids j) i c = true →
      i.id = j.id ∧ (if j.released then !j.recyclable else j.value c != i.value c) = true := by
  unfold leaves
  rw [get?_saveIdentity]
  by_cases hid : i.id = j.id
  · rw [if_pos hid]
    exact fun h => ⟨hid, h⟩
  · rw [if_neg hid, Table.get?_eq_some.mpr ⟨hi, rfl⟩, Option.any_some, hactive]
    simp

end Rows

/-! ## What a pool can hand out -/

section Issues

variable {db db' : Db} {pool p p' : Pool} {c : Namespace} {v : ℤ} {r : RangeName}

theorem canIssue_iff : canIssue db p c v = true ↔ v ∉ withheldValues db p.id c ∧
    ∃ r : RangeName, r.column = c ∧ (p.range r).holds v = true ∧
      ((p.range r).next.any (· ≤ v) = true ∨ r = c.range ∧ v ∈ recyclableValues db p.id c) := by
  unfold canIssue
  rw [Bool.and_eq_true, Bool.not_eq_true', List.any_eq_true]
  simp only [RangeName.mem_all, true_and, Bool.and_eq_true, Bool.or_eq_true, beq_iff_eq, and_assoc,
    List.contains_eq_mem, decide_eq_true_eq, decide_eq_false_iff_not]

/-- The pool is the same one, with the same ranges and no mark moved back. -/
structure MarkKept (p' p : Pool) : Prop where
  id : p'.id = p.id
  customer : p'.customer = p.customer
  holds : ∀ r v, ((p'.range r).holds v = true) → (p.range r).holds v = true
  next : ∀ r v, ((p'.range r).next.any (· ≤ v) = true) → (p.range r).next.any (· ≤ v) = true

theorem MarkKept.refl (p : Pool) : MarkKept p p := ⟨rfl, rfl, fun _ _ h => h, fun _ _ h => h⟩

/-- A pool can hand out what it could before. -/
theorem canIssue_mono (hp : MarkKept p' p)
    (hrecyclable : v ∈ recyclableValues db' p.id c → v ∈ recyclableValues db p.id c)
    (hwithheld : v ∈ withheldValues db p.id c → v ∈ withheldValues db' p.id c)
    (h : canIssue db' p' c v = true) : canIssue db p c v = true := by
  obtain ⟨hnot, r, hcolumn, hholds, hopen⟩ := canIssue_iff.mp h
  rw [hp.id] at hnot hopen
  refine canIssue_iff.mpr ⟨fun hv => hnot (hwithheld hv), r, hcolumn, hp.holds r v hholds, ?_⟩
  rcases hopen with hnext | ⟨hr, hv⟩
  · exact Or.inl (hp.next r v hnext)
  · exact Or.inr ⟨hr, hrecyclable hv⟩

theorem someIssues_eq_false {customer : ℕ} {except : List ℕ} : someIssues db customer c v except = false ↔
    ∀ p ∈ db.pools.rows, p.customer = some customer → p.id ∉ except → canIssue db p c v = false := by
  unfold someIssues
  rw [List.any_eq_false]
  constructor
  · intro h p hp hcustomer hid
    have hnot := h p ((mem_providerPools hp).mpr hcustomer)
    simpa [hid] using hnot
  · intro h p hp
    have hmem := (List.mem_filter.mp hp).1
    by_cases hid : p.id ∈ except
    · simp [hid]
    · simp [h p hmem ((mem_providerPools hmem).mp hp) hid]

theorem countedValue_next (h : countedValue db pool r = some v) : (pool.range r).next.any (· ≤ v) = true := by
  unfold countedValue at h
  split at h
  · next start max hnext hmax =>
    simp only at h
    split at h
    · exact nomatch h
    obtain rfl := Option.some.inj h
    rw [hnext, Option.any_some, decide_eq_true_eq]
    exact le_countUp _ _ _
  · exact nomatch h

/-- What `_candidate_value` finds is a number that the pool can hand out. -/
theorem candidateValue_canIssue {recycle : Bool} (hpool : pool ∈ db.pools.rows)
    (hrecycle : recycle = true → r = r.column.range) (h : (candidateValue db pool r recycle).1 = some v) :
    canIssue db pool r.column v = true := by
  have hholds := candidateValue_holds ((db.constraints.checked pool hpool).2.2 r (RangeName.mem_all r)) h
  refine canIssue_iff.mpr ⟨(candidateValue_new h).2, r, rfl, hholds, ?_⟩
  unfold candidateValue at h
  split at h
  · next value hvalue =>
    obtain rfl := Option.some.inj h
    split at hvalue
    · next hon => exact Or.inr ⟨hrecycle hon, (List.mem_filter.mp (List.min?_mem hvalue)).1⟩
    · exact nomatch hvalue
  · exact Or.inl (countedValue_next h)

/-- The mark only moves past the number that was taken. -/
theorem markKept_setNext {next : ℤ} (hnext : (p.range r).next.any (· < next) = true) :
    MarkKept (p.setNext next r) p where
  id := by cases r <;> rfl
  customer := by cases r <;> rfl
  holds := fun r' v h => by cases r <;> cases r' <;> exact h
  next := fun r' v h => by
    obtain ⟨mark, hmark⟩ := Option.isSome_iff_exists.mp (Option.isSome_of_any hnext)
    rw [hmark, Option.any_some, decide_eq_true_eq] at hnext
    by_cases hr : r' = r
    · have hle : next ≤ v := by cases r <;> subst hr <;> simpa [Pool.setNext, Pool.range] using h
      rw [hr, hmark, Option.any_some, decide_eq_true_eq]
      omega
    · have hsame : ((p.setNext next r).range r').next = (p.range r').next := by
        cases r <;> cases r' <;> first | rfl | exact absurd rfl hr
      rwa [hsame] at h

end Issues

/-! ## Numbers given to a principal -/

section Given

variable {db db' : Db} {pool : Pool} {c : Namespace} {v : ℤ} {r : RangeName}

theorem freshId_unused {ids : Identities} {i : Identity} (hi : i ∈ ids.rows) : i.id ≠ freshId ids :=
  Table.get?_eq_none.mp (Table.get?_freshId ids) i hi

/-- The row that a number is written to is the active one of the principal, or new. -/
theorem getOrCreate_over {k : ℕ} {principal : Principal} {i : Identity} (hi : i ∈ db.identities.rows)
    (hid : i.id = (getOrCreateActiveIdentity db k principal).id) :
    i = getOrCreateActiveIdentity db k principal ∧ activeIdentity db k principal = some i := by
  unfold getOrCreateActiveIdentity at hid ⊢
  cases h : activeIdentity db k principal with
  | none =>
    rw [h] at hid
    exact absurd hid (freshId_unused hi)
  | some j =>
    rw [h] at hid
    have hmem := (activeIdentity_some h).1
    obtain rfl := db.identities.eq_of_key_eq hi hmem hid
    exact ⟨rfl, rfl⟩

theorem getOrCreate_active (k : ℕ) (principal : Principal) :
    (getOrCreateActiveIdentity db k principal).released = false := by
  unfold getOrCreateActiveIdentity
  cases h : activeIdentity db k principal with
  | none => rfl
  | some i => exact (activeIdentity_some h).2.2.1

@[simp] theorem released_setValue (i : Identity) (v : ℤ) (c : Namespace) : (i.setValue v c).released = i.released := by
  cases c <;> rfl

@[simp] theorem id_setValue (i : Identity) (v : ℤ) (c : Namespace) : (i.setValue v c).id = i.id := by
  cases c <;> rfl

theorem keepsReleased_give (k : ℕ) (principal : Principal) (v : ℤ) (c : Namespace) :
    KeepsReleased db.identities
      (saveIdentity db.identities ((getOrCreateActiveIdentity db k principal).setValue v c)) := by
  refine keepsReleased_save (fun i hi hid => ?_) fun hr => ?_
  · rw [id_setValue] at hid
    rw [(getOrCreate_over hi hid).1]
    exact getOrCreate_active k principal
  · rw [released_setValue, getOrCreate_active] at hr
    exact nomatch hr

/-- The only number that leaves is the one that is overwritten. -/
theorem departures_give {k : ℕ} {principal : Principal} {y : Holding}
    (hy : y ∈ departures db (saveIdentity db.identities ((getOrCreateActiveIdentity db k principal).setValue v c))) :
    y.column = c ∧ y.value ≠ v ∧ ∃ i, activeIdentity db k principal = some i ∧ holdingOf db.pools i c = some y := by
  obtain ⟨i, hi, hactive, hleaves, hholding⟩ := mem_departures.mp hy
  obtain ⟨hid, hchanged⟩ := leaves_saveIdentity hi hactive hleaves
  rw [id_setValue] at hid
  obtain ⟨hrow, hsome⟩ := getOrCreate_over hi hid
  rw [released_setValue, getOrCreate_active, if_neg (by simp), bne_iff_ne, value_setValue, ← hrow] at hchanged
  by_cases hc : y.column = c
  · rw [if_pos hc] at hchanged
    obtain ⟨-, hv, -⟩ := holdingOf_eq_some.mp hholding
    refine ⟨hc, fun h => hchanged ?_, i, hsome, hc ▸ hholding⟩
    rw [hv, h]
  · rw [if_neg hc] at hchanged
    exact absurd rfl hchanged

/-- A number that is handed out automatically, and what the tables are then. -/
structure Handed (db db' : Db) (pool : Pool) (c : Namespace) (v : ℤ) (principal : Principal) : Prop where
  mem : pool ∈ db.pools.rows
  issues : canIssue db pool c v = true
  marks : ∀ p' ∈ db'.pools.rows, ∃ p ∈ db.pools.rows, MarkKept p' p
  scopes : SameScopes db'.pools db.pools
  empty : (getOrCreateActiveIdentity db pool.id principal).value c = none
  rows : db'.identities =
    saveIdentity db.identities ((getOrCreateActiveIdentity db pool.id principal).setValue v c)

theorem nextValue_marks {recycle : Bool} {pools : Pools} (hpool : pool ∈ db.pools.rows)
    (h : nextValue db pool r recycle = (some v, pools)) :
    (candidateValue db pool r recycle).1 = some v ∧ ∀ p' ∈ pools.rows, ∃ p ∈ db.pools.rows, MarkKept p' p := by
  unfold nextValue at h
  split at h
  · next value heq =>
    obtain ⟨hv, rfl⟩ := Prod.mk.inj h
    obtain rfl := Option.some.inj hv
    refine ⟨by rw [heq], fun p' hp' => ?_⟩
    obtain ⟨p, hp, rfl⟩ := Table.mem_update.mp hp'
    refine ⟨p, hp, ?_⟩
    by_cases hid : p.id = pool.id
    · obtain rfl := db.pools.eq_of_key_eq hp hpool hid
      rw [if_pos rfl]
      have hcounted : countedValue db p r = some value := by
        unfold candidateValue at heq
        split at heq
        · exact nomatch (Prod.mk.inj heq).2
        · exact (Prod.mk.inj heq).1
      refine markKept_setNext ?_
      have hnext := countedValue_next hcounted
      cases hmark : (p.range r).next with
      | none => rw [hmark] at hnext; exact nomatch hnext
      | some mark =>
        rw [hmark, Option.any_some, decide_eq_true_eq] at hnext
        rw [Option.any_some, decide_eq_true_eq]
        omega
    · rw [if_neg hid]
      exact MarkKept.refl p
  · next heq =>
    obtain ⟨hv, rfl⟩ := Prod.mk.inj h
    exact ⟨by rw [heq, ← hv], fun p hp => ⟨p, hp, MarkKept.refl p⟩⟩

/-- Nothing is written, or a number is handed out. -/
theorem allocateInPool_spec {consumer : Consumer} {recycle : Bool} (hpool : pool ∈ db.pools.rows)
    (hrecycle : recycle = true → r = r.column.range) (h : allocateInPool db pool r consumer recycle = .ok (db', v)) :
    db' = db ∨ Handed db db' pool r.column v consumer.principal := by
  unfold allocateInPool at h
  simp only at h
  split at h
  · obtain ⟨rfl, -⟩ := Prod.mk.inj (Except.ok.inj h)
    exact Or.inl rfl
  next hnone =>
  split at h
  · exact nomatch h
  · next value pools hnext =>
    obtain ⟨db₁, hstore, hret⟩ := bind_eq_ok.mp h
    obtain ⟨rfl, rfl⟩ := Prod.mk.inj (Except.ok.inj hret)
    obtain ⟨hcandidate, hmarks⟩ := nextValue_marks hpool hnext
    obtain ⟨hp, hi⟩ := store_ok hstore
    exact Or.inr ⟨hpool, candidateValue_canIssue hpool hrecycle hcandidate, hp ▸ hmarks,
      hp ▸ (nextValue_spec hpool hnext).2, hnone, hi⟩

theorem allocate_spec {offering : Offering} {consumer : Consumer} {value : Option ℤ}
    (h : allocate db offering c consumer = .ok (db', value)) :
    db' = db ∨ ∃ pool v, Handed db db' pool c v consumer.principal := by
  unfold allocate at h
  split at h
  · exact Or.inl (Prod.mk.inj (Except.ok.inj h)).1.symm
  split at h
  · exact Or.inl (Prod.mk.inj (Except.ok.inj h)).1.symm
  next pool hresolve =>
  split at h
  · exact Or.inl (Prod.mk.inj (Except.ok.inj h)).1.symm
  · obtain ⟨⟨db₁, v⟩, halloc, heq⟩ := map_eq_ok.mp h
    obtain ⟨rfl, -⟩ := Prod.mk.inj heq
    rcases allocateInPool_spec (resolve_mem hresolve) (fun _ => by rw [column_range]) halloc with heq | hhanded
    · exact Or.inl heq
    · rw [column_range] at hhanded
      exact Or.inr ⟨pool, v, hhanded⟩

theorem allocateGid_spec {group : ProjectGroup} (h : allocateGid db group = .ok db') :
    (db'.pools = db.pools ∧ db'.identities = db.identities) ∨
      ∃ pool c v, Handed db db' pool c v group.consumer.principal := by
  unfold allocateGid at h
  split at h
  · obtain rfl := Except.ok.inj h
    exact Or.inl ⟨rfl, rfl⟩
  split at h
  · exact nomatch h
  · next db₁ halloc =>
    obtain rfl := Except.ok.inj h
    unfold allocateProjectGroupGid at halloc
    split at halloc
    · obtain ⟨rfl, -⟩ := Prod.mk.inj (Except.ok.inj halloc)
      exact Or.inl ⟨rfl, rfl⟩
    split at halloc
    · obtain ⟨rfl, -⟩ := Prod.mk.inj (Except.ok.inj halloc)
      exact Or.inl ⟨rfl, rfl⟩
    · obtain ⟨_, -, heq⟩ := map_eq_ok.mp halloc
      exact nomatch (Prod.mk.inj heq).2
  · next db₁ gid halloc =>
    obtain rfl := Except.ok.inj h
    unfold allocateProjectGroupGid at halloc
    split at halloc
    · exact nomatch (Prod.mk.inj (Except.ok.inj halloc)).2
    next pool hpool =>
    split at halloc
    · exact nomatch (Prod.mk.inj (Except.ok.inj halloc)).2
    next r hr =>
    obtain ⟨⟨db₂, v⟩, hin, heq⟩ := map_eq_ok.mp halloc
    obtain ⟨rfl, -⟩ := Prod.mk.inj heq
    rcases allocateInPool_spec (providerPool_mem hpool).1 (by intro hon; exact nomatch hon) hin with rfl | hhanded
    · exact Or.inl ⟨rfl, rfl⟩
    · exact Or.inr ⟨pool, _, v, hhanded.mem, hhanded.issues, hhanded.marks, hhanded.scopes, hhanded.empty, hhanded.rows⟩

end Given

end Waldur.PosixIds
