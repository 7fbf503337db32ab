import Mathlib
import Waldur.Lib.Runs

/-!
# RowLocks — transactions over rows with locks, read committed

A script is what a transaction still has to do: take row locks, read rows, write rows, or fail.  A write
overwrites a row with a number computed earlier and records the difference to the number it was computed
from.  Locks are held to the end; a transaction reads committed values and its own writes; a write takes
the lock of its row.  Any number of transactions advance in any order, and any of them may be aborted.

`Honest` says of a script that a row it has locked is still what it takes it for when it writes it.  The
main rule: if every script is honest and every write to a row without a lock finds the number it was
computed from, then the committed values are the initial ones plus what is recorded (`no_lost_update`).
Scripts that lock every row before they write it need no such condition (`no_lost_update_of_strict`).
-/

namespace RowLocks

open Runs

section Model

variable {κ A : Type}

/-- What a transaction still has to do. -/
inductive Script (κ A : Type)
  | done
  | raise
  | lock (k : κ) (next : Script κ A)
  | select (ks : List κ) (next : (κ → A) → Script κ A)
  | write (k : κ) (old new : A) (next : Script κ A)

/-- A transaction in progress: its script, the values it has written and the rows it has recorded. -/
structure Thread (κ A : Type) where
  script : Script κ A
  pending : κ → Option A
  rows : List (κ × A)

structure System (κ A : Type) where
  values : κ → A
  ledger : List (κ × A) := []
  owner : κ → Option ℕ := fun _ => none
  threads : ℕ → Option (Thread κ A) := fun _ => none

inductive Op (R : Type)
  | begin (id : ℕ) (request : R)
  | advance (id : ℕ)
  | abort (id : ℕ)

/-- What a transaction sees of a row: what it has written itself, else what is committed. -/
def System.view (s : System κ A) (t : Thread κ A) (k : κ) : A := (t.pending k).getD (s.values k)

/-- The lock of the row is free, or the transaction's own. -/
def System.free (s : System κ A) (id : ℕ) (k : κ) : Bool := (s.owner k).all (· == id)

/-- The answer of a query over the rows. -/
def restrict [DecidableEq κ] [Zero A] (ks : List κ) (view : κ → A) (k : κ) : A := if k ∈ ks then view k else 0

/-- The transaction ends; its locks are free again. -/
def System.close (s : System κ A) (id : ℕ) : System κ A :=
  { s with
    owner := fun k => if s.owner k = some id then none else s.owner k
    threads := Function.update s.threads id none }

/-- What the transaction wrote and recorded becomes visible. -/
def System.commit (s : System κ A) (id : ℕ) (t : Thread κ A) : System κ A :=
  { s.close id with values := s.view t, ledger := s.ledger ++ t.rows }

variable [DecidableEq κ] [AddCommGroup A] [DecidableEq A]

/-- The row of a write; a movement of nothing is not recorded. -/
def record (k : κ) (old new : A) : List (κ × A) := if new = old then [] else [(k, new - old)]

/-- The next action of a transaction; it waits where another one holds the lock. -/
def System.advance (s : System κ A) (id : ℕ) (t : Thread κ A) : System κ A :=
  match t.script with
  | .done => s.commit id t
  | .raise => s.close id
  | .lock k next =>
    if s.free id k then
      { s with
        owner := Function.update s.owner k (some id)
        threads := Function.update s.threads id (some { t with script := next }) }
    else s
  | .select ks next =>
    { s with threads := Function.update s.threads id (some { t with script := next (restrict ks (s.view t)) }) }
  | .write k old new next =>
    if s.free id k then
      { s with
        owner := Function.update s.owner k (some id)
        threads := Function.update s.threads id (some
          { script := next, pending := Function.update t.pending k (some new), rows := t.rows ++ record k old new }) }
    else s

variable {R : Type} (script : R → Script κ A)

def step (s : System κ A) : Op R → System κ A
  | .begin id request =>
    match s.threads id with
    | some _ => s
    | none => { s with threads := Function.update s.threads id (some ⟨script request, fun _ => none, []⟩) }
  | .advance id =>
    match s.threads id with
    | some t => s.advance id t
    | none => s
  | .abort id => s.close id

/-- A write to a row that nobody has locked finds the number it was computed from. -/
def FindsRead (s : System κ A) : Op R → Prop
  | .advance id =>
    match s.threads id with
    | some t =>
      match t.script with
      | .write k old _ _ => s.owner k = none → s.values k = old
      | _ => True
    | none => True
  | _ => True

instance (s : System κ A) (op : Op R) : Decidable (FindsRead s op) := by
  unfold FindsRead
  split
  · split
    · split <;> infer_instance
    · infer_instance
  · infer_instance

end Model

/-! ## Honest scripts -/

section Agree

variable {κ A : Type} {locked : Set κ} {view view' : κ → A}

/-- Two views of the rows that agree on the locked ones. -/
def Agree (locked : Set κ) (view view' : κ → A) : Prop := ∀ k ∈ locked, view' k = view k

theorem Agree.refl (locked : Set κ) (view : κ → A) : Agree locked view view := fun _ _ => rfl

theorem Agree.trans {view'' : κ → A} (h : Agree locked view view') (h' : Agree locked view' view'') :
    Agree locked view view'' := fun k hk => (h' k hk).trans (h k hk)

theorem Agree.mono {locked' : Set κ} (hsub : locked' ⊆ locked) (h : Agree locked view view') :
    Agree locked' view view' := fun k hk => h k (hsub hk)

end Agree

section Honest

variable {κ A : Type} [DecidableEq κ] [Zero A]

/-- A locked row that the script writes still has the number the write was computed from, whatever the
other rows become in the meantime; if `strict`, it writes locked rows only. -/
def Honest (strict : Prop) : Script κ A → Set κ → (κ → A) → Prop
  | .done, _, _ => True
  | .raise, _, _ => True
  | .lock k next, locked, view => ∀ view', Agree locked view view' → Honest strict next (insert k locked) view'
  | .select ks next, locked, view =>
    ∀ view', Agree locked view view' → Honest strict (next (restrict ks view')) locked view'
  | .write k old new next, locked, view => (k ∈ locked → view k = old) ∧ (strict → k ∈ locked) ∧
      ∀ view', Agree locked view view' → Honest strict next (insert k locked) (Function.update view' k new)

variable {strict : Prop} {locked : Set κ} {view view' : κ → A}

/-- What other transactions do to the rows that are not locked does not matter. -/
theorem Honest.agree {script : Script κ A} (h : Honest strict script locked view) (ha : Agree locked view view') :
    Honest strict script locked view' := by
  cases script with
  | done => trivial
  | raise => trivial
  | lock k next => exact fun view'' h' => h view'' (ha.trans h')
  | select ks next => exact fun view'' h' => h view'' (ha.trans h')
  | write k old new next =>
    exact ⟨fun hk => (ha k hk).trans (h.1 hk), h.2.1, fun view'' h' => h.2.2 view'' (ha.trans h')⟩

end Honest

/-! ## Runs -/

section Amount

variable {κ A : Type} [DecidableEq κ] [AddCommGroup A]

/-- What the rows record for one row of the table. -/
def amount (rows : List (κ × A)) (k : κ) : A := ((rows.filter fun row => row.1 == k).map (·.2)).sum

@[simp] theorem amount_nil (k : κ) : amount ([] : List (κ × A)) k = 0 := rfl

theorem amount_append (rows rows' : List (κ × A)) (k : κ) :
    amount (rows ++ rows') k = amount rows k + amount rows' k := by
  unfold amount
  rw [List.filter_append, List.map_append, List.sum_append]

theorem amount_record [DecidableEq A] (k : κ) (old new : A) (k' : κ) :
    amount (record k old new) k' = if k' = k then new - old else 0 := by
  unfold record amount
  by_cases hv : new = old
  · simp [hv]
  · by_cases hk : k' = k
    · simp [hv, hk]
    · have hne : (k == k') = false := by simpa using Ne.symm hk
      simp [hv, hk, hne]

end Amount

section Locks

variable {κ A : Type} {s : System κ A} {id : ℕ} {k : κ}

theorem owner_close (s : System κ A) (id : ℕ) {id' : ℕ} (hid : id' ≠ id) (k : κ) :
    (s.close id).owner k = some id' ↔ s.owner k = some id' := by
  show (if s.owner k = some id then none else s.owner k) = some id' ↔ _
  by_cases hk : s.owner k = some id
  · rw [if_pos hk, hk]
    exact ⟨nofun, fun h => absurd (Option.some.inj h).symm hid⟩
  · rw [if_neg hk]

theorem free_iff : s.free id k = true ↔ s.owner k = none ∨ s.owner k = some id := by
  unfold System.free
  cases s.owner k <;> simp

variable [DecidableEq κ]

/-- The lock of a row that is free goes to the transaction; those of the others stay. -/
theorem owner_take (hfree : s.free id k = true) {id' : ℕ} (hid : id' ≠ id) (k' : κ) :
    Function.update s.owner k (some id) k' = some id' ↔ s.owner k' = some id' := by
  by_cases hk : k' = k
  · rw [hk, Function.update_self]
    have hne : s.owner k ≠ some id' := by
      rcases free_iff.mp hfree with hnone | hown
      · rw [hnone]
        exact nofun
      · rw [hown]
        exact fun h => hid (Option.some.inj h).symm
    exact iff_of_false (fun h => hid (Option.some.inj h).symm) hne
  · rw [Function.update_of_ne hk]

theorem locked_take (s : System κ A) (id : ℕ) (k : κ) :
    {k' | Function.update s.owner k (some id) k' = some id} = insert k {k' | s.owner k' = some id} := by
  ext k'
  by_cases hk : k' = k
  · simp [hk]
  · simp [hk]

end Locks

section Run

variable {κ A : Type} [DecidableEq κ] [AddCommGroup A] {s : System κ A}

/-- A transaction in progress: it has locked what it has written, it has recorded what it has changed, and
what it still does is honest. -/
structure Sound (strict : Prop) (s : System κ A) (id : ℕ) (t : Thread κ A) : Prop where
  pending : ∀ k, t.pending k ≠ none → s.owner k = some id
  rows : ∀ k, s.view t k = s.values k + amount t.rows k
  honest : Honest strict t.script {k | s.owner k = some id} (s.view t)

structure Consistent (strict : Prop) (init : κ → A) (s : System κ A) : Prop where
  ledger : ∀ k, s.values k = init k + amount s.ledger k
  owner : ∀ k id, s.owner k = some id → s.threads id ≠ none
  sound : ∀ id t, s.threads id = some t → Sound strict s id t

/-- A transaction notices of a step only what it does to its locks and to the committed values. -/
theorem Sound.frame {s' : System κ A} {id : ℕ} {t : Thread κ A} (h : Sound strict s id t)
    (howner : ∀ k, s'.owner k = some id ↔ s.owner k = some id)
    (hvalues : ∀ k, s.owner k = some id → s'.values k = s.values k) : Sound strict s' id t := by
  have hview : ∀ k, s.owner k = some id → s'.view t k = s.view t k := fun k hk => by
    unfold System.view
    rw [hvalues k hk]
  have hlocked : {k | s'.owner k = some id} = {k | s.owner k = some id} := Set.ext howner
  refine ⟨fun k hk => (howner k).mpr (h.pending k hk), fun k => ?_, ?_⟩
  · have hrows := h.rows k
    by_cases hp : t.pending k = none
    · -- Not written: nothing is recorded for the row either.
      unfold System.view at hrows ⊢
      rw [hp, Option.getD_none] at hrows ⊢
      have hzero : amount t.rows k = 0 := by simpa using hrows.symm
      rw [hzero, add_zero]
    · have howned := h.pending k hp
      rw [hview k howned, hvalues k howned, hrows]
  · rw [hlocked]
    exact h.honest.agree fun k hk => hview k hk

variable {strict : Prop} {init : κ → A} {id : ℕ} {t : Thread κ A} {k : κ}

/-- A step that only concerns one transaction: the others are as they were. -/
theorem Consistent.one {s' : System κ A} (h : Consistent strict init s) (hvalues : s'.values = s.values)
    (hledger : s'.ledger = s.ledger) (howner : ∀ k id', id' ≠ id → (s'.owner k = some id' ↔ s.owner k = some id'))
    {t' : Thread κ A} (hthreads : s'.threads = Function.update s.threads id (some t')) (hsound : Sound strict s' id t') :
    Consistent strict init s' where
  ledger := fun k => by rw [hvalues, hledger, h.ledger k]
  owner := fun k id' hk => by
    rw [hthreads]
    by_cases hid : id' = id
    · rw [hid, Function.update_self]
      exact Option.some_ne_none _
    · rw [Function.update_of_ne hid]
      exact h.owner k id' ((howner k id' hid).mp hk)
  sound := fun id' t₁ ht => by
    rw [hthreads] at ht
    by_cases hid : id' = id
    · subst hid
      rw [Function.update_self] at ht
      obtain rfl := Option.some.inj ht
      exact hsound
    · rw [Function.update_of_ne hid] at ht
      exact (h.sound id' t₁ ht).frame (fun k => howner k id' hid) fun k _ => by rw [hvalues]

/-- A transaction ends with the values and rows given; the others see no change where they hold a lock. -/
theorem Consistent.end_ {values : κ → A} {ledger : List (κ × A)} (h : Consistent strict init s)
    (hledger : ∀ k, values k = init k + amount ledger k)
    (hvalues : ∀ k id', id' ≠ id → s.owner k = some id' → values k = s.values k) :
    Consistent strict init { s.close id with values := values, ledger := ledger } where
  ledger := hledger
  owner := fun k id' hk => by
    have hid : id' ≠ id := by
      rintro rfl
      have hk' : (if s.owner k = some id' then none else s.owner k) = some id' := hk
      by_cases ho : s.owner k = some id'
      · rw [if_pos ho] at hk'
        exact nomatch hk'
      · rw [if_neg ho] at hk'
        exact ho hk'
    show Function.update s.threads id none id' ≠ none
    rw [Function.update_of_ne hid]
    exact h.owner k id' ((owner_close s id hid k).mp hk)
  sound := fun id' t₁ ht => by
    have ht' : Function.update s.threads id none id' = some t₁ := ht
    by_cases hid : id' = id
    · rw [hid, Function.update_self] at ht'
      exact nomatch ht'
    · rw [Function.update_of_ne hid] at ht'
      exact (h.sound id' t₁ ht').frame (owner_close s id hid) (fun k hk => hvalues k id' hid hk)

theorem Consistent.close (h : Consistent strict init s) : Consistent strict init (s.close id) :=
  h.end_ h.ledger fun _ _ _ _ => rfl

theorem Consistent.commit (h : Consistent strict init s) (ht : s.threads id = some t) :
    Consistent strict init (s.commit id t) := by
  have hsound := h.sound id t ht
  refine h.end_ (fun k => ?_) (fun k id' hid hk => ?_)
  · rw [hsound.rows k, h.ledger k, amount_append, add_assoc]
  · have hp : t.pending k = none := by
      by_contra hne
      rw [hsound.pending k hne] at hk
      exact hid (Option.some.inj hk).symm
    unfold System.view
    rw [hp, Option.getD_none]

theorem Consistent.begin (h : Consistent strict init s) (hid : s.threads id = none) {first : Script κ A}
    (hfirst : Honest strict first ∅ s.values) :
    Consistent strict init { s with threads := Function.update s.threads id (some ⟨first, fun _ => none, []⟩) } := by
  refine h.one rfl rfl (fun _ _ _ => Iff.rfl) rfl ⟨fun k hk => absurd rfl hk, fun k => ?_, ?_⟩
  · rw [amount_nil, add_zero]
    rfl
  · have hlocked : {k | s.owner k = some id} = ∅ :=
      Set.eq_empty_of_forall_notMem fun k hk => h.owner k id hk hid
    show Honest strict first {k | s.owner k = some id} _
    rw [hlocked]
    exact hfirst

variable [DecidableEq A]

/-- Who has not begun is not in progress. -/
theorem threads_of_not_begun (script : R → Script κ A) : ∀ (ops : List (Op R)) (s : System κ A), s.threads id = none →
    (∀ request, Op.begin id request ∉ ops) → (run (step script) s ops).threads id = none
  | [], _, h, _ => h
  | op :: ops, s, h, hops => by
    refine threads_of_not_begun script ops _ ?_ fun request hmem => hops request (List.mem_cons_of_mem op hmem)
    cases op with
    | begin id' request =>
      have hne : id ≠ id' := by
        rintro rfl
        exact hops request List.mem_cons_self
      show (match s.threads id' with | some _ => s | none => _).threads id = none
      split
      · exact h
      · exact (Function.update_of_ne hne ..).trans h
    | advance id' =>
      show (match s.threads id' with | some t => s.advance id' t | none => s).threads id = none
      split
      · next t ht =>
        have hne : id ≠ id' := by
          rintro rfl
          rw [h] at ht
          exact nomatch ht
        unfold System.advance
        split
        · exact (Function.update_of_ne hne ..).trans h
        · exact (Function.update_of_ne hne ..).trans h
        · split
          · exact (Function.update_of_ne hne ..).trans h
          · exact h
        · exact (Function.update_of_ne hne ..).trans h
        · split
          · exact (Function.update_of_ne hne ..).trans h
          · exact h
      · exact h
    | abort id' =>
      show Function.update s.threads id' none id = none
      by_cases hid : id = id'
      · rw [hid, Function.update_self]
      · rw [Function.update_of_ne hid]
        exact h

/-- A write to a row that is locked, or unlocked and as it was read. -/
theorem Sound.write {old new : A} {next : Script κ A} {pending : κ → Option A} {rows : List (κ × A)}
    (h : Sound strict s id ⟨.write k old new next, pending, rows⟩) (hfree : s.free id k = true)
    (hread : s.owner k = none → s.values k = old) :
    Sound strict
      { s with
        owner := Function.update s.owner k (some id)
        threads := Function.update s.threads id (some
          { script := next, pending := Function.update pending k (some new), rows := rows ++ record k old new }) }
      id { script := next, pending := Function.update pending k (some new), rows := rows ++ record k old new } := by
  have hold : s.view ⟨.write k old new next, pending, rows⟩ k = old := by
    rcases free_iff.mp hfree with hnone | hown
    · have hp : pending k = none := by
        by_contra hne
        have howned := h.pending k hne
        rw [hnone] at howned
        exact nomatch howned
      show (pending k).getD (s.values k) = old
      rw [hp, Option.getD_none]
      exact hread hnone
    · exact h.honest.1 hown
  have hview : ∀ k', ((Function.update pending k (some new)) k').getD (s.values k') =
      Function.update (s.view ⟨.write k old new next, pending, rows⟩) k new k' := by
    intro k'
    by_cases hk : k' = k
    · rw [hk, Function.update_self, Function.update_self, Option.getD_some]
    · rw [Function.update_of_ne hk, Function.update_of_ne hk]
      rfl
  refine ⟨fun k' hk' => ?_, fun k' => ?_, ?_⟩
  · by_cases hk : k' = k
    · rw [hk]
      exact Function.update_self ..
    · have hkeep : Function.update pending k (some new) k' ≠ none := hk'
      rw [Function.update_of_ne hk] at hkeep
      exact (Function.update_of_ne hk ..).trans (h.pending k' hkeep)
  · show ((Function.update pending k (some new)) k').getD (s.values k') = s.values k' + amount _ k'
    rw [hview, amount_append, amount_record]
    have hrows := h.rows k'
    by_cases hk : k' = k
    · rw [hk, hold] at hrows
      rw [hk, Function.update_self, if_pos rfl, ← add_assoc, ← hrows]
      abel
    · rw [Function.update_of_ne hk, if_neg hk, add_zero]
      exact hrows
  · show Honest strict next {k' | Function.update s.owner k (some id) k' = some id} (fun k' => _)
    rw [locked_take]
    have hnext := h.honest.2.2 _ (Agree.refl _ _)
    rwa [← funext hview] at hnext

theorem Consistent.advance (h : Consistent strict init s) (ht : s.threads id = some t)
    (hfinds : ∀ k old new next, t.script = .write k old new next → s.owner k = none → s.values k = old) :
    Consistent strict init (s.advance id t) := by
  have hsound := h.sound id t ht
  obtain ⟨script, pending, rows⟩ := t
  unfold System.advance
  cases script with
  | done => exact h.commit ht
  | raise => exact h.close
  | lock k next =>
    show Consistent strict init (if s.free id k = true then _ else s)
    by_cases hfree : s.free id k = true
    · rw [if_pos hfree]
      refine h.one rfl rfl (fun k' id' hid => owner_take hfree hid k') rfl ⟨?_, hsound.rows, ?_⟩
      · intro k' hk'
        by_cases hk : k' = k
        · rw [hk]
          exact Function.update_self ..
        · exact (Function.update_of_ne hk ..).trans (hsound.pending k' hk')
      · show Honest strict next {k' | Function.update s.owner k (some id) k' = some id} _
        rw [locked_take]
        exact hsound.honest _ (Agree.refl _ _)
    · rw [if_neg hfree]
      exact h
  | select ks next =>
    refine h.one rfl rfl (fun _ _ _ => Iff.rfl) rfl ⟨hsound.pending, hsound.rows, ?_⟩
    exact hsound.honest _ (Agree.refl _ _)
  | write k old new next =>
    show Consistent strict init (if s.free id k = true then _ else s)
    by_cases hfree : s.free id k = true
    · rw [if_pos hfree]
      exact h.one rfl rfl (fun k' id' hid => owner_take hfree hid k') rfl
        (hsound.write hfree fun hnone => hfinds k old new next rfl hnone)
    · rw [if_neg hfree]
      exact h

variable {R : Type} {script : R → Script κ A}

theorem Consistent.of_step (hscript : ∀ request view, Honest strict (script request) ∅ view) {op : Op R}
    (h : Consistent strict init s) (hfinds : FindsRead s op) : Consistent strict init (step script s op) := by
  cases op with
  | begin id request =>
    show Consistent strict init (match s.threads id with | some _ => s | none => _)
    cases ht : s.threads id with
    | some t => exact h
    | none => exact h.begin ht (hscript request s.values)
  | advance id =>
    show Consistent strict init (match s.threads id with | some t => s.advance id t | none => s)
    cases ht : s.threads id with
    | none => exact h
    | some t =>
      refine h.advance ht fun k old new next hscript hnone => ?_
      simp only [FindsRead, ht, hscript] at hfinds
      exact hfinds hnone
  | abort id => exact h.close

/-- **No lost update**: where every script is honest and every write to a row without a lock finds what it
was computed from, the committed values are the initial ones plus what is recorded. -/
theorem no_lost_update (hscript : ∀ request view, Honest strict (script request) ∅ view) (init : κ → A) (ops : List (Op R))
    (hfinds : Along (step script) FindsRead { values := init } ops) (k : κ) :
    (run (step script) { values := init } ops).values k =
      init k + amount (run (step script) { values := init } ops).ledger k := by
  have hstart : Consistent strict init { values := init } :=
    ⟨fun k => by rw [amount_nil, add_zero], fun k id hk => (nomatch hk), fun id t ht => (nomatch ht)⟩
  have hstep : ∀ (s : System κ A) (op : Op R), Consistent strict init s → FindsRead s op →
      Consistent strict init (step script s op) := fun s op h hop => h.of_step hscript hop
  exact (run_invariant_along hstep ops _ hstart hfinds).ledger k

omit [DecidableEq A] in
/-- Who writes locked rows only finds nothing changed. -/
theorem Consistent.findsRead (h : Consistent True init s) (op : Op R) : FindsRead s op := by
  unfold FindsRead
  split
  · next id =>
    split
    · next t ht =>
      split
      · next k old new next hscript =>
        intro hnone
        have hhonest := (h.sound id t ht).honest
        rw [hscript] at hhonest
        have hown : s.owner k = some id := hhonest.2.1 trivial
        rw [hnone] at hown
        exact nomatch hown
      · trivial
    · trivial
  · trivial

theorem no_lost_update_of_strict (hscript : ∀ request view, Honest True (script request) ∅ view) (init : κ → A)
    (ops : List (Op R)) (k : κ) :
    (run (step script) { values := init } ops).values k =
      init k + amount (run (step script) { values := init } ops).ledger k := by
  have hstart : Consistent True init { values := init } :=
    ⟨fun k => by rw [amount_nil, add_zero], fun k id hk => (nomatch hk), fun id t ht => (nomatch ht)⟩
  have hstep : ∀ (s : System κ A) (op : Op R), Consistent True init s → Consistent True init (step script s op) :=
    fun s op h => h.of_step hscript (h.findsRead op)
  exact (run_invariant hstep ops _ hstart).ledger k

end Run

end RowLocks
