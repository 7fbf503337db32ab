import Waldur.Quotas.Models

/-!
# Quotas.Aggregation — an aggregated quota is what its children use

Rows are inserted on quotas, and scopes are deleted with their rows.  A quota that aggregates then sums the rows on the
quotas it aggregates, of the descendants that exist, and the rows that were inserted on it itself.
-/

namespace Waldur.Quotas

/-! ## The children of a quota -/

namespace ScopeGraph

variable {S : Type} (g : ScopeGraph S)

/-- Climbs end within the depth of `get_ancestors`; no scope is above itself then. -/
def Shallow : Prop := ∃ depth : S → ℕ, (∀ s, depth s ≤ maxDepth) ∧ ∀ s p, g.IsParent s p → depth p < depth s

/-- The quota is of its class and does not aggregate. -/
def IsPlain (s : S) (name : String) : Prop := ∃ f, g.getField s name = some f ∧ f.isAggregator = false

/-- A quota of a descendant, that aggregates none itself, is the child quota of a field. -/
def IsChildQuota (a : S) (f : QuotaField) (s : S) (name : String) : Prop :=
  Relation.TransGen g.IsParent s a ∧ g.IsPlain s name ∧ name = f.getChildQuotaName

end ScopeGraph

open Classical in
/-- The rows on a quota count for a field: its scope is live, and it is a child quota. -/
noncomputable def counts {S : Type} (g : ScopeGraph S) (live : S → Bool) (a : S) (f : QuotaField) (s : S)
    (name : String) : Bool :=
  decide (live s = true ∧ g.IsChildQuota a f s name)

theorem counts_iff {S : Type} {g : ScopeGraph S} {live : S → Bool} {a s : S} {f : QuotaField} {name : String} :
    counts g live a f s name = true ↔ live s = true ∧ g.IsChildQuota a f s name := by
  classical
  unfold counts
  exact decide_eq_true_iff

/-- The sum of the deltas on the child quotas of the descendants that are live. -/
noncomputable def childTotal {S : Type} (g : ScopeGraph S) (db : Db S) (live : S → Bool) (a : S) (f : QuotaField) : ℤ :=
  db.total (counts g live a f)

/-- The sum of the deltas on the child quotas of the descendants that exist. -/
noncomputable def childUsage {S : Type} (g : ScopeGraph S) (db : Db S) (a : S) (f : QuotaField) : ℤ :=
  childTotal g db db.exist a f

/-! ## Runs -/

/-- What happens to usages: a row is inserted, and scopes are deleted, with their rows or softly. -/
inductive Event (S : Type)
  | insert (s : S) (name : String) (delta : ℤ)
  | delete (doomed : List S)
  | softDelete (s : S)

namespace Event

variable {S : Type} [DecidableEq S]

def apply (g : ScopeGraph S) (db : Db S) : Event S → Option (Db S)
  | insert s name delta => create g recursionLimit db s name delta
  | delete doomed => deleteScopes g db doomed
  | softDelete s => Quotas.softDelete g db s

/-- Rows are inserted on scopes that exist and have quotas, and a scope is deleted with the ones below it, as foreign
keys make sure. -/
def Allowed (g : ScopeGraph S) (db : Db S) : Event S → Prop
  | insert s _ _ => db.exist s = true ∧ (g.quotas s).isSome = true
  | delete doomed => ∀ s p, g.IsParent s p → db.alive s = true → p ∈ doomed → s ∈ doomed
  | softDelete s => db.exist s = true

/-- The delta that an event inserts on a quota itself. -/
def directDelta (a : S) (name : String) : Event S → ℤ
  | insert s name' delta => if s = a ∧ name' = name then delta else 0
  | _ => 0

end Event

/-- The deltas that were inserted on a quota itself. -/
def directUsage {S : Type} [DecidableEq S] (events : List (Event S)) (a : S) (name : String) : ℤ :=
  (events.map (Event.directDelta a name)).sum

/-- A database with scopes only; a scope is there with its parents. -/
structure Initial {S : Type} (g : ScopeGraph S) (db : Db S) : Prop where
  usages : db.usages = []
  parents : ∀ s p, g.IsParent s p → db.alive s = true → db.alive p = true

/-- The events of a history, each allowed where it happens. -/
inductive Run {S : Type} [DecidableEq S] (g : ScopeGraph S) (db : Db S) : List (Event S) → Db S → Prop
  | nil : Run g db [] db
  | snoc {events : List (Event S)} {db' db'' : Db S} {e : Event S} :
      Run g db events db' → e.Allowed g db' → e.apply g db' = some db'' → Run g db (events ++ [e]) db''

/-! ## Ancestors -/

section Climb

variable {S : Type} [DecidableEq S] {g : ScopeGraph S} {alive : S → Bool} {s a : S} {n : ℕ}

theorem mem_appendNew {ancestors parents : List S} : a ∈ appendNew ancestors parents ↔ a ∈ ancestors ∨ a ∈ parents := by
  unfold appendNew
  induction parents generalizing ancestors with
  | nil => simp
  | cons p l ih =>
    rw [List.foldl_cons, ih]
    split_ifs with hp
    · simp only [List.mem_cons]
      constructor
      · rintro (h | h)
        · exact .inl h
        · exact .inr (.inr h)
      · rintro (h | rfl | h)
        · exact .inl h
        · exact .inl hp
        · exact .inr h
    · simp only [List.mem_append, List.mem_cons, List.not_mem_nil, or_false]
      tauto

theorem mem_foldl_appendNew {ancestors l : List S} {above : S → List S} :
    a ∈ l.foldl (fun acc p => appendNew acc (above p)) ancestors ↔ a ∈ ancestors ∨ ∃ p ∈ l, a ∈ above p := by
  induction l generalizing ancestors with
  | nil => simp
  | cons p l ih =>
    rw [List.foldl_cons, ih, mem_appendNew]
    simp only [List.exists_mem_cons_iff, or_assoc]

theorem mem_getAncestors_succ : a ∈ getAncestors g alive (n + 1) s ↔
    (∀ p ∈ g.parents s, alive p = true) ∧
      (a ∈ g.parents s ∨ ∃ p ∈ g.parents s, g.isDescendant p = true ∧ a ∈ getAncestors g alive n p) := by
  rw [getAncestors]
  split_ifs with hall
  · rw [mem_foldl_appendNew, and_iff_right (List.all_eq_true.mp hall)]
    simp only [List.mem_filter, and_assoc]
  · rw [List.all_eq_true] at hall
    simp [hall]

/-- **The climb finds all ancestors**, where it is allowed as many steps as there are scopes above each other. -/
theorem mem_getAncestors {depth : S → ℕ} (hdepth : ∀ s p, g.IsParent s p → depth p < depth s)
    (hparents : ∀ s p, g.IsParent s p → alive s = true → alive p = true) (halive : alive s = true)
    (hdescendant : g.isDescendant s = true) (hn : depth s ≤ n) :
    a ∈ getAncestors g alive n s ↔ Relation.TransGen g.IsParent s a := by
  induction n generalizing s with
  | zero =>
    simp only [getAncestors, List.not_mem_nil, false_iff]
    intro h
    obtain ⟨p, hp, -⟩ := Relation.TransGen.head'_iff.mp h
    have hlt := hdepth s p hp
    omega
  | succ n ih =>
    rw [mem_getAncestors_succ, Relation.TransGen.head'_iff]
    constructor
    · rintro ⟨-, ha | ⟨p, hp, hclimbs, ha⟩⟩
      · exact ⟨a, ⟨hdescendant, ha⟩, .refl⟩
      · have hparent : g.IsParent s p := ⟨hdescendant, hp⟩
        have hlt := hdepth s p hparent
        exact ⟨p, hparent, ((ih (hparents s p hparent halive) hclimbs (by omega)).mp ha).to_reflTransGen⟩
    · rintro ⟨p, hparent, hreach⟩
      refine ⟨fun p' hp' => hparents s p' ⟨hdescendant, hp'⟩ halive, ?_⟩
      rcases Relation.reflTransGen_iff_eq_or_transGen.mp hreach with rfl | htrans
      · exact .inl hparent.2
      · have hlt := hdepth s p hparent
        obtain ⟨p', hp', -⟩ := Relation.TransGen.head'_iff.mp htrans
        exact .inr ⟨p, hparent.2, hp'.1, (ih (hparents s p hparent halive) hp'.1 (by omega)).mpr htrans⟩

/-- **A row feeds the quotas it is a child quota of**, and no other. -/
theorem mem_aggregatorQuotas_iff {name : String} {f : QuotaField} (hshallow : g.Shallow)
    (hparents : ∀ s p, g.IsParent s p → alive s = true → alive p = true) (halive : alive s = true)
    (hf : f ∈ g.quotaFields a) (hagg : f.isAggregator = true) :
    (a, f) ∈ aggregatorQuotas g alive s name ↔ g.IsChildQuota a f s name := by
  obtain ⟨depth, hbound, hdepth⟩ := hshallow
  have hancestor : a ∈ quotaAncestors g alive s ↔ Relation.TransGen g.IsParent s a := by
    unfold quotaAncestors
    by_cases hdescendant : g.isDescendant s = true
    · rw [if_pos hdescendant, List.mem_dedup, List.mem_filter,
        mem_getAncestors hdepth hparents halive hdescendant (hbound s)]
      exact and_iff_left (isSome_of_mem_quotaFields hf)
    · rw [if_neg hdescendant]
      simp only [List.not_mem_nil, false_iff]
      intro h
      obtain ⟨p, hp, -⟩ := Relation.TransGen.head'_iff.mp h
      exact hdescendant hp.1
  rw [mem_aggregatorQuotas]
  constructor
  · rintro ⟨-, hplain, hmem, -, -, hname⟩
    exact ⟨hancestor.mp hmem, hplain, hname.symm⟩
  · rintro ⟨hreach, hplain, hname⟩
    exact ⟨halive, hplain, hancestor.mpr hreach, hf, hagg, hname.symm⟩

end Climb

/-! ## Rows that are inserted -/

section Inserted

variable {S : Type} {db : Db S}

/-- No two rows have one id, and the next one is new. -/
structure Db.FreshIds (db : Db S) : Prop where
  lt : ∀ u ∈ db.usages, u.id < db.nextId
  nodup : (db.usages.map (·.id)).Nodup

theorem Db.FreshIds.insertRow (h : db.FreshIds) (s : S) (name : String) (delta : ℤ) :
    (db.insertRow s name delta).FreshIds where
  lt u hu := by
    rcases List.mem_append.mp hu with hu | hu
    · exact (h.lt u hu).trans (Nat.lt_succ_self _)
    · rw [List.mem_singleton.mp hu]
      exact Nat.lt_succ_self _
  nodup := by
    show ((db.usages ++ [(⟨db.nextId, s, name, delta⟩ : QuotaUsage S)]).map (·.id)).Nodup
    rw [List.map_append, List.nodup_append]
    refine ⟨h.nodup, List.nodup_singleton _, ?_⟩
    intro i hi j hj hij
    obtain ⟨u, hu, rfl⟩ := List.mem_map.mp hi
    rw [List.map_singleton, List.mem_singleton] at hj
    exact absurd (h.lt u hu) (by rw [hij, hj]; exact lt_irrefl _)

theorem Db.FreshIds.insertAll (h : db.FreshIds) (l : List (S × String × ℤ)) : (db.insertAll l).FreshIds := by
  induction l generalizing db with
  | nil => exact h
  | cons e l ih => exact ih (h.insertRow e.1 e.2.1 e.2.2)

/-- The rows that are inserted come last, with ids of their own. -/
theorem Db.usages_insertAll (db : Db S) (l : List (S × String × ℤ)) : ∃ rows : List (QuotaUsage S),
    (db.insertAll l).usages = db.usages ++ rows ∧
      ∀ u ∈ rows, db.nextId ≤ u.id ∧ ∃ e ∈ l, u.scope = e.1 ∧ u.name = e.2.1 := by
  induction l generalizing db with
  | nil => exact ⟨[], (List.append_nil _).symm, fun u hu => absurd hu List.not_mem_nil⟩
  | cons e l ih =>
    obtain ⟨rows, husages, hrows⟩ := ih (db.insertRow e.1 e.2.1 e.2.2)
    refine ⟨⟨db.nextId, e.1, e.2.1, e.2.2⟩ :: rows, ?_, ?_⟩
    · rw [Db.insertAll_cons, husages]
      exact List.append_assoc _ _ _
    · intro u hu
      rcases List.mem_cons.mp hu with rfl | hu
      · exact ⟨le_rfl, e, List.mem_cons_self, rfl, rfl⟩
      · obtain ⟨hid, e', he', hkey⟩ := hrows u hu
        exact ⟨(Nat.le_succ _).trans hid, e', List.mem_cons_of_mem _ he', hkey⟩

theorem Db.total_congr {p p' : S → String → Bool} (h : ∀ u ∈ db.usages, p u.scope u.name = p' u.scope u.name) :
    db.total p = db.total p' := by
  unfold Db.total
  rw [List.filter_congr h]

end Inserted

section Fed

variable {S : Type} [DecidableEq S] {g : ScopeGraph S} {alive live : S → Bool} {db : Db S} {s a : S} {name : String}
  {f : QuotaField} {delta : ℤ}

omit [DecidableEq S] in
theorem not_isPlain_of_aggregator (hf : f ∈ g.quotaFields a) (hagg : f.isAggregator = true) : ¬ g.IsPlain a f.name := by
  rintro ⟨f', hfield, hplain⟩
  rw [getField_eq_some_iff.mpr ⟨hf, rfl⟩] at hfield
  rw [← Option.some_inj.mp hfield, hagg] at hplain
  cases hplain

/-- Rows that a handler inserts are on quotas that aggregate. -/
theorem not_isPlain_of_mem_fed {e : S × String × ℤ} (he : e ∈ fed g alive s name delta) : ¬ g.IsPlain e.1 e.2.1 := by
  unfold fed at he
  split_ifs at he
  · exact absurd he List.not_mem_nil
  · obtain ⟨t, ht, rfl⟩ := List.mem_map.mp he
    obtain ⟨-, -, -, hf, hagg, -⟩ := mem_aggregatorQuotas.mp ht
    exact not_isPlain_of_aggregator hf hagg

/-- Sums over plain quotas do not see them. -/
theorem sum_fed_plain {p : S → String → Bool} (hp : ∀ s name, p s name = true → g.IsPlain s name) :
    ((fed g alive s name delta).map fun e => if p e.1 e.2.1 then e.2.2 else 0).sum = 0 := by
  refine List.sum_eq_zero fun x hx => ?_
  obtain ⟨e, he, rfl⟩ := List.mem_map.mp hx
  exact if_neg fun h => not_isPlain_of_mem_fed he (hp e.1 e.2.1 h)

theorem sum_fed_rawUsage (hf : f ∈ g.quotaFields a) : ((fed g alive s name delta).map fun e =>
    if decide (e.1 = a) && e.2.1 == f.name then e.2.2 else 0).sum =
      if (a, f) ∈ aggregatorQuotas g alive s name then delta else 0 := by
  rw [sum_fed fun s' name' => decide (s' = a) && name' == f.name, countP_aggregatorQuotas hf]
  split_ifs <;> simp

end Fed

/-! ## The invariant of a run -/

section Invariant

variable {S : Type} [DecidableEq S] {g : ScopeGraph S} {db : Db S} {live : S → Bool} {direct : S → String → ℤ}

/-- What holds while scopes are deleted: `live` are the ones that are not deleted, nor about to be. -/
structure Exact (g : ScopeGraph S) (db : Db S) (live : S → Bool) (direct : S → String → ℤ) : Prop where
  alive : ∀ s, live s = true → db.alive s = true
  parents : ∀ s p, g.IsParent s p → db.alive s = true → db.alive p = true
  ids : db.FreshIds
  plain_live : ∀ u ∈ db.usages, g.IsPlain u.scope u.name → live u.scope = true
  sums : ∀ a f, live a = true → f ∈ g.quotaFields a → f.isAggregator = true →
    db.rawUsage a f.name = childTotal g db live a f + direct a f.name

/-- **A row raises the child quotas' sum and what aggregates it alike**; on a quota that aggregates, it is direct. -/
theorem Exact.insert (h : Exact g db live direct) (hshallow : g.Shallow) {s : S} (hs : live s = true) (name : String)
    (delta : ℤ) : Exact g (db.insertAll ((s, name, delta) :: fed g db.alive s name delta)) live
      fun a name' => direct a name' + if s = a ∧ name = name' then delta else 0 where
  alive s' hs' := by
    rw [Db.alive_insertAll]
    exact h.alive s' hs'
  parents s' p hp hs' := by
    rw [Db.alive_insertAll] at hs' ⊢
    exact h.parents s' p hp hs'
  ids := h.ids.insertAll _
  plain_live u hu hplain := by
    obtain ⟨rows, husages, hrows⟩ := db.usages_insertAll ((s, name, delta) :: fed g db.alive s name delta)
    rw [husages, List.mem_append] at hu
    rcases hu with hu | hu
    · exact h.plain_live u hu hplain
    · obtain ⟨-, e, he, hscope, hname⟩ := hrows u hu
      rcases List.mem_cons.mp he with rfl | he
      · rw [hscope]
        exact hs
      · rw [hscope, hname] at hplain
        exact absurd hplain (not_isPlain_of_mem_fed he)
  sums a f ha hf hagg := by
    have hfeeds : (a, f) ∈ aggregatorQuotas g db.alive s name ↔ g.IsChildQuota a f s name :=
      mem_aggregatorQuotas_iff hshallow h.parents (h.alive s hs) hf hagg
    have hraw := h.sums a f ha hf hagg
    have hchild : childTotal g (db.insertAll ((s, name, delta) :: fed g db.alive s name delta)) live a f =
        childTotal g db live a f + if (a, f) ∈ aggregatorQuotas g db.alive s name then delta else 0 := by
      unfold childTotal
      rw [Db.total_insertAll, List.map_cons, List.sum_cons, sum_fed_plain fun s' name' hcounts =>
        (counts_iff.mp hcounts).2.2.1, add_zero]
      have hsame : counts g live a f s name = true ↔ (a, f) ∈ aggregatorQuotas g db.alive s name :=
        counts_iff.trans ((and_iff_right hs).trans hfeeds.symm)
      simp only [hsame]
    rw [hchild, Db.rawUsage_eq_total, Db.total_insertAll, List.map_cons, List.sum_cons, sum_fed_rawUsage hf,
      ← Db.rawUsage_eq_total, hraw]
    simp only [Bool.and_eq_true, decide_eq_true_eq, beq_iff_eq]
    ring

/-- Sums over a list of rows, one handler after another. -/
theorem foldlM_takeBack (found : List (QuotaUsage S)) : found.foldlM (takeBack g) db =
    some (db.insertAll (found.flatMap fun u => fed g db.alive u.scope u.name (-u.delta))) := by
  induction found generalizing db with
  | nil => rfl
  | cons u found ih =>
    rw [List.foldlM_cons, takeBack_eq, List.flatMap_cons, Db.insertAll_append]
    have hrest := @ih (db.insertAll (fed g db.alive u.scope u.name (-u.delta)))
    rw [Db.alive_insertAll] at hrest
    exact hrest

/-- The rows of a scope are gone, and what the handlers took back is on quotas that aggregate. -/
theorem deleteQuotas_spec (hids : db.FreshIds) {s : S} (hquotas : (g.quotas s).isSome = true) :
    ∃ db', deleteQuotas g db s = some db' ∧ db'.alive = db.alive ∧ db'.removed = db.removed ∧ db'.FreshIds ∧
      (∀ u ∈ db'.usages, g.IsPlain u.scope u.name → u ∈ db.usages ∧ u.scope ≠ s) ∧
      ∀ p, db'.total p = db.total (fun s' name => p s' name && !decide (s' = s)) +
        (((db.usages.filter fun u => decide (u.scope = s)).flatMap fun u =>
          fed g db.alive u.scope u.name (-u.delta)).map fun e => if p e.1 e.2.1 then e.2.2 else 0).sum := by
  set found := db.usages.filter fun u => decide (u.scope = s) with hfound
  set taken := found.flatMap fun u => fed g db.alive u.scope u.name (-u.delta) with htaken
  let base : Db S := { db with limits := fun s' name => if s' = s then none else db.limits s' name }
  have hbase : base.FreshIds := ⟨hids.lt, hids.nodup⟩
  obtain ⟨rows, husages, hrows⟩ := base.usages_insertAll taken
  have hfilter : (base.insertAll taken).usages.filter (fun u => !(found.map (·.id)).contains u.id) =
      db.usages.filter (fun u => !decide (u.scope = s)) ++ rows := by
    rw [husages, List.filter_append]
    congr 1
    · refine List.filter_congr fun u hu => ?_
      congr 1
      rw [Bool.eq_iff_iff, List.contains_iff_mem, decide_eq_true_iff, List.mem_map]
      constructor
      · rintro ⟨u', hu', hid⟩
        obtain ⟨hmem, hscope⟩ := List.mem_filter.mp hu'
        rw [← List.inj_on_of_nodup_map hids.nodup hmem hu hid]
        exact of_decide_eq_true hscope
      · intro hscope
        exact ⟨u, List.mem_filter.mpr ⟨hu, decide_eq_true hscope⟩, rfl⟩
    · refine List.filter_eq_self.mpr fun u hu => ?_
      rw [Bool.not_eq_true', ← Bool.not_eq_true, List.contains_iff_mem, List.mem_map]
      rintro ⟨u', hu', hid⟩
      have hold := hids.lt u' (List.mem_filter.mp hu').1
      have hnew : db.nextId ≤ u.id := (hrows u hu).1
      omega
  refine ⟨{ base.insertAll taken with
    usages := (base.insertAll taken).usages.filter fun u => !(found.map (·.id)).contains u.id }, ?_, ?_, ?_, ?_, ?_, ?_⟩
  · unfold deleteQuotas
    rw [if_pos hquotas]
    show Option.map _ (List.foldlM (takeBack g) base found) = _
    rw [foldlM_takeBack]
    rfl
  · exact base.alive_insertAll taken
  · exact base.removed_insertAll taken
  · have hfresh := hbase.insertAll taken
    exact ⟨fun u hu => hfresh.lt u (List.mem_filter.mp hu).1, hfresh.nodup.sublist (List.filter_sublist.map _)⟩
  · intro u hu hplain
    rw [hfilter, List.mem_append] at hu
    rcases hu with hu | hu
    · obtain ⟨hmem, hscope⟩ := List.mem_filter.mp hu
      exact ⟨hmem, by simpa using hscope⟩
    · obtain ⟨-, e, he, hscope, hname⟩ := hrows u hu
      obtain ⟨u', -, he⟩ := List.mem_flatMap.mp he
      rw [hscope, hname] at hplain
      exact absurd hplain (not_isPlain_of_mem_fed he)
  · intro p
    have hsum := base.total_insertAll p taken
    unfold Db.total at hsum ⊢
    rw [husages, List.filter_append, List.map_append, List.sum_append] at hsum
    rw [hfilter, List.filter_append, List.map_append, List.sum_append, List.filter_filter, ← add_left_cancel hsum]

omit [DecidableEq S] in
theorem sum_flatMap_map {α β : Type} (l : List α) (entries : α → List β) (value : β → ℤ) :
    ((l.flatMap entries).map value).sum = (l.map fun x => ((entries x).map value).sum).sum := by
  induction l with
  | nil => rfl
  | cons x l ih => rw [List.flatMap_cons, List.map_append, List.sum_append, ih, List.map_cons, List.sum_cons]

/-- A sum over a database, apart from one scope and on it. -/
theorem Db.total_scope (db : Db S) (p : S → String → Bool) (s : S) :
    db.total p = db.total (fun s' name => p s' name && !decide (s' = s)) +
      ((db.usages.filter fun u => decide (u.scope = s)).map fun u => if p u.scope u.name then u.delta else 0).sum := by
  unfold Db.total
  induction db.usages with
  | nil => rfl
  | cons u l ih =>
    cases hp : p u.scope u.name <;> by_cases hs : u.scope = s
    · subst hs
      simp [hp, ih]
    · simp [hp, hs, ih]
    · subst hs
      simp [hp, ih]
      ring
    · simp [hp, hs, ih]
      ring

/-- **Without its rows, a scope is not counted any more**, and what it fed is taken back. -/
theorem Exact.deleteQuotas (h : Exact g db live direct) (hshallow : g.Shallow) (s : S) :
    ∃ db', Quotas.deleteQuotas g db s = some db' ∧ db'.alive = db.alive ∧ db'.removed = db.removed ∧
      Exact g db' (fun s' => live s' && !decide (s' = s)) direct := by
  have hlive : ∀ {s'}, (live s' && !decide (s' = s)) = true → live s' = true ∧ s' ≠ s := by
    intro s' hs'
    simpa using hs'
  cases hquotas : (g.quotas s).isSome with
  | false =>
    have hnone : ∀ name, ¬ g.IsPlain s name := by
      rintro name ⟨f, hfield, -⟩
      rw [isSome_of_mem_quotaFields (getField_eq_some_iff.mp hfield).1] at hquotas
      cases hquotas
    have hother : ∀ s' name, g.IsPlain s' name → s' ≠ s := by
      rintro s' name hplain rfl
      exact hnone name hplain
    refine ⟨db, by rw [Quotas.deleteQuotas, hquotas]; rfl, rfl, rfl, fun s' hs' => h.alive s' (hlive hs').1, h.parents,
      h.ids, ?_, ?_⟩
    · intro u hu hplain
      simpa using ⟨h.plain_live u hu hplain, hother _ _ hplain⟩
    · intro a f ha hf hagg
      rw [h.sums a f (hlive ha).1 hf hagg]
      congr 1
      refine Db.total_congr fun u _ => ?_
      rw [Bool.eq_iff_iff, counts_iff, counts_iff]
      constructor
      · rintro ⟨hs', hchild⟩
        exact ⟨by simpa using ⟨hs', hother _ _ hchild.2.1⟩, hchild⟩
      · rintro ⟨hs', hchild⟩
        exact ⟨(hlive hs').1, hchild⟩
  | true =>
    obtain ⟨db', hdelete, halive, hremoved, hids, hplain, htotal⟩ := deleteQuotas_spec h.ids hquotas
    refine ⟨db', hdelete, halive, hremoved, ?_, ?_, hids, ?_, ?_⟩
    · intro s' hs'
      rw [halive]
      exact h.alive s' (hlive hs').1
    · rw [halive]
      exact h.parents
    · intro u hu hu'
      obtain ⟨hmem, hscope⟩ := hplain u hu hu'
      simpa using ⟨h.plain_live u hmem hu', hscope⟩
    · intro a f ha hf hagg
      obtain ⟨hlivea, hne⟩ := hlive ha
      set found := db.usages.filter fun u => decide (u.scope = s)
      -- The rows that fed the quota are those that counted for it.
      have hfeeds : ∀ u ∈ found,
          ((a, f) ∈ aggregatorQuotas g db.alive u.scope u.name ↔ counts g live a f u.scope u.name = true) := by
        intro u hu
        rw [counts_iff]
        constructor
        · intro hmem
          have hlives := h.plain_live u (List.mem_filter.mp hu).1 (mem_aggregatorQuotas.mp hmem).2.1
          exact ⟨hlives, (mem_aggregatorQuotas_iff hshallow h.parents (h.alive _ hlives) hf hagg).mp hmem⟩
        · rintro ⟨hlives, hchild⟩
          exact (mem_aggregatorQuotas_iff hshallow h.parents (h.alive _ hlives) hf hagg).mpr hchild
      have hraw : db'.rawUsage a f.name = db.rawUsage a f.name -
          (found.map fun u => if counts g live a f u.scope u.name then u.delta else 0).sum := by
        have hself : db.total (fun s' name => (decide (s' = a) && name == f.name) && !decide (s' = s)) =
            db.rawUsage a f.name := by
          rw [Db.rawUsage_eq_total]
          refine Db.total_congr fun u _ => ?_
          by_cases hu : u.scope = a
          · simp [hu, hne]
          · simp [hu]
        have hback : (found.map fun u => ((fed g db.alive u.scope u.name (-u.delta)).map fun e =>
            if decide (e.1 = a) && e.2.1 == f.name then e.2.2 else 0).sum) =
              found.map fun u => -1 * if counts g live a f u.scope u.name then u.delta else 0 := by
          refine List.map_congr_left fun u hu => ?_
          rw [sum_fed_rawUsage hf]
          simp only [hfeeds u hu]
          split_ifs <;> simp
        rw [Db.rawUsage_eq_total, htotal, hself, sum_flatMap_map, hback, List.sum_map_mul_left]
        ring
      have hchild : childTotal g db' (fun s' => live s' && !decide (s' = s)) a f = childTotal g db live a f -
          (found.map fun u => if counts g live a f u.scope u.name then u.delta else 0).sum := by
        have hrest : db.total (fun s' name => counts g (fun s' => live s' && !decide (s' = s)) a f s' name &&
            !decide (s' = s)) = db.total (fun s' name => counts g live a f s' name && !decide (s' = s)) := by
          refine Db.total_congr fun u _ => ?_
          rw [Bool.eq_iff_iff, Bool.and_eq_true, Bool.and_eq_true, counts_iff, counts_iff, Bool.and_eq_true]
          tauto
        have hsplit : childTotal g db live a f = _ := db.total_scope (counts g live a f) s
        unfold childTotal at hsplit ⊢
        have hnone : (found.map fun u => ((fed g db.alive u.scope u.name (-u.delta)).map fun e =>
            if counts g (fun s' => live s' && !decide (s' = s)) a f e.1 e.2.1 then e.2.2 else 0).sum).sum = 0 := by
          refine List.sum_eq_zero fun x hx => ?_
          obtain ⟨u, -, rfl⟩ := List.mem_map.mp hx
          exact sum_fed_plain fun s' name hcounts => (counts_iff.mp hcounts).2.2.1
        rw [htotal, hrest, hsplit, sum_flatMap_map, hnone]
        ring
      rw [hraw, hchild, h.sums a f hlivea hf hagg]
      ring

/-- The handlers of all scopes that are deleted. -/
theorem Exact.deleteAll (h : Exact g db live direct) (hshallow : g.Shallow) (doomed : List S) :
    ∃ db', doomed.foldlM (Quotas.deleteQuotas g) db = some db' ∧ db'.alive = db.alive ∧ db'.removed = db.removed ∧
      Exact g db' (fun s => live s && !doomed.contains s) direct := by
  induction doomed generalizing db live with
  | nil =>
    refine ⟨db, rfl, rfl, rfl, ?_⟩
    simpa using h
  | cons s doomed ih =>
    obtain ⟨db₁, hfirst, halive₁, hremoved₁, hexact₁⟩ := h.deleteQuotas hshallow s
    obtain ⟨db₂, hrest, halive₂, hremoved₂, hexact₂⟩ := ih hexact₁
    refine ⟨db₂, ?_, halive₂.trans halive₁, hremoved₂.trans hremoved₁, ?_⟩
    · rw [List.foldlM_cons, hfirst]
      exact hrest
    · have hsame : (fun s' => (live s' && !decide (s' = s)) && !doomed.contains s') =
          fun s' => live s' && !(s :: doomed).contains s' := by
        funext s'
        rw [List.contains_cons, Bool.not_or, Bool.and_assoc]
        rfl
      rwa [hsame] at hexact₂

/-- The sums do not depend on which rows of scopes there are. -/
theorem Exact.of_alive (h : Exact g db live direct) (alive removed : S → Bool)
    (halive : ∀ s, live s = true → alive s = true)
    (hparents : ∀ s p, g.IsParent s p → alive s = true → alive p = true) :
    Exact g { db with alive := alive, removed := removed } live direct :=
  ⟨halive, hparents, ⟨h.ids.lt, h.ids.nodup⟩, h.plain_live, h.sums⟩

end Invariant

section Run

variable {S : Type} [DecidableEq S] {g : ScopeGraph S} {db db' : Db S} {events : List (Event S)}
  {direct : S → String → ℤ}

/-- **An allowed event happens, and keeps the sums.** -/
theorem Event.apply_exact (hshallow : g.Shallow) (h : Exact g db db.exist direct) {e : Event S} (he : e.Allowed g db) :
    ∃ db', e.apply g db = some db' ∧ Exact g db' db'.exist fun a name => direct a name + e.directDelta a name := by
  cases e with
  | insert s name delta =>
    refine ⟨_, create_eq 998, ?_⟩
    have hexist : (db.insertAll ((s, name, delta) :: fed g db.alive s name delta)).exist = db.exist := by
      funext s'
      rw [Db.exist, Db.alive_insertAll, Db.removed_insertAll, Db.exist]
    rw [hexist]
    exact h.insert hshallow he.1 name delta
  | delete doomed =>
    obtain ⟨db', hdelete, halive, hremoved, hexact⟩ := h.deleteAll hshallow doomed
    refine ⟨_, by rw [Event.apply, deleteScopes, hdelete]; rfl, ?_⟩
    have hexist : (fun s => db.exist s && !doomed.contains s) =
        fun s => (db'.alive s && !doomed.contains s) && !db'.removed s := by
      funext s
      rw [halive, hremoved, Db.exist, Bool.and_right_comm]
    rw [hexist] at hexact
    have hdirect : (fun a name => direct a name + (Event.delete doomed).directDelta a name) = direct := by
      funext a name
      exact add_zero _
    rw [hdirect]
    refine hexact.of_alive (fun s => db'.alive s && !doomed.contains s) db'.removed ?_ ?_
    · intro s hs
      exact (Bool.and_eq_true_iff.mp hs).1
    · intro s p hp hs
      obtain ⟨hs, hkept⟩ := Bool.and_eq_true_iff.mp hs
      rw [halive] at hs ⊢
      have hp' : p ∉ doomed := fun hmem => by simp [he s p hp hs hmem] at hkept
      simpa using ⟨h.parents s p hp hs, hp'⟩
  | softDelete s =>
    obtain ⟨db', hdelete, halive, hremoved, hexact⟩ := h.deleteQuotas hshallow s
    refine ⟨_, by rw [Event.apply, Quotas.softDelete, hdelete]; rfl, ?_⟩
    have hexist : (fun s' => db.exist s' && !decide (s' = s)) =
        fun s' => db'.alive s' && !(decide (s' = s) || db'.removed s') := by
      funext s'
      rw [halive, hremoved, Db.exist, Bool.not_or, Bool.and_assoc, Bool.and_comm (!db.removed s')]
    rw [hexist] at hexact
    have hdirect : (fun a name => direct a name + (Event.softDelete s).directDelta a name) = direct := by
      funext a name
      exact add_zero _
    rw [hdirect]
    exact hexact.of_alive db'.alive (fun s' => decide (s' = s) || db'.removed s')
      (fun s' hs' => (Bool.and_eq_true_iff.mp hs').1) hexact.parents

theorem Initial.exact (h : Initial g db) : Exact g db db.exist (directUsage []) where
  alive s hs := (Bool.and_eq_true_iff.mp hs).1
  parents := h.parents
  ids := by
    refine ⟨?_, ?_⟩ <;> simp [h.usages]
  plain_live := by simp [h.usages]
  sums a f _ _ _ := by simp [Db.rawUsage, childTotal, Db.total, h.usages, directUsage]

/-- What holds after every history. -/
theorem Run.exact (hshallow : g.Shallow) (hinit : Initial g db) (hrun : Run g db events db') :
    Exact g db' db'.exist (directUsage events) := by
  induction hrun with
  | nil => exact hinit.exact
  | snoc _ hallowed happly ih =>
    obtain ⟨db₂, hdb₂, hexact⟩ := Event.apply_exact hshallow ih hallowed
    rw [happly] at hdb₂
    rw [Option.some_inj.mp hdb₂]
    have hdirect : ∀ (events : List (Event S)) (e : Event S), directUsage (events ++ [e]) =
        fun a name => directUsage events a name + e.directDelta a name := by
      intro events e
      funext a name
      simp [directUsage]
    rw [hdirect]
    exact hexact

/-- **Aggregation is exact.**  After every history of rows that are inserted and scopes that are deleted, a quota that
aggregates sums the rows on its child quotas, each once, and the rows that were inserted on it itself. -/
theorem usage_exact (hshallow : g.Shallow) (hinit : Initial g db) (hrun : Run g db events db') :
    (∀ e : Event S, e.Allowed g db' → (e.apply g db').isSome = true) ∧
      ∀ a f, db'.exist a = true → f ∈ g.quotaFields a → f.isAggregator = true →
        db'.rawUsage a f.name = childUsage g db' a f + directUsage events a f.name := by
  have hexact := hrun.exact hshallow hinit
  refine ⟨fun e he => ?_, fun a f ha hf hagg => hexact.sums a f ha hf hagg⟩
  obtain ⟨db₂, hdb₂, -⟩ := Event.apply_exact hshallow hexact he
  rw [hdb₂]
  rfl

/-! ### A resource below a project and a service -/

inductive Place
  | customer | project | service | resource
deriving DecidableEq

def plainCpu : QuotaField := { name := "cpu" }

def totalCpu : QuotaField := { name := "cpu", kind := .usageAggregator none }

/-- Two ways lead from a resource to its customer; all but the resource aggregate. -/
def diamond : ScopeGraph Place where
  isDescendant
    | .customer => false
    | _ => true
  parents
    | .customer => []
    | .resource => [.project, .service]
    | _ => [.customer]
  quotas
    | .resource => some ⟨[plainCpu], by decide⟩
    | _ => some ⟨[totalCpu], by decide⟩

def started : Db Place := { alive := fun _ => true, limits := fun _ _ => none }

theorem diamond_shallow : diamond.Shallow := by
  refine ⟨fun | .customer => 0 | .resource => 2 | _ => 1, by rintro ⟨⟩ <;> decide, ?_⟩
  rintro ⟨⟩ ⟨⟩ ⟨hdescendant, hp⟩ <;> first | decide | simp [diamond] at hdescendant hp

theorem started_initial : Initial diamond started := ⟨rfl, fun _ _ _ _ => rfl⟩

/-- A row of the resource counts once for the customer, and a row of the customer is one of its own. -/
theorem usage_exact_diamond : ∃ db', Run diamond started [.insert .resource "cpu" 3, .insert .customer "cpu" 4] db' ∧
    db'.rawUsage .customer "cpu" = 7 ∧ childUsage diamond db' .customer totalCpu = 3 := by
  have hfirst := Run.snoc (e := .insert .resource "cpu" 3) (@Run.nil _ _ diamond started) ⟨rfl, rfl⟩ (create_eq 998)
  have hrun := Run.snoc (e := .insert .customer "cpu" 4) hfirst ⟨rfl, rfl⟩ (create_eq 998)
  have hsum := (usage_exact diamond_shallow started_initial hrun).2 .customer totalCpu rfl List.mem_cons_self rfl
  refine ⟨_, hrun, rfl, ?_⟩
  have hsum' : (7 : ℤ) = _ + 4 := hsum
  omega

/-- **A row on a quota that aggregates is not one of its children's**: the sums differ by it. -/
theorem usage_direct_differs : diamond.Shallow ∧ Initial diamond started ∧
    ∃ db', Run diamond started [.insert .customer "cpu" 4] db' ∧ db'.exist .customer = true ∧
      totalCpu ∈ diamond.quotaFields .customer ∧ totalCpu.isAggregator = true ∧
      db'.rawUsage .customer totalCpu.name ≠ childUsage diamond db' .customer totalCpu := by
  have hrun := Run.snoc (e := .insert .customer "cpu" 4) (@Run.nil _ _ diamond started) ⟨rfl, rfl⟩ (create_eq 998)
  have hsum := (hrun.exact diamond_shallow started_initial).sums .customer totalCpu rfl List.mem_cons_self rfl
  refine ⟨diamond_shallow, started_initial, _, hrun, rfl, List.mem_cons_self, rfl, ?_⟩
  intro heq
  rw [heq] at hsum
  have hsum' : childUsage diamond _ .customer totalCpu = childUsage diamond _ .customer totalCpu + 4 := hsum
  omega

end Run

end Waldur.Quotas
