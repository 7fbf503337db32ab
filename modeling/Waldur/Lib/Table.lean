import Mathlib

/-!
# Relational.Table — finite tables with a unique key

A table is a list of rows whose keys are pairwise distinct; the distinctness is a field, so every
operation has to re-establish it once and no later proof does.  Rows are read by key (`get?`),
rewritten by key (`update`) and added (`insert`).  The facts later modules use: what `get?` sees after
a write, and how the sum of a column over a selection of rows moves with a write.  At the end the sums of
a query that groups its rows (`sum_groups`) or joins them (`sum_join`).
-/

namespace Relational

/-- Rows with pairwise distinct keys, in query order. -/
structure Table (κ ρ : Type) (key : ρ → κ) where
  rows : List ρ
  nodup : (rows.map key).Nodup

namespace Table

variable {κ ρ : Type} {key : ρ → κ}

@[ext] theorem ext {s t : Table κ ρ key} (h : s.rows = t.rows) : s = t := by
  cases s; cases t; cases h; rfl

/-- The table without rows. -/
def empty : Table κ ρ key := ⟨[], List.nodup_nil⟩

theorem eq_of_key_eq (t : Table κ ρ key) {r r' : ρ} (hr : r ∈ t.rows) (hr' : r' ∈ t.rows)
    (h : key r = key r') : r = r' :=
  List.inj_on_of_nodup_map t.nodup hr hr' h

/-- The rows a query selects. -/
def filter (t : Table κ ρ key) (p : ρ → Bool) : Table κ ρ key where
  rows := t.rows.filter p
  nodup := t.nodup.sublist (List.filter_sublist.map _)

/-- Every row read into another form under the same key. -/
def mapRows {ρ' : Type} {key' : ρ' → κ} (t : Table κ ρ key) (f : ρ → ρ') (hf : ∀ r, key' (f r) = key r) :
    Table κ ρ' key' where
  rows := t.rows.map f
  nodup := by
    have h : (t.rows.map f).map key' = t.rows.map key := by
      rw [List.map_map]
      exact List.map_congr_left fun r _ => hf r
    rw [h]
    exact t.nodup

variable [DecidableEq κ]

/-- The row with key `k`. -/
def get? (t : Table κ ρ key) (k : κ) : Option ρ := t.rows.find? (fun r => decide (key r = k))

/-- Rewrite the row with key `k`; the key itself stays. -/
def update (t : Table κ ρ key) (k : κ) (f : ρ → ρ) (hf : ∀ r, key (f r) = key r) : Table κ ρ key where
  rows := t.rows.map (fun r => if key r = k then f r else r)
  nodup := by
    have h : (t.rows.map (fun r => if key r = k then f r else r)).map key = t.rows.map key := by
      rw [List.map_map]
      refine List.map_congr_left fun r _ => ?_
      simp only [Function.comp_apply]
      split <;> simp [hf]
    rw [h]
    exact t.nodup

theorem get?_eq_some {t : Table κ ρ key} {k : κ} {r : ρ} :
    t.get? k = some r ↔ r ∈ t.rows ∧ key r = k := by
  constructor
  · intro h
    exact ⟨List.mem_of_find?_eq_some h, by simpa using List.find?_some h⟩
  · rintro ⟨hr, hk⟩
    cases h : t.get? k with
    | none => exact absurd hk (by simpa using List.find?_eq_none.mp h r hr)
    | some r' =>
      have h' : key r' = k := by simpa using List.find?_some h
      rw [t.eq_of_key_eq (List.mem_of_find?_eq_some h) hr (h'.trans hk.symm)]

theorem get?_eq_none {t : Table κ ρ key} {k : κ} : t.get? k = none ↔ ∀ r ∈ t.rows, key r ≠ k := by
  simp [get?, List.find?_eq_none]

theorem get?_filter (t : Table κ ρ key) (p : ρ → Bool) (k : κ) :
    (t.filter p).get? k = (t.get? k).filter p := by
  cases h : t.get? k with
  | none =>
    exact get?_eq_none.mpr fun r hr => get?_eq_none.mp h r (List.mem_of_mem_filter hr)
  | some r =>
    obtain ⟨hr, hk⟩ := get?_eq_some.mp h
    by_cases hp : p r
    · rw [Option.filter_some, if_pos hp]
      exact get?_eq_some.mpr ⟨List.mem_filter.mpr ⟨hr, hp⟩, hk⟩
    · rw [Option.filter_some, if_neg hp]
      refine get?_eq_none.mpr fun r' hr' hk' => ?_
      obtain ⟨hr', hp'⟩ := List.mem_filter.mp hr'
      exact hp (t.eq_of_key_eq hr' hr (hk'.trans hk.symm) ▸ hp')

theorem get?_mapRows {ρ' : Type} {key' : ρ' → κ} (t : Table κ ρ key) (f : ρ → ρ')
    (hf : ∀ r, key' (f r) = key r) (k : κ) : (t.mapRows f hf).get? k = (t.get? k).map f := by
  cases h : t.get? k with
  | none =>
    refine get?_eq_none.mpr fun r' hr' => ?_
    obtain ⟨r, hr, rfl⟩ := List.mem_map.mp hr'
    rw [hf]
    exact get?_eq_none.mp h r hr
  | some r =>
    obtain ⟨hr, hk⟩ := get?_eq_some.mp h
    exact get?_eq_some.mpr ⟨List.mem_map_of_mem hr, (hf r).trans hk⟩

/-- A write to one row of a table whose rows were read into another form. -/
theorem update_mapRows {ρ' : Type} {key' : ρ' → κ} (t : Table κ ρ key) {f f' : ρ → ρ'}
    (hf : ∀ r, key' (f r) = key r) (hf' : ∀ r, key' (f' r) = key r) {k : κ} {g : ρ' → ρ'}
    (hg : ∀ r, key' (g r) = key' r) (hself : ∀ r ∈ t.rows, key r = k → g (f r) = f' r)
    (hother : ∀ r ∈ t.rows, key r ≠ k → f r = f' r) :
    (t.mapRows f hf).update k g hg = t.mapRows f' hf' := by
  refine ext ?_
  show (t.rows.map f).map _ = t.rows.map f'
  rw [List.map_map]
  refine List.map_congr_left fun r hr => ?_
  rw [Function.comp_apply]
  by_cases hk : key r = k
  · rw [if_pos ((hf r).trans hk), hself r hr hk]
  · rw [if_neg (fun h => hk ((hf r).symm.trans h)), hother r hr hk]

/-- Add a row under a key not in use. -/
def insert (t : Table κ ρ key) (r : ρ) (h : t.get? (key r) = none) : Table κ ρ key where
  rows := t.rows ++ [r]
  nodup := by
    rw [List.map_append, List.map_singleton, List.nodup_append]
    refine ⟨t.nodup, List.nodup_singleton _, ?_⟩
    intro a ha b hb
    obtain ⟨r', hr', rfl⟩ := List.mem_map.mp ha
    rw [List.mem_singleton.mp hb]
    exact get?_eq_none.mp h r' hr'

theorem mem_update {t : Table κ ρ key} {k : κ} {f : ρ → ρ} {hf : ∀ r, key (f r) = key r} {r' : ρ} :
    r' ∈ (t.update k f hf).rows ↔ ∃ r ∈ t.rows, r' = if key r = k then f r else r := by
  simp only [update, List.mem_map]
  exact ⟨fun ⟨r, h1, h2⟩ => ⟨r, h1, h2.symm⟩, fun ⟨r, h1, h2⟩ => ⟨r, h1, h2.symm⟩⟩

@[simp] theorem get?_update_self (t : Table κ ρ key) (k : κ) (f : ρ → ρ) (hf : ∀ r, key (f r) = key r) :
    (t.update k f hf).get? k = (t.get? k).map f := by
  cases h : t.get? k with
  | none =>
    refine get?_eq_none.mpr fun r' hr' => ?_
    obtain ⟨r, hr, rfl⟩ := mem_update.mp hr'
    have hk := get?_eq_none.mp h r hr
    rw [if_neg hk]
    exact hk
  | some r =>
    obtain ⟨hr, hk⟩ := get?_eq_some.mp h
    exact get?_eq_some.mpr ⟨mem_update.mpr ⟨r, hr, by rw [if_pos hk]⟩, (hf r).trans hk⟩

theorem get?_update_ne (t : Table κ ρ key) {k k' : κ} (f : ρ → ρ) (hf : ∀ r, key (f r) = key r)
    (h : k' ≠ k) : (t.update k f hf).get? k' = t.get? k' := by
  cases h' : t.get? k' with
  | none =>
    refine get?_eq_none.mpr fun r' hr' => ?_
    obtain ⟨r, hr, rfl⟩ := mem_update.mp hr'
    have hk := get?_eq_none.mp h' r hr
    split
    · rw [hf]; exact hk
    · exact hk
  | some r =>
    obtain ⟨hr, hk⟩ := get?_eq_some.mp h'
    exact get?_eq_some.mpr ⟨mem_update.mpr ⟨r, hr, by rw [if_neg (by rw [hk]; exact h)]⟩, hk⟩

theorem get?_insert (t : Table κ ρ key) (r : ρ) (h : t.get? (key r) = none) (k : κ) :
    (t.insert r h).get? k = if k = key r then some r else t.get? k := by
  split
  · next hk => exact get?_eq_some.mpr ⟨List.mem_append_right _ (List.mem_singleton_self r), hk.symm⟩
  · next hk =>
    unfold get? insert
    rw [List.find?_append]
    cases List.find? (fun r => decide (key r = k)) t.rows with
    | some r' => rfl
    | none =>
      simp only [Option.none_or]
      exact List.find?_cons_of_neg (by simpa using fun h' => hk h'.symm)

section Writes

variable {β : Type} {write : Table κ ρ key → β → Table κ ρ key} {id : β → κ}

/-- A loop of writes, each to the row of its own key, leaves the other rows. -/
theorem get?_foldl_ne (hother : ∀ t b k, k ≠ id b → (write t b).get? k = t.get? k) {k : κ} :
    ∀ {l : List β} {t : Table κ ρ key}, (∀ b ∈ l, id b ≠ k) → (l.foldl write t).get? k = t.get? k
  | [], _, _ => rfl
  | b :: l, t, h => by
    obtain ⟨hb, hl⟩ := List.forall_mem_cons.mp h
    rw [List.foldl_cons, get?_foldl_ne hother hl, hother t b k hb.symm]

/-- Each row is the one that its own write leaves of the row before the loop. -/
theorem get?_foldl_mem (hother : ∀ t b k, k ≠ id b → (write t b).get? k = t.get? k) {b : β} :
    ∀ {l : List β} {t : Table κ ρ key}, (l.map id).Nodup → b ∈ l → ∃ t' : Table κ ρ key,
      t'.get? (id b) = t.get? (id b) ∧ (l.foldl write t).get? (id b) = (write t' b).get? (id b)
  | [], _, _, h => absurd h List.not_mem_nil
  | c :: l, t, hnodup, h => by
    obtain ⟨hc, hl⟩ := List.nodup_cons.mp hnodup
    rcases List.mem_cons.mp h with rfl | h
    · have hrest : ∀ d ∈ l, id d ≠ id b := fun d hd heq => hc (heq ▸ List.mem_map_of_mem hd)
      exact ⟨t, rfl, by rw [List.foldl_cons, get?_foldl_ne hother hrest]⟩
    · have hne : id b ≠ id c := fun heq => hc (heq ▸ List.mem_map_of_mem h)
      obtain ⟨t', ht', hfold⟩ := get?_foldl_mem hother (t := write t c) hl h
      exact ⟨t', ht'.trans (hother t c _ hne), hfold⟩

end Writes

/-- The row with key `k` and the rows around it. -/
theorem rows_split {t : Table κ ρ key} {k : κ} {r : ρ} (h : t.get? k = some r) :
    ∃ l₁ l₂, t.rows = l₁ ++ r :: l₂ ∧ key r = k ∧ (∀ r' ∈ l₁, key r' ≠ k) ∧ ∀ r' ∈ l₂, key r' ≠ k := by
  obtain ⟨hr, hk⟩ := get?_eq_some.mp h
  obtain ⟨l₁, l₂, hl⟩ := List.append_of_mem hr
  have hnd := t.nodup
  rw [hl, List.map_append, List.map_cons, List.nodup_middle, List.nodup_cons, List.mem_append, not_or] at hnd
  refine ⟨l₁, l₂, hl, hk, fun r' hr' hk' => hnd.1.1 ?_, fun r' hr' hk' => hnd.1.2 ?_⟩
  · rw [hk, ← hk']; exact List.mem_map_of_mem hr'
  · rw [hk, ← hk']; exact List.mem_map_of_mem hr'

section Sum

variable {M : Type} [AddCommGroup M]

/-- A column summed over the rows a query selects. -/
def sumWhere (t : Table κ ρ key) (p : ρ → Bool) (g : ρ → M) : M := ((t.rows.filter p).map g).sum

omit [DecidableEq κ] in
theorem sum_filter_eq (l : List ρ) (p : ρ → Bool) (g : ρ → M) :
    ((l.filter p).map g).sum = (l.map (fun r => if p r then g r else 0)).sum := by
  induction l with
  | nil => rfl
  | cons r l ih => by_cases h : p r <;> simp [h, ih]

/-- A write moves a column sum by what it does to the written row. -/
theorem sum_update (t : Table κ ρ key) {k : κ} {r : ρ} (h : t.get? k = some r) (f : ρ → ρ)
    (hf : ∀ r, key (f r) = key r) (g : ρ → M) :
    ((t.update k f hf).rows.map g).sum = (t.rows.map g).sum - g r + g (f r) := by
  obtain ⟨l₁, l₂, hl, hk, h₁, h₂⟩ := rows_split h
  have hkeep : ∀ l : List ρ, (∀ r' ∈ l, key r' ≠ k) →
      (l.map (fun r => if key r = k then f r else r)).map g = l.map g := by
    intro l hne
    rw [List.map_map]
    refine List.map_congr_left fun r' hr' => ?_
    rw [Function.comp_apply, if_neg (hne r' hr')]
  show ((t.rows.map _).map g).sum = _
  rw [hl, List.map_append, List.map_append, List.map_cons, List.map_cons, if_pos hk, hkeep l₁ h₁,
    hkeep l₂ h₂]
  simp only [List.map_append, List.map_cons, List.sum_append, List.sum_cons]
  abel

/-- The same for a selection the write does not change. -/
theorem sumWhere_update (t : Table κ ρ key) {k : κ} {r : ρ} (h : t.get? k = some r) (f : ρ → ρ)
    (hf : ∀ r, key (f r) = key r) (p : ρ → Bool) (hp : p (f r) = p r) (g : ρ → M) :
    (t.update k f hf).sumWhere p g = t.sumWhere p g + if p r then g (f r) - g r else 0 := by
  unfold sumWhere
  rw [sum_filter_eq, sum_filter_eq, sum_update t h, hp]
  by_cases hpr : p r
  · simp only [hpr, if_true]; abel
  · simp only [hpr, Bool.false_eq_true, if_false]; abel

/-- Splitting off one selected row. -/
theorem sumWhere_eq_add (t : Table κ ρ key) {k : κ} {r : ρ} (h : t.get? k = some r) (p : ρ → Bool)
    (hp : p r = true) (g : ρ → M) :
    t.sumWhere p g = t.sumWhere (fun r => p r && decide (key r ≠ k)) g + g r := by
  obtain ⟨l₁, l₂, hl, hk, h₁, h₂⟩ := rows_split h
  have hkeep : ∀ l : List ρ, (∀ r' ∈ l, key r' ≠ k) →
      l.filter (fun r => p r && decide (key r ≠ k)) = l.filter p := fun l hne =>
    List.filter_congr fun r' hr' => by simp [hne r' hr']
  unfold sumWhere
  rw [hl, List.filter_append, List.filter_append, List.filter_cons_of_pos hp,
    List.filter_cons_of_neg (by simp [hk]), hkeep l₁ h₁, hkeep l₂ h₂]
  simp only [List.map_append, List.map_cons, List.sum_append, List.sum_cons]
  abel

theorem sumWhere_eq_of_none (t : Table κ ρ key) {k : κ} (h : t.get? k = none) (p : ρ → Bool) (g : ρ → M) :
    t.sumWhere p g = t.sumWhere (fun r => p r && decide (key r ≠ k)) g := by
  have hkeep : t.rows.filter (fun r => p r && decide (key r ≠ k)) = t.rows.filter p :=
    List.filter_congr fun r hr => by simp [get?_eq_none.mp h r hr]
  unfold sumWhere
  rw [hkeep]

theorem sumWhere_insert (t : Table κ ρ key) (r : ρ) (h : t.get? (key r) = none) (p : ρ → Bool) (g : ρ → M) :
    (t.insert r h).sumWhere p g = t.sumWhere p g + if p r then g r else 0 := by
  unfold sumWhere insert
  by_cases hp : p r <;> simp [hp]

end Sum

end Table

/-! ### Sums over a query with groups -/

section Group

variable {α κ : Type} [DecidableEq κ]

/-- A sum taken group by group, each group with its weight. -/
theorem sum_groups (key : α → κ) (v : α → ℚ) (weight : κ → ℚ) (l : List α) :
    ((l.map key).dedup.map fun k => ((l.filter fun x => key x == k).map v).sum * weight k).sum =
      (l.map fun x => v x * weight (key x)).sum := by
  have hgroup : ∀ (ks : List κ) (l : List α), ks.Nodup → (∀ x ∈ l, key x ∈ ks) →
      (ks.map fun k => ((l.filter fun x => key x == k).map v).sum * weight k).sum =
        (l.map fun x => v x * weight (key x)).sum := by
    intro ks l hnodup
    induction l with
    | nil => simp
    | cons x l ih =>
      intro hks
      have hsplit : ∀ k, (((x :: l).filter fun y => key y == k).map v).sum * weight k =
          (if k = key x then v x * weight (key x) else 0) + ((l.filter fun y => key y == k).map v).sum * weight k := by
        intro k
        by_cases hk : k = key x
        · rw [if_pos hk, List.filter_cons_of_pos (by simp [hk]), List.map_cons, List.sum_cons, add_mul, hk]
        · rw [if_neg hk, List.filter_cons_of_neg (by simpa using fun h => hk h.symm), zero_add]
      have hone : (ks.map fun k => if k = key x then v x * weight (key x) else 0).sum = v x * weight (key x) := by
        rw [List.sum_map_ite_eq, List.count_eq_one_of_mem hnodup (hks x List.mem_cons_self)]
        simp
      simp only [hsplit, List.sum_map_add, hone, ih fun y hy => hks y (List.mem_cons_of_mem x hy), List.map_cons,
        List.sum_cons]
  exact hgroup _ l (List.nodup_dedup _) fun x hx => List.mem_dedup.mpr (List.mem_map_of_mem hx)

/-- A sum over a join that gives some rows several times and others not at all. -/
theorem sum_join {γ : Type} (l : List α) (g : α → List γ) (p : α → Bool) (v : α → ℚ) :
    (((l.flatMap fun x => (g x).map fun _ => x).filter p).map v).sum =
      ((l.filter p).map fun x => (g x).length * v x).sum := by
  induction l with
  | nil => rfl
  | cons x l ih =>
    rw [List.flatMap_cons, List.filter_append, List.map_append, List.sum_append, ih]
    by_cases hp : p x = true
    · rw [List.filter_cons_of_pos hp, List.map_cons, List.sum_cons]
      have hall : ((g x).map fun _ => x).filter p = (g x).map fun _ => x :=
        List.filter_eq_self.mpr fun y hy => by
          obtain ⟨-, -, rfl⟩ := List.mem_map.mp hy
          exact hp
      rw [hall]
      simp
    · rw [List.filter_cons_of_neg hp]
      have hnone : ((g x).map fun _ => x).filter p = [] :=
        List.filter_eq_nil_iff.mpr fun y hy => by
          obtain ⟨-, -, rfl⟩ := List.mem_map.mp hy
          exact hp
      rw [hnone]
      simp

end Group

end Relational
