import Mathlib

/-!
# Waterfall — requests drawn from capped pockets and a common pool

A list of requests is served in order.  A request funded by a pocket gets at most what is left in it, a
request without one is asked of the pool, and the pool pays for both.  Serving stops once the pool is
empty.

* `drawn`: what a pocket gives to a list of requests, in closed form.
* `demand`: what a list of requests takes from an unlimited pool.
* `processed`: the requests that are served before the pool is empty.
* `Overdrawn`: pocket requests took more than the pool had; `overdrawn_iff` says on which lists.
-/

set_option linter.unusedSectionVars false

namespace Waterfall

variable {α κ K : Type} [DecidableEq κ] [Field K] [LinearOrder K] [IsStrictOrderedRing K]
  (fund : α → Option κ) (cost : α → K) (cap : κ → K)

/-- What the requests on a pocket cost together. -/
def requested (l : List α) (k : κ) : K := ((l.filter (fun a => fund a == some k)).map cost).sum

/-- What the requests on the pool cost together. -/
def pooled (l : List α) : K := ((l.filter (fun a => (fund a).isNone)).map cost).sum

/-- What a pocket gives. -/
def drawn (l : List α) (k : κ) : K :=
  if k ∈ l.filterMap fund then min (cap k) (requested fund cost l k) else 0

/-- What the requests take from an unlimited pool. -/
def demand (l : List α) : K :=
  pooled fund cost l + ∑ k ∈ (l.filterMap fund).toFinset, drawn fund cost cap l k

variable {fund cost cap}

@[simp] theorem drawn_nil (k : κ) : drawn fund cost cap [] k = 0 := if_neg (by simp)

@[simp] theorem demand_nil : demand fund cost cap [] = 0 := by simp [demand, pooled]

theorem requested_snoc (l : List α) (a : α) (k : κ) :
    requested fund cost (l ++ [a]) k =
      requested fund cost l k + if fund a = some k then cost a else 0 := by
  unfold requested
  by_cases h : fund a = some k <;> simp [h]

theorem pooled_snoc (l : List α) (a : α) :
    pooled fund cost (l ++ [a]) = pooled fund cost l + if fund a = none then cost a else 0 := by
  unfold pooled
  cases h : fund a <;> simp [h]

theorem requested_nonneg {l : List α} (hl : ∀ a ∈ l, 0 ≤ cost a) (k : κ) : 0 ≤ requested fund cost l k := by
  refine List.sum_nonneg fun x hx => ?_
  obtain ⟨a, ha, rfl⟩ := List.mem_map.mp hx
  exact hl a (List.mem_of_mem_filter ha)

theorem requested_of_not_mem {l : List α} {k : κ} (h : k ∉ l.filterMap fund) : requested fund cost l k = 0 := by
  have hnil : l.filter (fun a => fund a == some k) = [] := by
    refine List.filter_eq_nil_iff.mpr fun a ha hk => h ?_
    exact List.mem_filterMap.mpr ⟨a, ha, by simpa using hk⟩
  rw [requested, hnil]
  rfl

/-- Serving a pocket in two steps: the second gets at most what the first left. -/
theorem min_add_min (c x : K) {y : K} (hy : 0 ≤ y) :
    min c (x + y) = min c x + min (c - min c x) y := by
  rcases le_total c x with h | h
  · rw [min_eq_left h, min_eq_left (by linarith : c ≤ x + y), sub_self, min_eq_left hy, add_zero]
  · rw [min_eq_right h]
    rcases le_total c (x + y) with h' | h'
    · rw [min_eq_left h', min_eq_left (by linarith : c - x ≤ y)]; ring
    · rw [min_eq_right h', min_eq_right (by linarith : y ≤ c - x)]

theorem drawn_snoc_of_ne {l : List α} {a : α} {k : κ} (h : fund a ≠ some k) :
    drawn fund cost cap (l ++ [a]) k = drawn fund cost cap l k := by
  have hmem : k ∈ (l ++ [a]).filterMap fund ↔ k ∈ l.filterMap fund := by
    cases hf : fund a with
    | none => simp [hf]
    | some k' =>
      have hk : k ≠ k' := fun hk => h (by rw [hf, hk])
      simp [hf, hk]
  unfold drawn
  rw [requested_snoc, if_neg h, add_zero]
  simp only [hmem]

/-- One more request on a pocket. -/
theorem drawn_snoc_self {l : List α} {a : α} {k : κ} (h : fund a = some k) (ha : 0 ≤ cost a) :
    drawn fund cost cap (l ++ [a]) k =
      drawn fund cost cap l k + min (cap k - drawn fund cost cap l k) (cost a) := by
  have hmem : k ∈ (l ++ [a]).filterMap fund := by simp [h]
  unfold drawn
  rw [if_pos hmem, requested_snoc, if_pos h]
  by_cases hk : k ∈ l.filterMap fund
  · rw [if_pos hk]
    exact min_add_min (cap k) (requested fund cost l k) ha
  · rw [if_neg hk, requested_of_not_mem hk]
    simp

/-- One more request on the pool. -/
theorem demand_snoc_pool {l : List α} {a : α} (h : fund a = none) :
    demand fund cost cap (l ++ [a]) = demand fund cost cap l + cost a := by
  have hdrawn : ∀ k, drawn fund cost cap (l ++ [a]) k = drawn fund cost cap l k :=
    fun k => drawn_snoc_of_ne (by rw [h]; exact nofun)
  have hkeys : (l ++ [a]).filterMap fund = l.filterMap fund := by simp [h]
  unfold demand
  rw [pooled_snoc, if_pos h, hkeys]
  simp only [hdrawn]
  ring

/-- One more request on a pocket takes from the pool what it takes from the pocket. -/
theorem demand_snoc_pocket {l : List α} {a : α} {k : κ} (h : fund a = some k) (ha : 0 ≤ cost a) :
    demand fund cost cap (l ++ [a]) =
      demand fund cost cap l + min (cap k - drawn fund cost cap l k) (cost a) := by
  have hkeys : ((l ++ [a]).filterMap fund).toFinset = insert k (l.filterMap fund).toFinset := by
    ext k'
    simp [h]
  -- the keys of `l` may lack `k`, where `l` draws nothing
  have hold : ∑ k' ∈ (l.filterMap fund).toFinset, drawn fund cost cap l k' =
      ∑ k' ∈ insert k (l.filterMap fund).toFinset, drawn fund cost cap l k' := by
    refine Finset.sum_subset (Finset.subset_insert _ _) fun k' _ hk' => ?_
    exact if_neg (by simpa using hk')
  have hnew : ∀ k', drawn fund cost cap (l ++ [a]) k' = drawn fund cost cap l k' +
      if k' = k then min (cap k - drawn fund cost cap l k) (cost a) else 0 := by
    intro k'
    by_cases hk : k' = k
    · rw [if_pos hk, hk, drawn_snoc_self h ha]
    · rw [if_neg hk, add_zero, drawn_snoc_of_ne (by rw [h]; exact fun h' => hk (Option.some.inj h').symm)]
  unfold demand
  rw [pooled_snoc, if_neg (by rw [h]; exact nofun), add_zero, hkeys, hold]
  simp only [hnew]
  rw [Finset.sum_add_distrib, Finset.sum_ite_eq', if_pos (Finset.mem_insert_self _ _)]
  ring

theorem drawn_le (hcap : ∀ k, 0 ≤ cap k) (l : List α) (k : κ) : drawn fund cost cap l k ≤ cap k := by
  unfold drawn
  split
  · exact min_le_left _ _
  · exact hcap k

/-- A pocket that gave nothing in the end gave nothing at the last request. -/
theorem drawn_snoc_eq_zero {l : List α} {a : α} {k : κ} (h : fund a = some k) (hl : ∀ b ∈ l, 0 ≤ cost b)
    (ha : 0 ≤ cost a) (h0 : drawn fund cost cap (l ++ [a]) k = 0) :
    drawn fund cost cap l k = 0 ∧ min (cap k - drawn fund cost cap l k) (cost a) = 0 := by
  rw [drawn_snoc_self h ha] at h0
  have hreq : 0 ≤ requested fund cost l k := requested_nonneg hl k
  by_cases hk : k ∈ l.filterMap fund
  · have hd : drawn fund cost cap l k = min (cap k) (requested fund cost l k) := if_pos hk
    rcases le_or_gt 0 (cap k) with hc | hc
    · have hd0 : 0 ≤ drawn fund cost cap l k := by rw [hd]; exact le_min hc hreq
      have hle : drawn fund cost cap l k ≤ cap k := by rw [hd]; exact min_le_left _ _
      have hm : 0 ≤ min (cap k - drawn fund cost cap l k) (cost a) := le_min (sub_nonneg.mpr hle) ha
      constructor <;> linarith
    · -- a negative pocket gives all of it at once
      have hcap : drawn fund cost cap l k = cap k := by rw [hd, min_eq_left (hc.le.trans hreq)]
      rw [hcap, sub_self, min_eq_left ha, add_zero] at h0
      exact absurd h0 hc.ne
  · have hd : drawn fund cost cap l k = 0 := if_neg hk
    rw [hd, zero_add] at h0
    exact ⟨hd, by rwa [hd]⟩

/-! ## Serving from a pool -/

section Pool

variable (fund cost cap) (V : K)

/-- The last request was one on the pool, and the pool did not exceed it. -/
def Exhausted (l : List α) : Prop :=
  l.getLast?.any (fun a => (fund a).isNone) = true ∧ V ≤ demand fund cost cap l

/-- The pool is empty after these requests. -/
def Stops (l : List α) : Prop := demand fund cost cap l = V ∨ Exhausted fund cost cap V l

instance (l : List α) : Decidable (Exhausted fund cost cap V l) := inferInstanceAs (Decidable (_ ∧ _))

instance (l : List α) : Decidable (Stops fund cost cap V l) := inferInstanceAs (Decidable (_ ∨ _))

/-- The requests served after `done`: up to the first that empties the pool. -/
def processed (done : List α) : List α → List α
  | [] => done
  | a :: l => if Stops fund cost cap V (done ++ [a]) then done ++ [a] else processed (done ++ [a]) l

/-- What is left of the pool. -/
def balance (l : List α) : K := if Exhausted fund cost cap V l then 0 else V - demand fund cost cap l

/-- The pool was below zero before its last request was served. -/
def Overdrawn (l : List α) : Prop :=
  if Exhausted fund cost cap V l then V < demand fund cost cap l.dropLast else V < demand fund cost cap l

variable {fund cost cap V}

theorem exhausted_snoc {l : List α} {a : α} :
    Exhausted fund cost cap V (l ++ [a]) ↔ fund a = none ∧ V ≤ demand fund cost cap (l ++ [a]) := by
  unfold Exhausted
  cases h : fund a <;> simp [h]

theorem not_exhausted_nil : ¬ Exhausted fund cost cap V [] := fun h => by simp [Exhausted] at h

theorem not_exhausted_of_lt {l : List α} (h : demand fund cost cap l < V) : ¬ Exhausted fund cost cap V l :=
  fun hx => absurd hx.2 (not_le.mpr h)

theorem balance_eq_zero_iff {l : List α} : balance fund cost cap V l = 0 ↔ Stops fund cost cap V l := by
  unfold balance Stops
  by_cases h : Exhausted fund cost cap V l
  · simp [h]
  · simp only [h, if_false, or_false, sub_eq_zero]
    exact eq_comm

theorem processed_prefix : ∀ (l done : List α), processed fund cost cap V done l <+: done ++ l
  | [], done => by simp [processed]
  | a :: l, done => by
    unfold processed
    split
    · exact ⟨l, by simp⟩
    · have h := processed_prefix l (done ++ [a])
      rwa [List.append_assoc, List.singleton_append] at h

/-- Before the last served request the pool was not empty yet. -/
theorem processed_dropLast : ∀ (l done : List α), processed fund cost cap V done l = done ∨
    (processed fund cost cap V done l).dropLast = done ∨
      ¬ Stops fund cost cap V (processed fund cost cap V done l).dropLast
  | [], _ => Or.inl rfl
  | a :: l, done => by
    unfold processed
    by_cases hs : Stops fund cost cap V (done ++ [a])
    · rw [if_pos hs, List.dropLast_concat]
      exact Or.inr (Or.inl rfl)
    · rw [if_neg hs]
      rcases processed_dropLast l (done ++ [a]) with h | h | h
      · rw [h, List.dropLast_concat]
        exact Or.inr (Or.inl rfl)
      · exact Or.inr (Or.inr (by rwa [h]))
      · exact Or.inr (Or.inr h)

/-- The pool had something left before the request that exhausted it. -/
theorem demand_dropLast_ne {l : List α} (hV : V ≠ 0)
    (hx : Exhausted fund cost cap V (processed fund cost cap V [] l)) :
    demand fund cost cap (processed fund cost cap V [] l).dropLast ≠ V := by
  rcases @processed_dropLast α κ K _ _ _ _ fund cost cap V l [] with h | h | h
  · rw [h] at hx
    exact absurd hx not_exhausted_nil
  · rw [h, demand_nil]
    exact hV.symm
  · exact fun hd => h (Or.inl hd)

section Monotone

variable (hcap : ∀ k, 0 ≤ cap k)
include hcap

theorem demand_le_snoc {l : List α} {a : α} (hl : ∀ b ∈ l ++ [a], 0 ≤ cost b) :
    demand fund cost cap l ≤ demand fund cost cap (l ++ [a]) := by
  have ha : 0 ≤ cost a := hl a (by simp)
  cases h : fund a with
  | none => rw [demand_snoc_pool h]; linarith
  | some k =>
    rw [demand_snoc_pocket h ha]
    have hmin : 0 ≤ min (cap k - drawn fund cost cap l k) (cost a) :=
      le_min (sub_nonneg.mpr (drawn_le hcap l k)) ha
    linarith

theorem demand_le_append {l : List α} : ∀ {d : List α}, (∀ b ∈ l ++ d, 0 ≤ cost b) →
    demand fund cost cap l ≤ demand fund cost cap (l ++ d) := by
  intro d
  induction d using List.reverseRecOn with
  | nil => intro _; rw [List.append_nil]
  | append_singleton d a ih =>
    intro hl
    rw [← List.append_assoc] at hl ⊢
    refine (ih fun b hb => hl b (List.mem_append_left _ hb)).trans (demand_le_snoc hcap hl)

theorem demand_nonneg {l : List α} (hl : ∀ b ∈ l, 0 ≤ cost b) : 0 ≤ demand fund cost cap l := by
  have h : demand fund cost cap [] ≤ demand fund cost cap ([] ++ l) :=
    demand_le_append hcap (by simpa using hl)
  simpa using h

theorem overdrawn_snoc {l : List α} {a : α} (hl : ∀ b ∈ l ++ [a], 0 ≤ cost b)
    (hx : ¬ Exhausted fund cost cap V l) (h : Overdrawn fund cost cap V l) :
    Overdrawn fund cost cap V (l ++ [a]) := by
  unfold Overdrawn at h ⊢
  rw [if_neg hx] at h
  split
  · rwa [List.dropLast_concat]
  · exact h.trans_le (demand_le_snoc hcap hl)

/-- Once the pool is overdrawn it stays so, whatever is served. -/
theorem overdrawn_processed : ∀ (l done : List α), (∀ b ∈ done ++ l, 0 ≤ cost b) →
    ¬ Exhausted fund cost cap V done → Overdrawn fund cost cap V done →
    Overdrawn fund cost cap V (processed fund cost cap V done l)
  | [], _, _, _, h => h
  | a :: l, done, hl, hx, h => by
    have hl' : ∀ b ∈ done ++ [a], 0 ≤ cost b := fun b hb => hl b (by
      rw [List.mem_append] at hb ⊢
      exact hb.imp_right fun hb => List.mem_cons.mpr (Or.inl (List.mem_singleton.mp hb)))
    have h' := overdrawn_snoc hcap hl' hx h
    unfold processed
    split
    · exact h'
    · next hs =>
      refine overdrawn_processed l (done ++ [a]) (by simpa using hl) (fun hx' => hs (Or.inr hx')) h'

/-- A pocket request that takes more than the pool has. -/
def Overdraws (fund : α → Option κ) (cost : α → K) (cap : κ → K) (V : K) (done l : List α) : Prop :=
  ∃ d a r, l = d ++ a :: r ∧ demand fund cost cap (done ++ d) < V ∧ fund a ≠ none ∧
    V < demand fund cost cap (done ++ d ++ [a])

omit hcap in
theorem overdraws_cons {a : α} {l done : List α} :
    Overdraws fund cost cap V done (a :: l) ↔
      (demand fund cost cap done < V ∧ fund a ≠ none ∧ V < demand fund cost cap (done ++ [a])) ∨
        Overdraws fund cost cap V (done ++ [a]) l := by
  constructor
  · rintro ⟨d, b, r, hl, hd, hb, hV⟩
    cases d with
    | nil =>
      obtain ⟨rfl, -⟩ := List.cons_eq_cons.mp hl
      rw [List.append_nil] at hd hV
      exact Or.inl ⟨hd, hb, hV⟩
    | cons a' d =>
      obtain ⟨rfl, hl'⟩ := List.cons_eq_cons.mp hl
      exact Or.inr ⟨d, b, r, hl', by simpa using hd, hb, by simpa using hV⟩
  · rintro (⟨hd, ha, hV⟩ | ⟨d, b, r, rfl, hd, hb, hV⟩)
    · exact ⟨[], a, l, rfl, by simpa using hd, ha, by simpa using hV⟩
    · exact ⟨a :: d, b, r, rfl, by simpa using hd, hb, by simpa using hV⟩

theorem not_overdraws_of_le {l done : List α} (hl : ∀ b ∈ done ++ l, 0 ≤ cost b)
    (h : V ≤ demand fund cost cap done) : ¬ Overdraws fund cost cap V done l := by
  rintro ⟨d, a, r, rfl, hd, -, -⟩
  have hle : demand fund cost cap done ≤ demand fund cost cap (done ++ d) := by
    refine demand_le_append hcap fun b hb => hl b ?_
    rw [List.mem_append] at hb ⊢
    exact hb.imp_right (List.mem_append_left _)
  exact absurd (h.trans hle) (not_le.mpr hd)

/-- **When the pool is overdrawn**: some pocket request takes more than the pool has left. -/
theorem overdrawn_iff : ∀ (l done : List α), (∀ b ∈ done ++ l, 0 ≤ cost b) →
    demand fund cost cap done < V →
    (Overdrawn fund cost cap V (processed fund cost cap V done l) ↔ Overdraws fund cost cap V done l)
  | [], done, _, hd => by
    unfold processed Overdrawn
    rw [if_neg (not_exhausted_of_lt hd)]
    refine ⟨fun h => absurd h (not_lt.mpr hd.le), ?_⟩
    rintro ⟨d, a, r, h, -⟩
    simp at h
  | a :: l, done, hl, hd => by
    have hl' : ∀ b ∈ (done ++ [a]) ++ l, 0 ≤ cost b := by simpa using hl
    rw [overdraws_cons]
    unfold processed
    rcases lt_trichotomy (demand fund cost cap (done ++ [a])) V with h | h | h
    · -- the pool is not empty yet
      have hs : ¬ Stops fund cost cap V (done ++ [a]) := fun hs =>
        hs.elim h.ne (not_exhausted_of_lt h)
      rw [if_neg hs, overdrawn_iff l (done ++ [a]) hl' h]
      exact ⟨Or.inr, fun h' => h'.elim (fun h' => absurd h'.2.2 h.not_gt) id⟩
    · -- the pool is emptied exactly
      have hs : Stops fund cost cap V (done ++ [a]) := Or.inl h
      rw [if_pos hs]
      have hno : ¬ Overdraws fund cost cap V (done ++ [a]) l := not_overdraws_of_le hcap hl' h.ge
      refine ⟨fun ho => ?_, fun ho => ?_⟩
      · unfold Overdrawn at ho
        split at ho
        · rw [List.dropLast_concat] at ho
          exact absurd ho hd.not_gt
        · exact absurd ho (not_lt.mpr h.le)
      · exact ho.elim (fun ho => absurd ho.2.2 (not_lt.mpr h.le)) (fun ho => absurd ho hno)
    · have hno : ¬ Overdraws fund cost cap V (done ++ [a]) l := not_overdraws_of_le hcap hl' h.le
      by_cases ha : fund a = none
      · -- a pool request takes what is left
        have hx : Exhausted fund cost cap V (done ++ [a]) := exhausted_snoc.mpr ⟨ha, h.le⟩
        have hs : Stops fund cost cap V (done ++ [a]) := Or.inr hx
        rw [if_pos hs]
        unfold Overdrawn
        rw [if_pos hx, List.dropLast_concat]
        exact ⟨fun ho => absurd ho hd.not_gt, fun ho => ho.elim (fun ho => absurd ha ho.2.1)
          (fun ho => absurd ho hno)⟩
      · -- a pocket request takes more than that
        have hx : ¬ Exhausted fund cost cap V (done ++ [a]) := fun hx => ha (exhausted_snoc.mp hx).1
        have hs : ¬ Stops fund cost cap V (done ++ [a]) := fun hs => hs.elim h.ne' hx
        rw [if_neg hs]
        refine ⟨fun _ => Or.inl ⟨hd, ha, h⟩, fun _ => overdrawn_processed hcap l _ hl' hx ?_⟩
        unfold Overdrawn
        rwa [if_neg hx]

end Monotone

end Pool

end Waterfall
