import Mathlib

/-!
# Lib.Fences — texts that are cut at three marks in a row

`cut` splits a text at every fence, from the left: the parts that a fence follows, and the last one.  What is appended to
a text continues its last part (`cut_append`); a part that does not end in a mark is only prolonged (`cut_settled`).
-/

namespace Fences

variable {α : Type}

/-- Three marks. -/
def fence (m : α) : List α := [m, m, m]

/-- A text in front of the first part. -/
def joinHead (x : List α) : List (List α) × List α → List (List α) × List α
  | ([], r) => ([], x ++ r)
  | (s :: ss, r) => ((x ++ s) :: ss, r)

/-- No mark stands at the end. -/
def Settled (m : α) (x : List α) : Prop := x.getLast? ≠ some m

section Parts

variable {m : α} {x z : List α} {p : List (List α) × List α}

theorem joinHead_fst_eq_nil : (joinHead x p).1 = [] ↔ p.1 = [] := by
  obtain ⟨L, r⟩ := p
  cases L <;> simp [joinHead]

theorem joinHead_nil (p : List (List α) × List α) : joinHead [] p = p := by
  obtain ⟨L, r⟩ := p
  cases L <;> rfl

theorem joinHead_joinHead (x z : List α) (p : List (List α) × List α) :
    joinHead x (joinHead z p) = joinHead (x ++ z) p := by
  obtain ⟨L, r⟩ := p
  cases L <;> simp [joinHead]

theorem joinHead_snd_of_ne (h : p.1 ≠ []) : (joinHead x p).2 = p.2 := by
  obtain ⟨L, r⟩ := p
  cases L with
  | nil => exact absurd rfl h
  | cons => rfl

theorem eq_fence_append (h : fence m <+: x) : ∃ l, x = m :: m :: m :: l := by
  obtain ⟨l, rfl⟩ := h
  exact ⟨l, rfl⟩

theorem length_joinHead (p : List (List α) × List α) : (joinHead x p).1.length = p.1.length := by
  obtain ⟨L, r⟩ := p
  cases L <;> rfl

theorem settled_iff : Settled m x ↔ ∀ h : x ≠ [], x.getLast h ≠ m := by
  unfold Settled
  constructor
  · intro h hne heq
    exact h (by rw [List.getLast?_eq_some_getLast hne, heq])
  · intro h heq
    have hne : x ≠ [] := by
      rintro rfl
      cases heq
    rw [List.getLast?_eq_some_getLast hne] at heq
    exact h hne (Option.some_inj.mp heq)

theorem settled_nil : Settled m ([] : List α) := by
  unfold Settled
  simp

theorem Settled.suffix (h : Settled m z) (hx : x <:+ z) : Settled m x := by
  obtain ⟨w, rfl⟩ := hx
  by_cases hnil : x = []
  · rw [hnil]
    exact settled_nil
  · unfold Settled at h ⊢
    rwa [List.getLast?_append_of_ne_nil _ hnil] at h

theorem settled_append (hz : Settled m z) (hne : z ≠ []) : Settled m (x ++ z) := by
  unfold Settled at hz ⊢
  rwa [List.getLast?_append_of_ne_nil _ hne]

end Parts

variable [DecidableEq α] (m : α)

/-- The parts of a text that a fence follows, and the part after the last fence. -/
def cut : List α → List (List α) × List α
  | a :: b :: c :: l =>
    if a = m ∧ b = m ∧ c = m then ([] :: (cut l).1, (cut l).2) else joinHead [a] (cut (b :: c :: l))
  | l => ([], l)

/-- All the parts of a text. -/
def segments (x : List α) : List (List α) := (cut m x).1 ++ [(cut m x).2]

def NoFence (x : List α) : Prop := (cut m x).1 = []

instance (x : List α) : Decidable (NoFence m x) := inferInstanceAs (Decidable (_ = _))

instance (x : List α) : Decidable (Settled m x) := inferInstanceAs (Decidable (_ ≠ _))

section Cut

variable {m} {a b c : α} {s x z : List α}

theorem cut_fence (l : List α) : cut m (m :: m :: m :: l) = ([] :: (cut m l).1, (cut m l).2) := by
  rw [cut, if_pos ⟨rfl, rfl, rfl⟩]

theorem cut_cons_of_not (h : ¬ (a = m ∧ b = m ∧ c = m)) (l : List α) :
    cut m (a :: b :: c :: l) = joinHead [a] (cut m (b :: c :: l)) := by
  rw [cut, if_neg h]

/-- A text that does not begin with a fence keeps its first letter in its first part. -/
theorem cut_cons (h : ¬ fence m <+: a :: x) : cut m (a :: x) = joinHead [a] (cut m x) := by
  match x with
  | [] => rfl
  | [b] => rfl
  | b :: c :: l =>
    refine cut_cons_of_not ?_ l
    rintro ⟨rfl, rfl, rfl⟩
    exact h ⟨l, rfl⟩

/-- Without a fence the text is its last part. -/
theorem cut_of_noFence (h : NoFence m x) : cut m x = ([], x) := by
  induction x with
  | nil => rfl
  | cons a x ih =>
    unfold NoFence at h
    by_cases hfence : fence m <+: a :: x
    · obtain ⟨l, heq⟩ := eq_fence_append hfence
      rw [heq, cut_fence] at h
      exact absurd h (List.cons_ne_nil _ _)
    · rw [cut_cons hfence] at h ⊢
      rw [ih (joinHead_fst_eq_nil.mp h)]
      rfl

/-- **What is appended continues the last part.** -/
theorem cut_append (x z : List α) :
    cut m (x ++ z) = ((cut m x).1 ++ (cut m ((cut m x).2 ++ z)).1, (cut m ((cut m x).2 ++ z)).2) := by
  induction x using cut.induct m with
  | case1 a b c l hfence ih =>
    rw [hfence.1, hfence.2.1, hfence.2.2]
    show cut m (m :: m :: m :: (l ++ z)) = _
    rw [cut_fence, cut_fence, ih]
    rfl
  | case2 a b c l hfence ih =>
    show cut m (a :: b :: c :: (l ++ z)) = _
    rw [cut_cons_of_not hfence, cut_cons_of_not hfence]
    by_cases hnone : (cut m (b :: c :: l)).1 = []
    · have hwhole := cut_of_noFence hnone
      rw [hwhole]
      show joinHead [a] (cut m (b :: c :: (l ++ z))) =
        ([] ++ (cut m (a :: b :: c :: (l ++ z))).1, (cut m (a :: b :: c :: (l ++ z))).2)
      rw [cut_cons_of_not hfence]
      rfl
    · have hmore := ih
      rw [List.cons_append, List.cons_append] at hmore
      rw [hmore, joinHead_snd_of_ne hnone]
      obtain ⟨s, ss, hss⟩ := List.exists_cons_of_ne_nil hnone
      have hpair : cut m (b :: c :: l) = (s :: ss, (cut m (b :: c :: l)).2) := by rw [← hss]
      rw [hpair]
      rfl
  | case3 l hshort =>
    match l, hshort with
    | [], _ => rfl
    | [a], _ => rfl
    | [a, b], _ => rfl
    | a :: b :: c :: l, hshort => exact absurd rfl (hshort a b c l)

/-- The parts of a text, with the fences between them, are the text. -/
theorem cut_join (x : List α) : ((cut m x).1.map (· ++ fence m)).flatten ++ (cut m x).2 = x := by
  induction x using cut.induct m with
  | case1 a b c l hfence ih =>
    rw [hfence.1, hfence.2.1, hfence.2.2, cut_fence]
    show fence m ++ _ ++ (cut m l).2 = _
    rw [List.append_assoc, ih]
    rfl
  | case2 a b c l hfence ih =>
    rw [cut_cons_of_not hfence]
    rcases hcut : cut m (b :: c :: l) with ⟨L, r⟩
    rw [hcut] at ih
    cases L with
    | nil =>
      show [] ++ ([a] ++ r) = _
      have hr : r = b :: c :: l := ih
      rw [hr]
      rfl
    | cons s ss =>
      rw [← ih]
      simp [joinHead]
  | case3 l hshort =>
    match l, hshort with
    | [], _ => rfl
    | [a], _ => rfl
    | [a, b], _ => rfl
    | a :: b :: c :: l, hshort => exact absurd rfl (hshort a b c l)

theorem noFence_last (x : List α) : NoFence m (cut m x).2 := by
  have h := cut_append (m := m) x []
  rw [List.append_nil, List.append_nil] at h
  have hfst := congrArg Prod.fst h
  exact List.self_eq_append_right.mp hfst

theorem noFence_of_cons (h : NoFence m (a :: x)) : NoFence m x := by
  have hnot : ¬ fence m <+: a :: x := by
    intro hfence
    obtain ⟨l, heq⟩ := eq_fence_append hfence
    unfold NoFence at h
    rw [heq, cut_fence] at h
    exact absurd h (List.cons_ne_nil _ _)
  unfold NoFence at h ⊢
  rw [cut_cons hnot] at h
  exact joinHead_fst_eq_nil.mp h

theorem not_fence_prefix (h : NoFence m x) : ¬ fence m <+: x := by
  intro hfence
  obtain ⟨l, rfl⟩ := eq_fence_append hfence
  unfold NoFence at h
  rw [cut_fence] at h
  exact absurd h (List.cons_ne_nil _ _)

theorem noFence_append_right (h : NoFence m (x ++ z)) : NoFence m z := by
  induction x with
  | nil => exact h
  | cons a x ih => exact ih (noFence_of_cons h)

theorem noFence_append_left (h : NoFence m (x ++ z)) : NoFence m x := by
  unfold NoFence at h ⊢
  rw [cut_append] at h
  exact (List.append_eq_nil_iff.mp h).1

/-- One mark before a text makes at most one fence with it. -/
theorem length_cut_mark (h : NoFence m x) : (cut m (m :: x)).1.length ≤ 1 := by
  by_cases hfence : fence m <+: m :: x
  · obtain ⟨l, heq⟩ := eq_fence_append hfence
    have hx : x = m :: m :: l := (List.cons.inj heq).2
    have hl : NoFence m l := by
      rw [hx] at h
      exact noFence_of_cons (noFence_of_cons h)
    rw [heq, cut_fence, cut_of_noFence hl]
    exact le_refl _
  · rw [cut_cons hfence, length_joinHead, cut_of_noFence h]
    exact Nat.zero_le _

theorem length_cut_two_marks (h : NoFence m x) : (cut m (m :: m :: x)).1.length ≤ 1 := by
  by_cases hfence : fence m <+: m :: m :: x
  · obtain ⟨l, heq⟩ := eq_fence_append hfence
    have hx : x = m :: l := (List.cons.inj (List.cons.inj heq).2).2
    have hl : NoFence m l := by
      rw [hx] at h
      exact noFence_of_cons h
    rw [heq, cut_fence, cut_of_noFence hl]
    exact le_refl _
  · rw [cut_cons hfence, length_joinHead]
    exact length_cut_mark h

/-- A settled part is prolonged by what is appended to it; so is any part whose marks make no fence with it. -/
theorem cut_prolonged (hx : NoFence m x) (h : ∀ y, y <:+ x → y ≠ [] → ¬ fence m <+: y ++ z) :
    cut m (x ++ z) = joinHead x (cut m z) := by
  induction x with
  | nil => rw [List.nil_append, joinHead_nil]
  | cons a x ih =>
    have hrest := ih (noFence_of_cons hx) fun y hy hne => h y (hy.trans (List.suffix_cons a x)) hne
    have hhead : ¬ fence m <+: a :: (x ++ z) := h (a :: x) (List.suffix_refl _) (List.cons_ne_nil _ _)
    rw [List.cons_append, cut_cons hhead, hrest, joinHead_joinHead]
    rfl

/-- No suffix of a settled text begins a fence that the text does not contain. -/
theorem not_fence_prefix_of_settled {y : List α} (hx : NoFence m x) (h : Settled m x) (hy : y <:+ x) (hne : y ≠ []) :
    ¬ fence m <+: y ++ z := by
  obtain ⟨w, rfl⟩ := hy
  have hnot := not_fence_prefix (noFence_append_right hx)
  have hlast : y.getLast? ≠ some m := by
    unfold Settled at h
    rwa [List.getLast?_append_of_ne_nil _ hne] at h
  match y, hne with
  | [a], _ =>
    rintro ⟨l, hl⟩
    injection hl with hhead
    exact hlast (by rw [← hhead]; rfl)
  | [a, b], _ =>
    rintro ⟨l, hl⟩
    injection hl with hhead htail
    injection htail with hhead'
    exact hlast (by rw [← hhead']; rfl)
  | a :: b :: c :: y, _ =>
    rintro ⟨l, hl⟩
    injection hl with h₁ htail
    injection htail with h₂ htail
    injection htail with h₃
    exact hnot ⟨y, by rw [← h₁, ← h₂, ← h₃]; rfl⟩

theorem cut_settled (hx : NoFence m x) (h : Settled m x) (z : List α) : cut m (x ++ z) = joinHead x (cut m z) :=
  cut_prolonged hx fun _ hy hne => not_fence_prefix_of_settled hx h hy hne

/-- Before a fence, a settled part is a part of its own. -/
theorem cut_settled_fence (hx : NoFence m x) (h : Settled m x) (z : List α) :
    cut m (x ++ (fence m ++ z)) = (x :: (cut m z).1, (cut m z).2) := by
  rw [cut_settled hx h]
  show joinHead x (cut m (m :: m :: m :: z)) = _
  rw [cut_fence]
  show ((x ++ []) :: _, _) = _
  rw [List.append_nil]

/-- A part that a fence follows has no fence in it, and no mark at its end. -/
theorem cut_parts (x : List α) : ∀ s ∈ (cut m x).1, NoFence m s ∧ Settled m s := by
  induction x using cut.induct m with
  | case1 a b c l hfence ih =>
    rw [hfence.1, hfence.2.1, hfence.2.2, cut_fence]
    intro s hs
    rcases List.mem_cons.mp hs with rfl | hs
    · exact ⟨rfl, settled_nil⟩
    · exact ih s hs
  | case2 a b c l hfence ih =>
    have hnot : ¬ fence m <+: a :: b :: c :: l := by
      rintro ⟨w, hw⟩
      injection hw with h₁ hw
      injection hw with h₂ hw
      injection hw with h₃
      exact hfence ⟨h₁.symm, h₂.symm, h₃.symm⟩
    have hjoin := cut_join (m := m) (b :: c :: l)
    rw [cut_cons_of_not hfence]
    rcases hcut : cut m (b :: c :: l) with ⟨L, r⟩
    rw [hcut] at ih hjoin
    cases L with
    | nil => exact fun s hs => absurd hs List.not_mem_nil
    | cons s ss =>
      have hjoin' : s ++ fence m ++ ((ss.map (· ++ fence m)).flatten ++ r) = b :: c :: l := by
        rw [← hjoin]
        simp
      intro t ht
      rcases List.mem_cons.mp ht with rfl | ht
      · obtain ⟨hno, hsettled⟩ := ih s List.mem_cons_self
        refine ⟨?_, ?_⟩
        · have hhead : ¬ fence m <+: a :: s := by
            rintro ⟨w, hw⟩
            refine hnot ⟨w ++ (fence m ++ ((ss.map (· ++ fence m)).flatten ++ r)), ?_⟩
            rw [← hjoin', ← List.append_assoc, hw]
            simp
          unfold NoFence at hno ⊢
          show (cut m (a :: s)).1 = []
          rw [cut_cons hhead, joinHead_fst_eq_nil]
          exact hno
        · by_cases hnil : s = []
          · subst hnil
            refine settled_iff.mpr fun _ heq => hnot ⟨m :: ((ss.map (· ++ fence m)).flatten ++ r), ?_⟩
            have ha : a = m := heq
            rw [← hjoin', ha]
            rfl
          · exact settled_append hsettled hnil
      · exact ih t (List.mem_cons_of_mem _ ht)
  | case3 l hshort =>
    match l, hshort with
    | [], _ => exact fun s hs => absurd hs List.not_mem_nil
    | [a], _ => exact fun s hs => absurd hs List.not_mem_nil
    | [a, b], _ => exact fun s hs => absurd hs List.not_mem_nil
    | a :: b :: c :: l, hshort => exact absurd rfl (hshort a b c l)

/-- Parts with fences after them are cut where they were joined. -/
theorem cut_joined {L : List (List α)} (h : ∀ s ∈ L, NoFence m s ∧ Settled m s) (x : List α) :
    cut m ((L.map (· ++ fence m)).flatten ++ x) = (L ++ (cut m x).1, (cut m x).2) := by
  induction L with
  | nil => rfl
  | cons s L ih =>
    have hs := h s List.mem_cons_self
    have hlist : ((s :: L).map (· ++ fence m)).flatten ++ x = s ++ (fence m ++ ((L.map (· ++ fence m)).flatten ++ x)) := by
      simp
    rw [hlist, cut_settled_fence hs.1 hs.2, ih fun t ht => h t (List.mem_cons_of_mem _ ht)]
    rfl

end Cut

/-! ## Trailing marks -/

/-- The marks at the end of a text. -/
def marks (x : List α) : List α := x.rtakeWhile (fun a => decide (a = m))

section Marks

variable {m} {x z : List α} {k : ℕ}

/-- A text is a settled text and the marks at its end. -/
theorem exists_marks (m : α) (x : List α) : ∃ y k, x = y ++ List.replicate k m ∧ Settled m y := by
  induction x using List.reverseRecOn with
  | nil => exact ⟨[], 0, rfl, settled_nil⟩
  | append_singleton x a ih =>
    by_cases ha : a = m
    · obtain ⟨y, k, hx, hy⟩ := ih
      refine ⟨y, k + 1, ?_, hy⟩
      rw [hx, ha, List.append_assoc, List.replicate_succ']
    · refine ⟨x ++ [a], 0, by simp, ?_⟩
      unfold Settled
      simp [ha]

theorem marks_append_replicate (hx : Settled m x) : marks m (x ++ List.replicate k m) = List.replicate k m := by
  induction k with
  | zero =>
    rw [List.replicate_zero, List.append_nil]
    unfold marks
    rw [List.rtakeWhile_eq_nil_iff]
    intro hne
    simpa using settled_iff.mp hx hne
  | succ k ih =>
    unfold marks at ih ⊢
    rw [List.replicate_succ', ← List.append_assoc, List.rtakeWhile_concat_pos _ _ _ (by simp), ih]

theorem replicate_suffix_iff {j : ℕ} (hx : Settled m x) : List.replicate j m <:+ x ++ List.replicate k m ↔ j ≤ k := by
  constructor
  · rintro ⟨w, hw⟩
    obtain ⟨y, i, rfl, hy⟩ := exists_marks m w
    rw [List.append_assoc, List.replicate_append_replicate] at hw
    have hmarks := marks_append_replicate (m := m) (k := i + j) hy
    rw [hw, marks_append_replicate hx] at hmarks
    have hlength := congrArg List.length hmarks
    rw [List.length_replicate, List.length_replicate] at hlength
    omega
  · intro hle
    obtain ⟨i, rfl⟩ : ∃ i, k = i + j := ⟨k - j, by omega⟩
    rw [← List.replicate_append_replicate, ← List.append_assoc]
    exact List.suffix_append _ _

theorem last_suffix (x : List α) : (cut m x).2 <:+ x := by
  induction x using cut.induct m with
  | case1 a b c l hfence ih =>
    rw [hfence.1, hfence.2.1, hfence.2.2, cut_fence]
    exact ih.trans ((List.suffix_cons _ _).trans ((List.suffix_cons _ _).trans (List.suffix_cons _ _)))
  | case2 a b c l hfence ih =>
    rw [cut_cons_of_not hfence]
    by_cases hnone : (cut m (b :: c :: l)).1 = []
    · rw [cut_of_noFence hnone]
      exact List.suffix_refl _
    · rw [joinHead_snd_of_ne hnone]
      exact ih.trans (List.suffix_cons _ _)
  | case3 l hshort =>
    match l, hshort with
    | [], _ => exact List.suffix_refl _
    | [a], _ => exact List.suffix_refl _
    | [a, b], _ => exact List.suffix_refl _
    | a :: b :: c :: l, hshort => exact absurd rfl (hshort a b c l)

/-- The part after a fence at the end of a text is at most two marks. -/
theorem cut_append_fence (x : List α) : (cut m (x ++ fence m)).1 ≠ [] ∧
    ((cut m (x ++ fence m)).2 = [] ∨ (cut m (x ++ fence m)).2 = [m] ∨ (cut m (x ++ fence m)).2 = [m, m]) := by
  obtain ⟨y, k, hlast, hsettled⟩ := exists_marks m (cut m x).2
  have hno := noFence_last (m := m) x
  have hk : k ≤ 2 := by
    by_contra hgt
    rw [hlast] at hno
    refine not_fence_prefix (noFence_append_right hno) ?_
    obtain ⟨j, rfl⟩ : ∃ j, k = 3 + j := ⟨k - 3, by omega⟩
    rw [List.replicate_add]
    exact List.prefix_append _ _
  have hy : NoFence m y := by
    have hwhole := cut_of_noFence hno
    unfold NoFence
    by_contra hne
    have happend := cut_append (m := m) y (List.replicate k m)
    rw [← hlast, hwhole] at happend
    exact hne (List.append_eq_nil_iff.mp (congrArg Prod.fst happend).symm).1
  rw [cut_append x, hlast, List.append_assoc, cut_settled hy hsettled]
  interval_cases k <;> simp [fence, cut, joinHead, List.replicate]

end Marks

end Fences
