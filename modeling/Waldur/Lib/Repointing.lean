import Mathlib

/-!
# Lib.Repointing — moving references under a unique constraint

Rows refer to something (`f` gives what the reference becomes, if it is mapped) and carry further values `u` with which
the reference is unique.  `repoint` goes through the rows and moves each mapped one unless its new key is taken: by a
row that has the key already, or by one moved before it.  What it leaves alone keeps its reference, so a key that was
unique before is unique after (`unique_after`).
-/

namespace Repointing

variable {ρ α β : Type} [DecidableEq α] [DecidableEq β]

/-- The rows that move, with their new reference, and the rows whose new key is taken. -/
def repoint (f : ρ → Option α) (u : ρ → β) (checked : Bool) : List (α × β) → List ρ → List (ρ × α) × List ρ
  | _, [] => ([], [])
  | existing, r :: rows =>
    match f r with
    | none => repoint f u checked existing rows
    | some a =>
      if checked = true ∧ (a, u r) ∈ existing then
        let rest := repoint f u checked existing rows
        (rest.1, r :: rest.2)
      else
        let rest := repoint f u checked ((a, u r) :: existing) rows
        ((r, a) :: rest.1, rest.2)

variable {f : ρ → Option α} {u : ρ → β} {checked : Bool} {existing : List (α × β)} {rows : List ρ} {r : ρ} {a : α}

theorem mem_moved (h : (r, a) ∈ (repoint f u checked existing rows).1) : r ∈ rows ∧ f r = some a := by
  induction rows generalizing existing with
  | nil => exact absurd h List.not_mem_nil
  | cons r' rows ih =>
    unfold repoint at h
    cases hf : f r' with
    | none =>
      rw [hf] at h
      obtain ⟨hr, ha⟩ := ih h
      exact ⟨List.mem_cons_of_mem _ hr, ha⟩
    | some a' =>
      simp only [hf] at h
      split_ifs at h
      · obtain ⟨hr, ha⟩ := ih h
        exact ⟨List.mem_cons_of_mem _ hr, ha⟩
      · rcases List.mem_cons.mp h with heq | h
        · obtain ⟨rfl, rfl⟩ := Prod.mk.inj heq
          exact ⟨List.mem_cons_self, hf⟩
        · obtain ⟨hr, ha⟩ := ih h
          exact ⟨List.mem_cons_of_mem _ hr, ha⟩

theorem moved_or_left (hr : r ∈ rows) (ha : f r = some a) :
    (r, a) ∈ (repoint f u checked existing rows).1 ∨ r ∈ (repoint f u checked existing rows).2 := by
  induction rows generalizing existing with
  | nil => exact absurd hr List.not_mem_nil
  | cons r' rows ih =>
    unfold repoint
    rcases List.mem_cons.mp hr with rfl | hr
    · simp only [ha]
      split_ifs
      · exact Or.inr List.mem_cons_self
      · exact Or.inl List.mem_cons_self
    · cases hf : f r' with
      | none => exact ih hr
      | some a' =>
        simp only
        split_ifs
        · exact (ih hr).imp_right fun h => List.mem_cons_of_mem _ h
        · exact (ih hr).imp_left fun h => List.mem_cons_of_mem _ h

theorem mem_left (h : r ∈ (repoint f u checked existing rows).2) : checked = true ∧ r ∈ rows ∧ (f r).isSome = true := by
  induction rows generalizing existing with
  | nil => exact absurd h List.not_mem_nil
  | cons r' rows ih =>
    have hrest : r ∈ rows ∧ (f r).isSome = true → r ∈ r' :: rows ∧ (f r).isSome = true :=
      And.imp_left (List.mem_cons_of_mem r')
    unfold repoint at h
    cases hf : f r' with
    | none =>
      rw [hf] at h
      exact (ih h).imp_right hrest
    | some a' =>
      simp only [hf] at h
      split_ifs at h with htaken
      · rcases List.mem_cons.mp h with rfl | h
        · exact ⟨htaken.1, List.mem_cons_self, hf ▸ rfl⟩
        · exact (ih h).imp_right hrest
      · exact (ih h).imp_right hrest

theorem moved_sublist : ((repoint f u checked existing rows).1.map Prod.fst).Sublist rows := by
  induction rows generalizing existing with
  | nil => exact List.Sublist.slnil
  | cons r' rows ih =>
    unfold repoint
    cases hf : f r' with
    | none => exact (ih).cons _
    | some a' =>
      simp only
      split_ifs
      · exact (ih).cons _
      · exact (ih).cons_cons _

/-- The keys of the moved rows are new, and differ from each other. -/
theorem moved_keys (hchecked : checked = true) :
    (repoint f u checked existing rows).1.Pairwise (fun x y => (x.2, u x.1) ≠ (y.2, u y.1)) ∧
      ∀ x ∈ (repoint f u checked existing rows).1, (x.2, u x.1) ∉ existing := by
  induction rows generalizing existing with
  | nil => exact ⟨.nil, fun x hx => absurd hx List.not_mem_nil⟩
  | cons r' rows ih =>
    unfold repoint
    cases hf : f r' with
    | none => exact ih
    | some a' =>
      simp only
      split_ifs with htaken
      · exact ih
      · obtain ⟨hdistinct, hnew⟩ := @ih ((a', u r') :: existing)
        refine ⟨List.pairwise_cons.mpr ⟨fun y hy heq => ?_, hdistinct⟩, fun x hx => ?_⟩
        · exact hnew y hy (heq ▸ List.mem_cons_self)
        · rcases List.mem_cons.mp hx with rfl | hx
          · exact fun hmem => htaken ⟨hchecked, hmem⟩
          · exact fun hmem => hnew x hx (List.mem_cons_of_mem _ hmem)

/-- **Unique before, unique after**: `v` is the reference before and `w` after, each moved row under its new one; the
keys that the loop started with include those that a moved row could meet. -/
theorem unique_after {all : List ρ} {v w : ρ → Option α} (hchecked : checked = true)
    (hbefore : ∀ r ∈ all, ∀ r' ∈ all, (v r, u r) = (v r', u r') → r = r')
    (hafter : ∀ r ∈ all, (∃ a, (r, a) ∈ (repoint f u checked existing rows).1 ∧ w r = some a) ∨ w r = v r)
    (hexisting : ∀ r' ∈ all, ∀ x ∈ (repoint f u checked existing rows).1, v r' = some x.2 → u r' = u x.1 →
      (x.2, u r') ∈ existing)
    {r r' : ρ} (hr : r ∈ all) (hr' : r' ∈ all) (h : (w r, u r) = (w r', u r')) : r = r' := by
  obtain ⟨hdistinct, hnew⟩ := @moved_keys _ _ _ _ _ f u checked existing rows hchecked
  obtain ⟨hw, hu⟩ := Prod.mk.inj h
  have hclash : ∀ r ∈ all, ∀ a, (r, a) ∈ (repoint f u checked existing rows).1 → ∀ r' ∈ all, v r' = some a →
      u r = u r' → False := fun r _ a ha r' hr' hv hu' =>
    hnew _ ha (hu' ▸ hexisting r' hr' _ ha hv hu'.symm)
  rcases hafter r hr with ⟨a, ha, hwa⟩ | hwv
  · rcases hafter r' hr' with ⟨a', ha', hwa'⟩ | hwv'
    · have haa : a = a' := Option.some.inj (hwa.symm.trans (hw.trans hwa'))
      have hsymm : Std.Symm fun x y : ρ × α => (x.2, u x.1) ≠ (y.2, u y.1) := ⟨fun _ _ hxy => hxy.symm⟩
      by_contra hne
      exact hdistinct.forall ha ha' (fun heq => hne (congrArg Prod.fst heq)) (Prod.ext haa hu)
    · exact (hclash r hr a ha r' hr' (hwv'.symm.trans (hw.symm.trans hwa)) hu).elim
  · rcases hafter r' hr' with ⟨a', ha', hwa'⟩ | hwv'
    · exact (hclash r' hr' a' ha' r hr (hwv.symm.trans (hw.trans hwa')) hu.symm).elim
    · exact hbefore r hr r' hr' (Prod.ext (hwv.symm.trans (hw.trans hwv')) hu)

end Repointing
