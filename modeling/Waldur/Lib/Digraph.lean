import Mathlib

/-!
# Lib.Digraph — acyclic relations and one more edge

`addEdge E s t` is the relation `E` with one more edge.  A path of it goes along `E`, or along `E` to the new
edge and on from there; so the edge closes a cycle of an acyclic relation exactly when its end reaches its
start.  The same case split, taken edge by edge, decides reachability along a list of edges (`reaches_iff`).
-/

namespace Digraph

open Relation

variable {α : Type} {E F : α → α → Prop} {s t a b : α}

/-- No path returns to where it starts. -/
def Acyclic (E : α → α → Prop) : Prop := ∀ a, ¬ TransGen E a a

theorem Acyclic.mono (h : Acyclic F) (hsub : ∀ a b, E a b → F a b) : Acyclic E :=
  fun a ha => h a (TransGen.mono hsub a a ha)

/-- The relation with one more edge. -/
def addEdge (E : α → α → Prop) (s t : α) (a b : α) : Prop := E a b ∨ a = s ∧ b = t

theorem addEdge_of (a b : α) (h : E a b) : addEdge E s t a b := Or.inl h

/-- A path goes along the old edges, or along them to the new edge and on from its end. -/
theorem reflTransGen_addEdge : ReflTransGen (addEdge E s t) a b ↔
    ReflTransGen E a b ∨ ReflTransGen E a s ∧ ReflTransGen E t b := by
  constructor
  · intro h
    induction h with
    | refl => exact Or.inl .refl
    | tail _ hedge ih =>
      rcases hedge with hedge | ⟨rfl, rfl⟩
      · rcases ih with h | ⟨hs, ht⟩
        · exact Or.inl (h.tail hedge)
        · exact Or.inr ⟨hs, ht.tail hedge⟩
      · rcases ih with h | ⟨hs, -⟩
        · exact Or.inr ⟨h, .refl⟩
        · exact Or.inr ⟨hs, .refl⟩
  · have hold : ∀ {a b}, ReflTransGen E a b → ReflTransGen (addEdge E s t) a b :=
      fun h => ReflTransGen.mono addEdge_of _ _ h
    rintro (h | ⟨hs, ht⟩)
    · exact hold h
    · exact ((hold hs).tail (Or.inr ⟨rfl, rfl⟩)).trans (hold ht)

/-- **One more edge**: it closes a cycle exactly where its end reaches its start. -/
theorem acyclic_addEdge : Acyclic (addEdge E s t) ↔ Acyclic E ∧ ¬ ReflTransGen E t s := by
  constructor
  · intro h
    refine ⟨h.mono addEdge_of, fun hback => h s ?_⟩
    exact TransGen.head' (Or.inr ⟨rfl, rfl⟩) (ReflTransGen.mono addEdge_of _ _ hback)
  · rintro ⟨h, hback⟩ a ha
    obtain ⟨b, hab, hba⟩ := TransGen.tail'_iff.mp ha
    rcases hba with hba | ⟨rfl, rfl⟩
    · rcases reflTransGen_addEdge.mp hab with hab | ⟨has, htb⟩
      · exact h a (TransGen.tail' hab hba)
      · exact hback ((htb.tail hba).trans has)
    · rcases reflTransGen_addEdge.mp hab with hab | ⟨-, htb⟩
      · exact hback hab
      · exact hback htb

/-- The edges of a finite graph without a cycle lead down. -/
theorem Acyclic.wellFounded {targets : Finset α} (h : Acyclic E) (htargets : ∀ a b, E a b → b ∈ targets) :
    WellFounded fun b a => E a b := by
  classical
  have hdown : ∀ {b a}, E a b → (targets.filter (TransGen E b)).card < (targets.filter (TransGen E a)).card := by
    intro b a hab
    refine Finset.card_lt_card (Finset.ssubset_iff_of_subset ?_ |>.mpr ⟨b, ?_, ?_⟩)
    · intro x hx
      obtain ⟨hmem, hbx⟩ := Finset.mem_filter.mp hx
      exact Finset.mem_filter.mpr ⟨hmem, .head hab hbx⟩
    · exact Finset.mem_filter.mpr ⟨htargets a b hab, .single hab⟩
    · intro hb
      exact h b (Finset.mem_filter.mp hb).2
  exact Subrelation.wf hdown (measure fun a => (targets.filter (TransGen E a)).card).wf

/-! ## Reachability along a list of edges -/

section Decision

variable [DecidableEq α]

/-- The edges of a list. -/
def edgeIn (l : List (α × α)) (a b : α) : Prop := (a, b) ∈ l

instance (l : List (α × α)) (a b : α) : Decidable (edgeIn l a b) := inferInstanceAs (Decidable ((a, b) ∈ l))

def reaches : List (α × α) → α → α → Bool
  | [], a, b => a == b
  | (s, t) :: l, a, b => reaches l a b || reaches l a s && reaches l t b

omit [DecidableEq α] in
theorem edgeIn_cons (l : List (α × α)) : edgeIn ((s, t) :: l) = addEdge (edgeIn l) s t := by
  funext a b
  refine propext ?_
  unfold edgeIn addEdge
  rw [List.mem_cons, Prod.mk.injEq, or_comm]

theorem reaches_iff : ∀ {l : List (α × α)} {a b : α}, reaches l a b = true ↔ ReflTransGen (edgeIn l) a b
  | [], a, b => by
    unfold reaches
    rw [beq_iff_eq]
    constructor
    · rintro rfl
      exact .refl
    · intro h
      cases h with
      | refl => rfl
      | tail _ hedge => exact absurd hedge List.not_mem_nil
  | (s, t) :: l, a, b => by
    rw [edgeIn_cons, reflTransGen_addEdge, ← reaches_iff, ← reaches_iff, ← reaches_iff]
    rw [reaches, Bool.or_eq_true, Bool.and_eq_true]

instance (l : List (α × α)) (a b : α) : Decidable (ReflTransGen (edgeIn l) a b) :=
  decidable_of_iff (reaches l a b = true) reaches_iff

end Decision

end Digraph
