import Mathlib

/-!
# Lib.Cascades — what is shown because something else is shown

A node is shown always, never, or while one other node is shown and a condition on that one is satisfied.  `Shown` is
the least solution: a node on a cycle is not shown (`Shown.not_cycle`), and where the chains end a node is shown exactly
if every condition on its chain is satisfied (`not_shown_iff`).  What is read only of nodes that are shown can be
forgotten of the others (`shown_congr`).
-/

namespace Cascades

open Relation

variable {κ : Type}

/-- When a node is shown. -/
inductive Condition (κ : Type)
  | always
  | never
  | follows (parent : κ) (satisfied : Bool)

/-- The nodes that are shown. -/
inductive Shown (condition : κ → Condition κ) : κ → Prop
  | always {a : κ} (h : condition a = .always) : Shown condition a
  | follows {a parent : κ} (h : condition a = .follows parent true) (hparent : Shown condition parent) :
      Shown condition a

/-- The second node is the one that the first depends on. -/
def Follows (condition : κ → Condition κ) (a b : κ) : Prop := ∃ satisfied, condition a = .follows b satisfied

variable {condition condition' : κ → Condition κ} {a b parent : κ} {satisfied : Bool}

theorem not_shown_of_never (h : condition a = .never) : ¬ Shown condition a := by
  rintro (h' | ⟨h', -⟩)
  · exact absurd (h.symm.trans h') nofun
  · exact absurd (h.symm.trans h') nofun

theorem shown_iff_of_follows (h : condition a = .follows parent satisfied) :
    Shown condition a ↔ Shown condition parent ∧ satisfied = true := by
  constructor
  · rintro (h' | ⟨h', hparent⟩)
    · exact absurd (h.symm.trans h') nofun
    · obtain ⟨rfl, rfl⟩ := Condition.follows.inj (h.symm.trans h')
      exact ⟨hparent, rfl⟩
  · rintro ⟨hparent, rfl⟩
    exact .follows h hparent

/-- A node depends on one other at most. -/
theorem Follows.unique (h : Follows condition a b) (h' : condition a = .follows parent satisfied) : b = parent := by
  obtain ⟨_, h⟩ := h
  exact (Condition.follows.inj (h.symm.trans h')).1

/-- A node on a cycle is not shown. -/
theorem Shown.not_cycle (h : Shown condition a) : ¬ TransGen (Follows condition) a a := by
  induction h with
  | always h =>
    intro hcycle
    obtain ⟨b, ⟨_, hfirst⟩, -⟩ := TransGen.head'_iff.mp hcycle
    exact absurd (h.symm.trans hfirst) nofun
  | follows h _ ih =>
    intro hcycle
    obtain ⟨b, hfirst, hrest⟩ := TransGen.head'_iff.mp hcycle
    obtain rfl := hfirst.unique h
    exact ih (TransGen.tail' hrest hfirst)

/-- What the chain of a shown node goes through is shown. -/
theorem Shown.of_reflTransGen (h : Shown condition a) (hchain : ReflTransGen (Follows condition) a b) :
    Shown condition b := by
  induction hchain with
  | refl => exact h
  | tail _ hlast ih =>
    obtain ⟨_, hlast⟩ := hlast
    exact ((shown_iff_of_follows hlast).mp ih).1

/-- Where the chain of a node ends, it is not shown exactly if something on the chain fails. -/
theorem not_shown_iff (hacc : Acc (fun a b => Follows condition b a) a) :
    ¬ Shown condition a ↔ ∃ b, ReflTransGen (Follows condition) a b ∧
      (condition b = .never ∨ ∃ parent, condition b = .follows parent false) := by
  constructor
  · intro h
    induction hacc with
    | intro a _ ih =>
      cases hcondition : condition a with
      | always => exact absurd (.always hcondition) h
      | never => exact ⟨a, .refl, Or.inl hcondition⟩
      | follows parent satisfied =>
        cases satisfied with
        | false => exact ⟨a, .refl, Or.inr ⟨parent, hcondition⟩⟩
        | true =>
          have hparent : ¬ Shown condition parent := fun hparent => h (.follows hcondition hparent)
          obtain ⟨b, hchain, hfails⟩ := ih parent ⟨true, hcondition⟩ hparent
          exact ⟨b, .head ⟨true, hcondition⟩ hchain, hfails⟩
  · rintro ⟨b, hchain, hfails⟩ h
    have hb := h.of_reflTransGen hchain
    rcases hfails with hnever | ⟨parent, hfalse⟩
    · exact not_shown_of_never hnever hb
    · exact absurd ((shown_iff_of_follows hfalse).mp hb).2 Bool.false_ne_true

/-- Two ways to read the conditions that agree, but on nodes whose parent is not shown. -/
theorem shown_congr (h : ∀ a, condition' a = condition a ∨ ∃ parent satisfied satisfied',
      condition a = .follows parent satisfied ∧ condition' a = .follows parent satisfied' ∧ ¬ Shown condition parent) :
    Shown condition' a ↔ Shown condition a := by
  constructor
  · intro hshown
    induction hshown with
    | always halways =>
      rcases h _ with heq | ⟨parent, _, _, -, hfollows, -⟩
      · exact .always (heq.symm.trans halways)
      · exact absurd (halways.symm.trans hfollows) nofun
    | follows hfollows _ ih =>
      rcases h _ with heq | ⟨parent, _, _, -, hfollows', hnot⟩
      · exact .follows (heq.symm.trans hfollows) ih
      · obtain ⟨rfl, -⟩ := Condition.follows.inj (hfollows.symm.trans hfollows')
        exact absurd ih hnot
  · intro hshown
    induction hshown with
    | always halways =>
      rcases h _ with heq | ⟨parent, _, _, hfollows, -, -⟩
      · exact .always (heq.trans halways)
      · exact absurd (halways.symm.trans hfollows) nofun
    | follows hfollows hparent ih =>
      rcases h _ with heq | ⟨parent, _, _, hfollows', -, hnot⟩
      · exact .follows (heq.trans hfollows) ih
      · obtain ⟨rfl, -⟩ := Condition.follows.inj (hfollows.symm.trans hfollows')
        exact absurd hparent hnot

end Cascades
