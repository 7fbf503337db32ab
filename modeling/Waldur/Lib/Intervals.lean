import Mathlib

/-!
# Lib.Intervals — intervals of a linear order that do not meet

Two intervals meet where an interval of positive length lies in both; touching ends are allowed.  A list of
intervals is apart where no two of them meet; what is cut out of it stays apart.
-/

namespace Intervals

variable {τ : Type} [LinearOrder τ]

structure Interval (τ : Type) where
  start : τ
  stop : τ
deriving DecidableEq, Repr

/-- It has a positive length. -/
def Proper (i : Interval τ) : Prop := i.start < i.stop

def Meets (i j : Interval τ) : Prop := max i.start j.start < min i.stop j.stop

def Inside (i j : Interval τ) : Prop := j.start ≤ i.start ∧ i.stop ≤ j.stop

def Apart (l : List (Interval τ)) : Prop := l.Pairwise fun i j => ¬ Meets i j

instance (i : Interval τ) : Decidable (Proper i) := inferInstanceAs (Decidable (i.start < i.stop))

instance (i j : Interval τ) : Decidable (Meets i j) := inferInstanceAs (Decidable (_ < _))

instance (i j : Interval τ) : Decidable (Inside i j) := inferInstanceAs (Decidable (_ ∧ _))

instance (l : List (Interval τ)) : Decidable (Apart l) := inferInstanceAs (Decidable (List.Pairwise _ l))

theorem Meets.symm {i j : Interval τ} (h : Meets i j) : Meets j i := by
  unfold Meets at h ⊢
  rwa [max_comm, min_comm]

theorem apart_append {l l' : List (Interval τ)} :
    Apart (l ++ l') ↔ Apart l ∧ Apart l' ∧ ∀ i ∈ l, ∀ j ∈ l', ¬ Meets i j := List.pairwise_append

theorem Apart.sublist {l l' : List (Interval τ)} (h : Apart l) (hsub : l'.Sublist l) : Apart l' :=
  List.Pairwise.sublist hsub h

end Intervals
