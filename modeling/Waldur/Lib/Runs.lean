import Mathlib

/-!
# Runs — a deterministic machine driven by a list of operations

`run step s ops` is the state after the operations, `Along step P s ops` says that `P` holds of every
operation at the state it is applied to.  Two rules: an invariant that every step keeps holds at the
end (`run_invariant`), and a property that every step has under the invariant and a condition on the
step holds along every run that meets the condition (`along_of_invariant`).  `bind_eq_ok` takes
a sequence of fallible steps apart, `forall_split_cons` a condition on the positions of a list.  `foldUntil`
is a loop that stops at the first error and leaves what it has done so far.
-/

namespace Runs

variable {σ ω : Type}

/-- The state after a list of operations. -/
def run (step : σ → ω → σ) : σ → List ω → σ
  | s, [] => s
  | s, op :: ops => run step (step s op) ops

/-- `P` holds of every operation of the run, at the state before it. -/
def Along (step : σ → ω → σ) (P : σ → ω → Prop) : σ → List ω → Prop
  | _, [] => True
  | s, op :: ops => P s op ∧ Along step P (step s op) ops

instance decidableAlong (step : σ → ω → σ) (P : σ → ω → Prop) [∀ s op, Decidable (P s op)] :
    ∀ (s : σ) (ops : List ω), Decidable (Along step P s ops)
  | _, [] => isTrue trivial
  | s, op :: ops =>
    have := decidableAlong step P (step s op) ops
    inferInstanceAs (Decidable (P s op ∧ Along step P (step s op) ops))

variable {step : σ → ω → σ}

@[simp] theorem run_nil (s : σ) : run step s [] = s := rfl

@[simp] theorem run_cons (s : σ) (op : ω) (ops : List ω) :
    run step s (op :: ops) = run step (step s op) ops := rfl

theorem run_append (ops ops' : List ω) (s : σ) : run step s (ops ++ ops') = run step (run step s ops) ops' := by
  induction ops generalizing s with
  | nil => rfl
  | cons op ops ih => exact ih (step s op)

@[simp] theorem along_nil {P : σ → ω → Prop} (s : σ) : Along step P s [] := trivial

theorem along_cons {P : σ → ω → Prop} {s : σ} {op : ω} {ops : List ω} :
    Along step P s (op :: ops) ↔ P s op ∧ Along step P (step s op) ops := Iff.rfl

/-- What every step keeps, the run keeps. -/
theorem run_invariant {Inv : σ → Prop} (hstep : ∀ s op, Inv s → Inv (step s op)) :
    ∀ (ops : List ω) (s : σ), Inv s → Inv (run step s ops)
  | [], _, h => h
  | op :: ops, s, h => run_invariant hstep ops (step s op) (hstep s op h)

/-- What every step keeps under a condition, a run that meets the condition keeps. -/
theorem run_invariant_along {Inv : σ → Prop} {P : σ → ω → Prop}
    (hstep : ∀ s op, Inv s → P s op → Inv (step s op)) :
    ∀ (ops : List ω) (s : σ), Inv s → Along step P s ops → Inv (run step s ops)
  | [], _, h, _ => h
  | op :: ops, s, h, hP => run_invariant_along hstep ops (step s op) (hstep s op h hP.1) hP.2

/-- A property that the invariant and the condition give at each step holds along the run. -/
theorem along_of_invariant {Inv : σ → Prop} {P Q : σ → ω → Prop}
    (hstep : ∀ s op, Inv s → P s op → Inv (step s op) ∧ Q s op) :
    ∀ (ops : List ω) (s : σ), Inv s → Along step P s ops → Along step Q s ops
  | [], _, _, _ => trivial
  | op :: ops, s, h, hP =>
    ⟨(hstep s op h hP.1).2, along_of_invariant hstep ops (step s op) (hstep s op h hP.1).1 hP.2⟩

/-- Two properties that agree under an invariant and a condition on the step agree along every run that
meets the condition. -/
theorem along_congr_under {Inv : σ → Prop} {V P Q : σ → ω → Prop}
    (hPQ : ∀ s op, Inv s → V s op → (P s op ↔ Q s op))
    (hstep : ∀ s op, Inv s → V s op → P s op → Inv (step s op)) :
    ∀ (ops : List ω) (s : σ), Inv s → Along step V s ops → (Along step P s ops ↔ Along step Q s ops)
  | [], _, _, _ => Iff.rfl
  | op :: ops, s, h, hV => by
    rw [along_cons, along_cons, hPQ s op h hV.1]
    refine and_congr_right fun hQ => ?_
    exact along_congr_under hPQ hstep ops _ (hstep s op h hV.1 ((hPQ s op h hV.1).mpr hQ)) hV.2

theorem along_true : ∀ (ops : List ω) (s : σ), Along step (fun _ _ => True) s ops
  | [], _ => trivial
  | _ :: ops, _ => ⟨trivial, along_true ops _⟩

/-- Two properties that agree at each step under an invariant agree along every run. -/
theorem along_congr {Inv : σ → Prop} {P Q : σ → ω → Prop} (hPQ : ∀ s op, Inv s → (P s op ↔ Q s op))
    (hstep : ∀ s op, Inv s → P s op → Inv (step s op)) (ops : List ω) (s : σ) (h : Inv s) :
    Along step P s ops ↔ Along step Q s ops :=
  along_congr_under (fun s op hs _ => hPQ s op hs) (fun s op hs _ => hstep s op hs) ops s h (along_true ops s)

/-- A sequence of two fallible steps succeeds where both do. -/
theorem bind_eq_ok {ε α β : Type} {x : Except ε α} {f : α → Except ε β} {b : β} :
    (x >>= f) = .ok b ↔ ∃ a, x = .ok a ∧ f a = .ok b := by
  cases x with
  | error e => exact ⟨nofun, fun ⟨_, h, _⟩ => nomatch h⟩
  | ok a => exact ⟨fun h => ⟨a, rfl, h⟩, fun ⟨_, h, h'⟩ => by cases h; exact h'⟩

theorem map_eq_ok {ε α β : Type} {x : Except ε α} {f : α → β} {b : β} :
    x.map f = .ok b ↔ ∃ a, x = .ok a ∧ f a = b := by
  cases x with
  | error e => exact ⟨nofun, fun ⟨_, h, _⟩ => nomatch h⟩
  | ok a => exact ⟨fun h => ⟨a, rfl, Except.ok.inj h⟩, fun ⟨_, h, h'⟩ => by cases h; cases h'; rfl⟩

theorem mem_filterAuxM {ε : Type} {f : ω → Except ε Bool} {a : ω} : ∀ {l acc kept : List ω},
    l.filterAuxM f acc = .ok kept → (a ∈ kept ↔ a ∈ acc ∨ a ∈ l ∧ f a = .ok true)
  | [], acc, kept, h => by
    obtain rfl := Except.ok.inj h
    exact ⟨Or.inl, fun ha => ha.resolve_right fun hnil => absurd hnil.1 List.not_mem_nil⟩
  | b :: l, acc, kept, h => by
    obtain ⟨keep, hb, hrest⟩ := bind_eq_ok.mp h
    rw [mem_filterAuxM hrest, List.mem_cons, or_and_right, ← or_assoc]
    refine or_congr_left ?_
    cases keep with
    | true =>
      rw [cond_true, List.mem_cons, or_comm]
      exact or_congr_right ⟨fun ha => ⟨ha, ha ▸ hb⟩, And.left⟩
    | false =>
      refine (or_iff_left fun ha => ?_).symm
      rw [ha.1, hb] at ha
      exact nomatch ha.2

/-- What a fallible filter keeps. -/
theorem mem_filterM {ε : Type} {f : ω → Except ε Bool} {a : ω} {l kept : List ω} (h : l.filterM f = .ok kept) :
    a ∈ kept ↔ a ∈ l ∧ f a = .ok true := by
  obtain ⟨reversed, haux, hkept⟩ := bind_eq_ok.mp h
  obtain rfl := Except.ok.inj hkept
  rw [List.mem_reverse, mem_filterAuxM haux]
  exact or_iff_right List.not_mem_nil

/-- A loop of checks passes where each of them does. -/
theorem forM_eq_ok {ε : Type} {f : ω → Except ε Unit} : ∀ {l : List ω}, l.forM f = .ok () ↔ ∀ a ∈ l, f a = .ok ()
  | [] => ⟨fun _ _ h => absurd h List.not_mem_nil, fun _ => rfl⟩
  | a :: l => by
    have hcons : (a :: l).forM f = (f a >>= fun _ => l.forM f) := rfl
    rw [hcons, bind_eq_ok, List.forall_mem_cons, forM_eq_ok (l := l)]
    exact ⟨fun ⟨_, h⟩ => h, fun h => ⟨(), h⟩⟩

/-- A loop of fallible steps succeeds where each step does, if that does not depend on the state. -/
theorem foldlM_isOk {ε : Type} {f : σ → ω → Except ε σ} {P : ω → Prop} : ∀ {l : List ω} {s : σ},
    (∀ a ∈ l, ∀ s, (∃ s', f s a = .ok s') ↔ P a) → ((∃ s', l.foldlM f s = .ok s') ↔ ∀ a ∈ l, P a)
  | [], s, _ => ⟨fun _ _ h => absurd h List.not_mem_nil, fun _ => ⟨s, rfl⟩⟩
  | a :: l, s, h => by
    have ih : ∀ s, (∃ s', l.foldlM f s = .ok s') ↔ ∀ b ∈ l, P b := fun s =>
      foldlM_isOk (fun b hb => h b (List.mem_cons_of_mem a hb))
    rw [List.foldlM_cons, List.forall_mem_cons, ← h a List.mem_cons_self s]
    constructor
    · rintro ⟨s', hok⟩
      obtain ⟨s₁, hok₁, hok₂⟩ := bind_eq_ok.mp hok
      exact ⟨⟨s₁, hok₁⟩, (ih s₁).mp ⟨s', hok₂⟩⟩
    · rintro ⟨⟨s₁, hok₁⟩, hrest⟩
      obtain ⟨s', hok₂⟩ := (ih s₁).mpr hrest
      exact ⟨s', bind_eq_ok.mpr ⟨s₁, hok₁, hok₂⟩⟩

/-- The state that a step leaves and its error, if it stores nothing when it fails. -/
def leave {ε : Type} (s : σ) : Except ε σ → σ × Option ε
  | .ok s' => (s', none)
  | .error e => (s, some e)

/-- A loop that stops at the first error. -/
def foldUntil {ε : Type} (f : σ → ω → σ × Option ε) : σ → List ω → σ × Option ε
  | s, [] => (s, none)
  | s, a :: l =>
    match f s a with
    | (s', none) => foldUntil f s' l
    | (s', some e) => (s', some e)

/-- `P` holds of every element that such a loop reaches, at the state before it. -/
def AlongUntil {ε : Type} (f : σ → ω → σ × Option ε) (P : σ → ω → Prop) : σ → List ω → Prop
  | _, [] => True
  | s, a :: l => P s a ∧ ((f s a).2 = none → AlongUntil f P (f s a).1 l)

/-- What relates the states before and after each step relates those before and after the loop. -/
theorem foldUntil_rel {ε : Type} {f : σ → ω → σ × Option ε} {P : σ → ω → Prop} {R : σ → σ → Prop}
    (hrefl : ∀ s, R s s) (htrans : ∀ {s s' s''}, R s s' → R s' s'' → R s s'')
    (hstep : ∀ s a, P s a → R s (f s a).1) : ∀ {l : List ω} {s : σ}, AlongUntil f P s l → R s (foldUntil f s l).1
  | [], s, _ => hrefl s
  | a :: l, s, h => by
    have hfirst := hstep s a h.1
    have hrest := h.2
    unfold foldUntil
    split
    · next s' heq =>
      rw [heq] at hfirst hrest
      exact htrans hfirst (foldUntil_rel hrefl htrans hstep (hrest rfl))
    · next s' e heq =>
      rw [heq] at hfirst
      exact hfirst

/-- What every step keeps, and gives the condition, holds the condition along the loop. -/
theorem alongUntil_of_invariant {ε : Type} {f : σ → ω → σ × Option ε} {P : σ → ω → Prop} {Inv : σ → Prop} :
    ∀ {l : List ω} {s : σ}, (∀ s, ∀ a ∈ l, Inv s → P s a ∧ Inv (f s a).1) → Inv s → AlongUntil f P s l
  | [], _, _, _ => trivial
  | a :: _, s, hstep, h =>
    ⟨(hstep s a List.mem_cons_self h).1, fun _ =>
      alongUntil_of_invariant (fun s b hb => hstep s b (List.mem_cons_of_mem a hb)) (hstep s a List.mem_cons_self h).2⟩

/-- A loop without an error is the one that returns nothing when it fails. -/
theorem foldUntil_of_foldlM {ε : Type} {f : σ → ω → σ × Option ε} {g : σ → ω → Except ε σ}
    (h : ∀ s a s', g s a = .ok s' → f s a = (s', none)) : ∀ {l : List ω} {s s' : σ},
    l.foldlM g s = .ok s' → foldUntil f s l = (s', none)
  | [], s, s', hok => by
    obtain rfl := Except.ok.inj hok
    rfl
  | a :: l, s, s', hok => by
    rw [List.foldlM_cons] at hok
    obtain ⟨s₁, hok₁, hok₂⟩ := bind_eq_ok.mp hok
    unfold foldUntil
    rw [h s a s₁ hok₁]
    exact foldUntil_of_foldlM h hok₂

/-- A condition on every position of a list, each with what comes before it: the head and the rest. -/
theorem forall_split_cons {a : ω} {l : List ω} {P : List ω → ω → Prop} :
    (∀ l₁ x l₂, a :: l = l₁ ++ x :: l₂ → P l₁ x) ↔ P [] a ∧ ∀ l₁ x l₂, l = l₁ ++ x :: l₂ → P (a :: l₁) x := by
  constructor
  · intro h
    exact ⟨h [] a l rfl, fun l₁ x l₂ hl => h (a :: l₁) x l₂ (by rw [hl]; rfl)⟩
  · rintro ⟨h₀, h⟩ l₁ x l₂ hl
    cases l₁ with
    | nil =>
      obtain ⟨rfl, -⟩ := List.cons_eq_cons.mp hl
      exact h₀
    | cons b l₁ =>
      obtain ⟨rfl, hl'⟩ := List.cons_eq_cons.mp hl
      exact h l₁ x l₂ hl'

/-- The same for the elements that a partial map keeps. -/
theorem forall_split_filterMap {β : Type} {f : ω → Option β} : ∀ {l : List ω} {P : List β → β → Prop},
    (∀ l₁ x l₂, l.filterMap f = l₁ ++ x :: l₂ → P l₁ x) ↔
      ∀ l₁ a l₂, l = l₁ ++ a :: l₂ → ∀ x, f a = some x → P (l₁.filterMap f) x
  | [], P => by simp
  | a :: l, P => by
    rw [forall_split_cons (P := fun l₁ a => ∀ x, f a = some x → P (l₁.filterMap f) x)]
    cases h : f a with
    | none =>
      rw [List.filterMap_cons_none h, forall_split_filterMap]
      simp only [List.filterMap_cons_none h]
      exact ⟨fun h' => ⟨nofun, h'⟩, fun h' => h'.2⟩
    | some b =>
      rw [List.filterMap_cons_some h, forall_split_cons, forall_split_filterMap (P := fun l₁ x => P (b :: l₁) x)]
      simp only [List.filterMap_cons_some h]
      refine and_congr_left fun _ => ⟨fun h' x hx => ?_, fun h' => h' b rfl⟩
      obtain rfl := Option.some.inj hx
      exact h'

end Runs
