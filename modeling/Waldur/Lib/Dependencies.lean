import Mathlib
import Waldur.Lib.Runs

/-!
# Lib.Dependencies — values that are calculated from each other

A node has a name and the names that it reads.  `Sorted names ordered` says that every node of a list stands after the
nodes that it reads, `evaluate` gives the nodes their values in that order, and what it gives is the one solution of the
equations of the nodes (`evaluate_solves`, `Solves.unique`): the order does not matter.  `foldlM_spec` is the
invariant rule of a loop of fallible steps, `foldlM_perm` says when such a loop may take its steps in any order.
-/

namespace Dependencies

open Runs

/-! ## Loops of fallible steps -/

section Loops

variable {σ ω ε : Type} {f : σ → ω → Except ε σ}

/-- What each step keeps of the state, how it relates the states, and what it leaves behind for good. -/
theorem foldlM_spec {Inv : σ → Prop} {R : σ → σ → Prop} {Done : ω → σ → Prop} (hrefl : ∀ s, R s s)
    (htrans : ∀ {s s' s''}, R s s' → R s' s'' → R s s'') (hkeep : ∀ a s s', R s s' → Done a s → Done a s') :
    ∀ {l : List ω} {s s' : σ},
      (∀ a ∈ l, ∀ s s', Inv s → f s a = .ok s' → Inv s' ∧ R s s' ∧ Done a s') → Inv s → l.foldlM f s = .ok s' →
        Inv s' ∧ R s s' ∧ ∀ a ∈ l, Done a s'
  | [], s, s', _, hs, h => by
    obtain rfl := Except.ok.inj h
    exact ⟨hs, hrefl s, fun a ha => absurd ha List.not_mem_nil⟩
  | a :: l, s, s', hstep, hs, h => by
    obtain ⟨s₁, hfirst, hrest⟩ := bind_eq_ok.mp h
    obtain ⟨hinv, hrel, hdone⟩ := hstep a List.mem_cons_self s s₁ hs hfirst
    have ih : Inv s' ∧ R s₁ s' ∧ ∀ b ∈ l, Done b s' :=
      foldlM_spec hrefl htrans hkeep (fun b hb => hstep b (List.mem_cons_of_mem a hb)) hinv hrest
    obtain ⟨hinv', hrel', hdone'⟩ := ih
    refine ⟨hinv', htrans hrel hrel', fun b hb => ?_⟩
    rcases List.mem_cons.mp hb with rfl | hb
    · exact hkeep _ _ _ hrel' hdone
    · exact hdone' b hb

theorem toOption_bind {α β : Type} (x : Except ε α) (g : α → Except ε β) :
    (x >>= g).toOption = x.toOption.bind fun a => (g a).toOption := by
  cases x <;> rfl

theorem toOption_foldlM (l : List ω) (o : Except ε σ) :
    (o >>= fun s => l.foldlM f s).toOption = l.foldl (fun o a => o.bind fun s => (f s a).toOption) o.toOption := by
  induction l generalizing o with
  | nil => cases o <;> rfl
  | cons a l ih =>
    rw [List.foldl_cons, ← toOption_bind, ← ih, bind_assoc]
    rfl

/-- **Steps that commute may be taken in any order**, up to which of the errors it is. -/
theorem foldlM_perm {l l' : List ω} (h : l.Perm l')
    (hcomm : ∀ a ∈ l, ∀ b ∈ l, ∀ s, (f s a >>= fun s => f s b).toOption = (f s b >>= fun s => f s a).toOption) (s : σ) :
    (l.foldlM f s).toOption = (l'.foldlM f s).toOption := by
  have hfold := fun l : List ω => toOption_foldlM (f := f) l (.ok s)
  refine (hfold l).trans (Eq.trans ?_ (hfold l').symm)
  refine h.foldl_eq' (fun a ha b hb o => ?_) _
  cases o with
  | none => rfl
  | some s => exact ((toOption_bind _ _).symm.trans (hcomm a ha b hb s)).trans (toOption_bind _ _)

end Loops

/-! ## Nodes after what they read -/

variable {α β : Type} {names : List α} {l ordered ordered' : List (α × List α)} {node : α × List α} {a : α}

/-- Every node stands after the nodes that it reads; what is no node may be read anywhere. -/
def Sorted (names : List α) (ordered : List (α × List α)) : Prop :=
  ∀ l node r, ordered = l ++ node :: r → ∀ a ∈ node.2, a ∈ names → a ∈ l.map Prod.fst

theorem sorted_nil : Sorted names ([] : List (α × List α)) :=
  fun l _ _ h => absurd h.symm (List.append_ne_nil_of_right_ne_nil l (List.cons_ne_nil _ _))

/-- One more node, that reads only what is there. -/
theorem sorted_concat : Sorted names (l ++ [node]) ↔
    Sorted names l ∧ ∀ a ∈ node.2, a ∈ names → a ∈ l.map Prod.fst := by
  constructor
  · intro h
    refine ⟨fun l₁ node₁ r hl => h l₁ node₁ (r ++ [node]) ?_, h l node [] rfl⟩
    rw [hl, List.append_assoc, List.cons_append]
  · rintro ⟨h, hnode⟩ l₁ node₁ r hl
    rcases List.eq_nil_or_concat r with rfl | ⟨r, last, rfl⟩
    · obtain ⟨rfl, heq⟩ := List.append_inj' hl rfl
      obtain rfl := List.singleton_inj.mp heq
      exact hnode
    · rw [List.concat_eq_append, ← List.cons_append, ← List.append_assoc] at hl
      exact h l₁ node₁ r (List.append_inj' hl rfl).1

section Rank

variable [DecidableEq α]

/-- The place of a node. -/
def rank (ordered : List (α × List α)) (a : α) : ℕ := (ordered.map Prod.fst).idxOf a

/-- A node that is read stands before the node that reads it. -/
theorem Sorted.rank_lt (h : Sorted names ordered) (hnodup : (ordered.map Prod.fst).Nodup) (hnode : node ∈ ordered)
    (ha : a ∈ node.2) (hname : a ∈ names) : rank ordered a < rank ordered node.1 := by
  obtain ⟨l, r, rfl⟩ := List.append_of_mem hnode
  have hbefore : a ∈ l.map Prod.fst := h l node r rfl a ha hname
  unfold rank
  rw [List.map_append, List.map_cons] at hnodup ⊢
  have hnot : node.1 ∉ l.map Prod.fst := fun hmem =>
    List.disjoint_of_nodup_append hnodup hmem List.mem_cons_self
  rw [List.idxOf_append_of_mem hbefore, List.idxOf_append_of_notMem hnot]
  exact (List.idxOf_lt_length_iff.mpr hbefore).trans_le (Nat.le_add_right _ _)

end Rank

/-! ## Values in order -/

section Values

variable [DecidableEq α] {rule : α → β → List β → β} {base e e' : α → β}

/-- Each node in turn gets a value from its old one and from the values of what it reads. -/
def evaluate (rule : α → β → List β → β) (base : α → β) (ordered : List (α × List α)) : α → β :=
  ordered.foldl (fun e node => Function.update e node.1 (rule node.1 (e node.1) (node.2.map e))) base

/-- What is no node keeps its value; the value of a node comes from the final values of what it reads. -/
def Solves (rule : α → β → List β → β) (base : α → β) (nodes : List (α × List α)) (e : α → β) : Prop :=
  (∀ a ∉ nodes.map Prod.fst, e a = base a) ∧ ∀ node ∈ nodes, e node.1 = rule node.1 (base node.1) (node.2.map e)

/-- **A value is calculated from final values**: no later node changes what an earlier one has read. -/
theorem evaluate_solves (h : Sorted names ordered) (hnames : ∀ node ∈ ordered, node.1 ∈ names)
    (hnodup : (ordered.map Prod.fst).Nodup) : Solves rule base ordered (evaluate rule base ordered) := by
  induction ordered using List.reverseRecOn with
  | nil => exact ⟨fun _ _ => rfl, fun node hnode => absurd hnode List.not_mem_nil⟩
  | append_singleton l last ih =>
    obtain ⟨hl, hlast⟩ := sorted_concat.mp h
    rw [List.map_append, List.map_singleton] at hnodup
    have hnew : last.1 ∉ l.map Prod.fst := fun hmem =>
      List.disjoint_of_nodup_append hnodup hmem (List.mem_singleton_self _)
    obtain ⟨hbase, hnodes⟩ := ih hl (fun node hnode => hnames node (List.mem_append_left _ hnode)) hnodup.of_append_left
    have hstep : evaluate rule base (l ++ [last]) = Function.update (evaluate rule base l) last.1
        (rule last.1 (evaluate rule base l last.1) (last.2.map (evaluate rule base l))) := by
      rw [evaluate, List.foldl_append]
      rfl
    -- Nothing that has been read is the last node.
    have hread : ∀ l' : List α, (∀ a ∈ l', a ∈ names → a ∈ l.map Prod.fst) →
        l'.map (evaluate rule base (l ++ [last])) = l'.map (evaluate rule base l) := by
      intro l' hl'
      refine List.map_congr_left fun a ha => ?_
      rw [hstep, Function.update_of_ne]
      rintro rfl
      exact hnew (hl' _ ha (hnames last (List.mem_append_right _ (List.mem_singleton_self _))))
    refine ⟨fun a ha => ?_, fun node hnode => ?_⟩
    · rw [List.map_append, List.mem_append, not_or, List.map_singleton, List.mem_singleton] at ha
      rw [hstep, Function.update_of_ne ha.2]
      exact hbase a ha.1
    · rcases List.mem_append.mp hnode with hnode | hnode
      · have hne : node.1 ≠ last.1 := fun heq => hnew (heq ▸ List.mem_map_of_mem hnode)
        obtain ⟨l₁, r, hsplit⟩ := List.append_of_mem hnode
        rw [hread node.2 fun a ha hname => ?_]
        · rw [hstep, Function.update_of_ne hne]
          exact hnodes node hnode
        · rw [hsplit, List.map_append]
          exact List.mem_append_left _ (hl l₁ node r hsplit a ha hname)
      · obtain rfl := List.mem_singleton.mp hnode
        rw [hread node.2 hlast, hstep, Function.update_self, hbase node.1 hnew]

omit [DecidableEq α] in
/-- The nodes as a set decide what solves them. -/
theorem Solves.of_perm (h : Solves rule base ordered e) (hperm : ordered.Perm ordered') : Solves rule base ordered' e :=
  ⟨fun a ha => h.1 a fun hmem => ha ((hperm.map Prod.fst).mem_iff.mp hmem),
    fun node hnode => h.2 node (hperm.mem_iff.mpr hnode)⟩

/-- **There is one solution**: along the order, each value is that of the earlier ones. -/
theorem Solves.unique (h : Solves rule base ordered e) (h' : Solves rule base ordered e')
    (hsorted : Sorted (ordered.map Prod.fst) ordered) : e = e' := by
  have hprefix : ∀ n, ∀ node ∈ ordered.take n, e node.1 = e' node.1 := by
    intro n
    induction n with
    | zero => exact fun node hnode => absurd hnode List.not_mem_nil
    | succ n ih =>
      intro node hnode
      rw [List.take_add_one] at hnode
      rcases List.mem_append.mp hnode with hnode | hnode
      · exact ih node hnode
      · obtain ⟨hn, heq⟩ := List.getElem?_eq_some_iff.mp (Option.mem_toList.mp hnode)
        have hsplit : ordered = ordered.take n ++ node :: ordered.drop (n + 1) := by
          rw [← heq, List.cons_getElem_drop_succ, List.take_append_drop]
        have hmem : node ∈ ordered := heq ▸ List.getElem_mem hn
        rw [h.2 node hmem, h'.2 node hmem]
        refine congrArg _ (List.map_congr_left fun a ha => ?_)
        by_cases hname : a ∈ ordered.map Prod.fst
        · obtain ⟨node', hnode', rfl⟩ := List.mem_map.mp (hsorted _ _ _ hsplit a ha hname)
          exact ih node' hnode'
        · rw [h.1 a hname, h'.1 a hname]
  funext a
  by_cases ha : a ∈ ordered.map Prod.fst
  · obtain ⟨node, hnode, rfl⟩ := List.mem_map.mp ha
    exact hprefix ordered.length node (by rwa [List.take_length])
  · rw [h.1 a ha, h'.1 a ha]

/-- **The order does not matter**: two orders of the same nodes give the same values. -/
theorem evaluate_perm (hperm : ordered.Perm ordered') (hnodup : (ordered.map Prod.fst).Nodup)
    (h : Sorted (ordered.map Prod.fst) ordered) (h' : Sorted (ordered'.map Prod.fst) ordered') :
    evaluate rule base ordered = evaluate rule base ordered' := by
  have hsolves : Solves rule base ordered (evaluate rule base ordered) :=
    evaluate_solves h (fun _ hnode => List.mem_map_of_mem hnode) hnodup
  have hsolves' : Solves rule base ordered' (evaluate rule base ordered') :=
    evaluate_solves h' (fun _ hnode => List.mem_map_of_mem hnode) ((hperm.map Prod.fst).nodup_iff.mp hnodup)
  exact hsolves.unique (hsolves'.of_perm hperm.symm) h

end Values

end Dependencies
