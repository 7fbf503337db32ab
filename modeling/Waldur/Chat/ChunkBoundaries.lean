import Mathlib
import Waldur.Chat.Cuts

/-!
# Chat.ChunkBoundaries — where the chunks of a stream end

Wherever a text is split into chunks, the parser reads it as it is cut as a whole, except that backticks right after a
closing fence are text at the end of a chunk, and backticks at the end of the stream are text.  So a text is read the same
in all chunkings exactly if no closing fence is followed at once by a fence that opens a block, and the text does not end
in an empty block (`chunkIndependent_iff`).
-/

namespace Waldur.Chat

open Fences

/-- The fence before the parts opens a block: its tag line ends, or another fence follows. -/
def Opens : List Text → Prop
  | [] => False
  | [s] => '\n' ∈ s
  | _ :: _ :: _ => True

instance : (parts : List Text) → Decidable (Opens parts)
  | [] => inferInstanceAs (Decidable False)
  | [_] => inferInstanceAs (Decidable (_ ∈ _))
  | _ :: _ :: _ => inferInstanceAs (Decidable True)

/-- **No fence at a seam**: no block is opened at once after another one is closed, and the last block is not an empty one
with at most a backtick after it. -/
structure Steady (text : Text) : Prop where
  no_reopening : ∀ L R, segments backtick text = L ++ [] :: R → L ≠ [] → L.length % 2 = 0 → ¬ Opens R
  no_empty_end : ∀ L s, segments backtick text = L ++ [[], s] → L.length % 2 = 1 → s ≠ [] ∧ s ≠ [backtick]

/-- The components do not depend on how the text is split. -/
def ChunkIndependent (text : Text) : Prop := ∀ chunks chunks' : List Text, chunks.flatten = text → chunks'.flatten = text →
  merged (components chunks) = merged (components chunks')

/-! ## Texts that open no block any more -/

section Quiet

variable {k : Cuts} {x y z text held : Text}

/-- The components that the parts of a state and the backticks it holds come to. -/
def Cuts.rendered (k : Cuts) : List UIContent := render k.closed (k.last ++ k.held)

theorem step_parts (k : Cuts) (chunk : Text) : ∃ text held, k.step chunk = k.extend text held ∧
    k.held ++ chunk = text ++ held ∧ (held = [] ∨ held = [backtick] ∨ held = [backtick, backtick]) ∧
    (Settled backtick text ∨ (fenceDelimiter <:+ text ∧ held = [])) := by
  obtain ⟨happend, hheld, htext⟩ := holdBack_spec (k.held ++ chunk)
  exact ⟨_, _, rfl, happend.symm, hheld, htext⟩

/-- A fence without a tag line and without another fence stays text. -/
theorem quiet_awaiting (chunks : List Text) (hodd : k.closed.length % 2 = 1)
    (hline : '\n' ∉ k.last ++ (k.held ++ chunks.flatten)) (hno : NoFence backtick (k.last ++ (k.held ++ chunks.flatten))) :
    (chunks.foldl Cuts.step k).rendered =
      addText (reach k.closed).out (fenceDelimiter ++ (k.last ++ (k.held ++ chunks.flatten))) := by
  induction chunks generalizing k with
  | nil =>
    rw [List.flatten_nil, List.append_nil] at hline ⊢
    show render k.closed (k.last ++ k.held) = _
    unfold render
    rw [if_neg (by omega), if_neg hline]
  | cons chunk chunks ih =>
    obtain ⟨text, held, hstep, happend, -, -⟩ := step_parts k chunk
    have hwhole : k.last ++ (k.held ++ (chunk :: chunks).flatten) = k.last ++ text ++ (held ++ chunks.flatten) := by
      rw [List.flatten_cons, ← List.append_assoc k.held, happend]
      simp
    have hawaits : k.AwaitsTag := ⟨hodd, fun hmem => hline (List.mem_append_left _ hmem)⟩
    rw [hwhole] at hline hno ⊢
    have hnext : k.step chunk = ⟨k.closed, k.last ++ text, held⟩ := by
      rw [hstep, extend_of_awaits hawaits, cut_of_noFence (noFence_append_left hno), List.append_nil]
    show (chunks.foldl Cuts.step (k.step chunk)).rendered = _
    rw [hnext]
    exact ih hodd hline hno

theorem addText_reach_even (heven : k.closed.length % 2 = 0) (s : Text) :
    (reach (k.closed ++ [k.last ++ s])).out = addText (reach (k.closed ++ [k.last])).out s := by
  have hblock := (block_reach_concat k.closed k.last).mpr heven
  rw [reach_prolong (by omega)]
  generalize reach (k.closed ++ [k.last]) = r at hblock ⊢
  obtain ⟨out, block⟩ := r
  have hnone : block = none := hblock
  rw [hnone]
  rfl

/-- Outside of blocks, text with at most one fence and no line end stays text. -/
theorem quiet_text (chunks : List Text) (heven : k.closed.length % 2 = 0) (hline : '\n' ∉ k.held ++ chunks.flatten)
    (hone : (cut backtick (k.held ++ chunks.flatten)).1.length ≤ 1) :
    (chunks.foldl Cuts.step k).rendered = addText (reach (k.closed ++ [k.last])).out (k.held ++ chunks.flatten) := by
  induction chunks generalizing k with
  | nil =>
    rw [List.flatten_nil, List.append_nil]
    show render k.closed (k.last ++ k.held) = _
    unfold render
    rw [if_pos heven, addText_reach_even heven]
  | cons chunk chunks ih =>
    obtain ⟨text, held, hstep, happend, -, htext⟩ := step_parts k chunk
    have hwhole : k.held ++ (chunk :: chunks).flatten = text ++ (held ++ chunks.flatten) := by
      rw [List.flatten_cons, ← List.append_assoc, happend, List.append_assoc]
    have hawaits : ¬ k.AwaitsTag := fun h => by
      have := h.1
      omega
    rw [hwhole] at hline hone ⊢
    rw [cut_append] at hone
    have hjoin := cut_join (m := backtick) text
    rw [extend_of_not_awaits hawaits] at hstep
    show (chunks.foldl Cuts.step (k.step chunk)).rendered = _
    rw [hstep]
    obtain ⟨L, s, hcut⟩ : ∃ L s, cut backtick text = (L, s) := ⟨_, _, rfl⟩
    rw [hcut] at hone hjoin ⊢
    match L with
    | [] =>
      have hs : s = text := hjoin
      subst hs
      have hsettled : Settled backtick s := by
        rcases htext with htext | ⟨⟨w, rfl⟩, -⟩
        · exact htext
        · exact absurd (congrArg Prod.fst hcut) (cut_append_fence (m := backtick) w).1
      have hno : NoFence backtick s := congrArg Prod.fst hcut
      have hrest : (cut backtick (held ++ chunks.flatten)).1.length ≤ 1 := by
        have happly : ([] ++ (cut backtick (s ++ (held ++ chunks.flatten))).1).length ≤ 1 := hone
        rwa [List.nil_append, cut_settled hno hsettled, length_joinHead] at happly
      have hih := ih (k := ⟨k.closed ++ [], k.last ++ s, held⟩) (by rwa [List.append_nil])
        (fun hmem => hline (List.mem_append_right _ hmem)) hrest
      refine hih.trans ?_
      show addText (reach (k.closed ++ [] ++ [k.last ++ s])).out _ = _
      rw [List.append_nil, addText_reach_even heven, addText_addText]
    | [first] =>
      have hlength : ([first] ++ (cut backtick (s ++ (held ++ chunks.flatten))).1).length ≤ 1 := hone
      have hno : NoFence backtick (s ++ (held ++ chunks.flatten)) := by
        rw [List.length_append, List.length_singleton] at hlength
        exact List.eq_nil_of_length_eq_zero (by omega)
      have htextEq : first ++ (fenceDelimiter ++ s) = text := by
        rw [← hjoin]
        simp [fenceDelimiter]
      have hodd : (k.closed ++ [k.last ++ first]).length % 2 = 1 := by
        rw [List.length_append, List.length_singleton]
        omega
      have hquiet := quiet_awaiting (k := ⟨k.closed ++ [k.last ++ first], s, held⟩) chunks hodd
        (fun hmem => hline (by
          rw [← htextEq]
          have hmem' : '\n' ∈ s ++ (held ++ chunks.flatten) := hmem
          simp only [List.mem_append] at hmem' ⊢
          tauto)) hno
      refine hquiet.trans ?_
      rw [addText_reach_even heven, addText_addText, ← htextEq]
      simp
    | _ :: _ :: _ =>
      have hlength : (_ :: _ :: _ ++ _ : List Text).length ≤ 1 := hone
      simp at hlength

end Quiet

/-! ## Texts without a fence at a seam -/

section Steady

variable {k : Cuts} {text y : Text}

/-- Read on from a state, the text `y` gives the parts of the whole. -/
def OnTrack (text : Text) (k : Cuts) (y : Text) : Prop :=
  cut backtick text = (k.closed ++ (cut backtick (k.last ++ y)).1, (cut backtick (k.last ++ y)).2)

/-- Backticks after a closing fence, with more of them to come. -/
def AtSeam (k : Cuts) (y : Text) : Prop :=
  k.closed.length % 2 = 0 ∧ (k.last = [backtick] ∨ k.last = [backtick, backtick]) ∧ fenceDelimiter <+: k.last ++ y

instance (k : Cuts) (y : Text) : Decidable (AtSeam k y) := inferInstanceAs (Decidable (_ ∧ _ ∧ _))

theorem closed_ne_nil (h : k.Tidy) (hlast : k.last = [backtick] ∨ k.last = [backtick, backtick]) : k.closed ≠ [] := by
  rcases h.last with hsettled | ⟨hne, -⟩
  · rcases hlast with heq | heq <;> rw [heq] at hsettled <;> exact absurd hsettled (by decide)
  · exact hne

theorem newline_ne_backtick : ¬ '\n' = backtick := by decide

/-- At a seam of a steady text the rest of it is text. -/
theorem rendered_at_seam (hsteady : Steady text) (htidy : k.Tidy) (chunks : List Text)
    (htrack : OnTrack text k (k.held ++ chunks.flatten)) (hseam : AtSeam k (k.held ++ chunks.flatten)) :
    (chunks.foldl Cuts.step k).rendered = render (cut backtick text).1 (cut backtick text).2 := by
  obtain ⟨heven, hlast, ⟨w, hw⟩⟩ := hseam
  have hne := closed_ne_nil htidy hlast
  have hfence : cut backtick (k.last ++ (k.held ++ chunks.flatten)) = ([] :: (cut backtick w).1, (cut backtick w).2) := by
    rw [← hw]
    exact cut_fence w
  have hparts : segments backtick text = k.closed ++ [] :: segments backtick w := by
    unfold segments
    rw [htrack, hfence]
    simp
  have hnot := hsteady.no_reopening _ _ hparts hne heven
  have hno : NoFence backtick w := by
    by_contra hsome
    obtain ⟨s, ss, hss⟩ := List.exists_cons_of_ne_nil hsome
    refine hnot ?_
    unfold segments
    rw [hss]
    cases ss <;> exact trivial
  have hwhole := cut_of_noFence hno
  have hline : '\n' ∉ w := fun hmem => hnot (by
    unfold segments
    rw [hwhole]
    exact hmem)
  have hrest : '\n' ∉ k.held ++ chunks.flatten ∧ (cut backtick (k.held ++ chunks.flatten)).1.length ≤ 1 := by
    rcases hlast with heq | heq
    · rw [heq] at hw
      have hy : backtick :: backtick :: w = k.held ++ chunks.flatten := (List.cons.inj hw).2
      rw [← hy]
      exact ⟨by simpa [newline_ne_backtick] using hline, length_cut_two_marks hno⟩
    · rw [heq] at hw
      have hy : backtick :: w = k.held ++ chunks.flatten := (List.cons.inj (List.cons.inj hw).2).2
      rw [← hy]
      exact ⟨by simpa [newline_ne_backtick] using hline, length_cut_mark hno⟩
  have hodd : ¬ (k.closed ++ [[]]).length % 2 = 0 := by
    rw [List.length_append, List.length_singleton]
    omega
  rw [quiet_text chunks heven hrest.1 hrest.2, htrack, hfence, hwhole]
  unfold render
  rw [if_neg hodd, if_neg hline]
  have hempty := addText_reach_even (k := ⟨k.closed, [], []⟩) heven k.last
  rw [List.nil_append] at hempty
  refine (congrArg (addText · _) hempty).trans ?_
  rw [addText_addText, ← hw]

/-- Away from a seam a step cuts the text as the whole is cut. -/
theorem extend_off_seam (htidy : k.Tidy) (hno : NoFence backtick k.last) {text held : Text}
    (hseam : ¬ AtSeam k text) : k.extend text held =
      ⟨k.closed ++ (cut backtick (k.last ++ text)).1, (cut backtick (k.last ++ text)).2, held⟩ := by
  by_cases hawaits : k.AwaitsTag
  · exact extend_of_awaits hawaits text held
  have hcut : cut backtick (k.last ++ text) = joinHead k.last (cut backtick text) := by
    rcases htidy.last with hsettled | ⟨-, hlast⟩
    · exact cut_settled hno hsettled text
    have heven : k.closed.length % 2 = 0 := by
      have hline : '\n' ∉ k.last := by
        rcases hlast with heq | heq <;> rw [heq] <;> decide
      by_contra hodd
      exact hawaits ⟨by omega, hline⟩
    have hnot : ¬ fenceDelimiter <+: k.last ++ text := fun hfence => hseam ⟨heven, hlast, hfence⟩
    refine cut_prolonged hno fun y hy hne hfence => hnot ?_
    rcases hlast with heq | heq <;> rw [heq] at hy ⊢
    · rcases List.suffix_cons_iff.mp hy with rfl | hnil
      · exact hfence
      · exact absurd (List.suffix_nil.mp hnil) hne
    · rcases List.suffix_cons_iff.mp hy with rfl | hy
      · exact hfence
      rcases List.suffix_cons_iff.mp hy with rfl | hnil
      · obtain ⟨w, hw⟩ := hfence
        have htext : backtick :: backtick :: w = text := (List.cons.inj hw).2
        rw [← htext]
        exact ⟨backtick :: w, rfl⟩
      · exact absurd (List.suffix_nil.mp hnil) hne
  rw [extend_of_not_awaits hawaits, hcut]

/-- At the end of a steady text the backticks that are held back make no fence. -/
theorem noFence_at_end (hsteady : Steady text) (htidy : k.Tidy) (hno : NoFence backtick k.last) (htrack : OnTrack text k k.held)
    (hseam : ¬ AtSeam k k.held) : NoFence backtick (k.last ++ k.held) := by
  have hheld : NoFence backtick k.held := by
    rcases htidy.held with heq | heq | heq <;> rw [heq] <;> rfl
  rcases htidy.last with hsettled | ⟨-, hlast⟩
  · unfold NoFence
    rw [cut_settled hno hsettled, joinHead_fst_eq_nil]
    exact hheld
  by_cases hfence : fenceDelimiter <+: k.last ++ k.held
  · -- a tag line of backticks alone, and no more to come
    have hodd : k.closed.length % 2 = 1 := by
      by_contra heven
      exact hseam ⟨by omega, hlast, hfence⟩
    have hend : ∃ s : Text, cut backtick (k.last ++ k.held) = ([[]], s) ∧ (s = [] ∨ s = [backtick]) := by
      rcases hlast with heq | heq <;> rcases htidy.held with heq' | heq' | heq' <;> rw [heq, heq'] at hfence ⊢
      · exact absurd hfence (by decide)
      · exact absurd hfence (by decide)
      · exact ⟨[], rfl, Or.inl rfl⟩
      · exact absurd hfence (by decide)
      · exact ⟨[], rfl, Or.inl rfl⟩
      · exact ⟨[backtick], rfl, Or.inr rfl⟩
    obtain ⟨s, hcut, hs⟩ := hend
    have hparts : segments backtick text = k.closed ++ [[], s] := by
      unfold segments
      rw [htrack, hcut]
      simp
    exact absurd hs (not_or.mpr (hsteady.no_empty_end _ _ hparts hodd))
  · rcases hlast with heq | heq <;> rcases htidy.held with heq' | heq' | heq' <;> rw [heq, heq'] at hfence ⊢
    · rfl
    · rfl
    · exact absurd ⟨[], rfl⟩ hfence
    · rfl
    · exact absurd ⟨[], rfl⟩ hfence
    · exact absurd ⟨[backtick], rfl⟩ hfence

/-- **A steady text comes to its own parts**, whatever its chunks. -/
theorem rendered_of_steady (hsteady : Steady text) (chunks : List Text) (htidy : k.Tidy) (hno : NoFence backtick k.last)
    (htrack : OnTrack text k (k.held ++ chunks.flatten)) :
    (chunks.foldl Cuts.step k).rendered = render (cut backtick text).1 (cut backtick text).2 := by
  induction chunks generalizing k with
  | nil =>
    by_cases hseam : AtSeam k (k.held ++ [].flatten)
    · exact rendered_at_seam hsteady htidy [] htrack hseam
    rw [List.flatten_nil, List.append_nil] at htrack hseam
    have hwhole := cut_of_noFence (noFence_at_end hsteady htidy hno htrack hseam)
    show render k.closed (k.last ++ k.held) = _
    rw [htrack, hwhole, List.append_nil]
  | cons chunk chunks ih =>
    by_cases hseam : AtSeam k (k.held ++ (chunk :: chunks).flatten)
    · exact rendered_at_seam hsteady htidy _ htrack hseam
    obtain ⟨text', held, hstep, happend, -, -⟩ := step_parts k chunk
    have hwhole : k.held ++ (chunk :: chunks).flatten = text' ++ (held ++ chunks.flatten) := by
      rw [List.flatten_cons, ← List.append_assoc, happend, List.append_assoc]
    rw [hwhole] at hseam htrack
    have hnext : k.step chunk = ⟨k.closed ++ (cut backtick (k.last ++ text')).1, (cut backtick (k.last ++ text')).2, held⟩ := by
      rw [hstep]
      refine extend_off_seam htidy hno fun h => hseam ⟨h.1, h.2.1, h.2.2.trans ?_⟩
      rw [← List.append_assoc]
      exact List.prefix_append _ _
    refine ih (k := k.step chunk) (step_tidy htidy chunk) ?_ ?_
    · rw [hnext]
      exact noFence_last _
    · unfold OnTrack at htrack ⊢
      rw [hnext, htrack, ← List.append_assoc, cut_append]
      simp

theorem onTrack_init (text : Text) (chunks : List Text) (h : chunks.flatten = text) :
    OnTrack text ⟨[], [], []⟩ ([] ++ chunks.flatten) := by
  unfold OnTrack
  rw [h]
  rfl

end Steady

/-! ## Texts with a fence at a seam -/

section Seams

variable {m out : List UIContent} {key : String} {closed L R : List Text} {s t text : Text}

/-- After `m` comes a component of the key. -/
def Begins (m : List UIContent) (key : String) (out : List UIContent) : Prop :=
  ∃ c rest, c.key = key ∧ out = m ++ c :: rest

theorem Begins.addPiece (h : Begins m key out) (c : UIContent) : Begins m key (addPiece out c) := by
  obtain ⟨d, rest, rfl, rfl⟩ := h
  rcases List.eq_nil_or_concat rest with rfl | ⟨rest', e, rfl⟩
  · rw [addPiece_concat]
    split_ifs with htext
    · exact ⟨markdown _, [], (beq_iff_eq.mp (Bool.and_eq_true_iff.mp htext).1).symm, rfl⟩
    · exact ⟨d, [c], rfl, by simp⟩
  · have hlist : m ++ d :: rest'.concat e = m ++ d :: rest' ++ [e] := by simp
    rw [hlist, addPiece_concat]
    split_ifs
    · exact ⟨d, rest' ++ [markdown (e.content ++ c.content)], rfl, by simp⟩
    · exact ⟨d, rest' ++ [e] ++ [c], rfl, by simp⟩

theorem Begins.addText (h : Begins m key out) (s : Text) : Begins m key (addText out s) := by
  by_cases hs : s = []
  · rw [hs]
    exact h
  · rw [addText_of_ne hs]
    exact h.addPiece _

theorem Begins.cross {r : Reading} (h : Begins m key r.out) (s : Text) : Begins m key (r.cross s).out := by
  obtain ⟨out, block⟩ := r
  cases block with
  | none => exact h.addPiece _
  | some b => exact (h.addPiece _).addText _

theorem begins_reach (hne : closed ≠ []) (h : Begins m key (reach closed).out) (rest : List Text) :
    Begins m key (reach (closed ++ rest)).out := by
  rw [reach_append hne]
  induction rest generalizing closed with
  | nil => exact h
  | cons s rest ih =>
    have hcross := h.cross s
    rw [← reach_concat hne] at hcross
    have hih := ih (List.append_ne_nil_of_right_ne_nil _ (List.cons_ne_nil _ _)) hcross
    rwa [reach_concat hne] at hih

theorem begins_render (hne : closed ≠ []) (h : Begins m key (reach closed).out) : Begins m key (render closed s) := by
  have hcross := h.cross s
  rw [← reach_concat hne] at hcross
  unfold render
  split_ifs
  · exact hcross
  · exact hcross.addText _
  · exact h.addText _

theorem not_begins_both (h : Begins m "markdown" out) (h' : Begins m "load" out) : False := by
  obtain ⟨c, rest, hc, rfl⟩ := h
  obtain ⟨d, rest', hd, heq⟩ := h'
  have hcd : c = d := (List.cons.inj (List.append_cancel_left heq)).1
  rw [hcd, hd] at hc
  exact absurd hc (by decide)

/-- What the parts before a closing fence come to ends in the block. -/
theorem closed_out (hne : L ≠ []) (heven : L.length % 2 = 0) : ∃ m tag content,
    reach (L ++ [[]]) = ⟨m ++ [block tag content], none⟩ := by
  rw [reach_concat hne]
  obtain ⟨L', s, rfl⟩ : ∃ L' s, L = L' ++ [s] := ⟨L.dropLast, L.getLast hne, (List.dropLast_append_getLast hne).symm⟩
  have hblock := block_reach_concat L' s
  generalize reach (L' ++ [s]) = r at hblock ⊢
  obtain ⟨out, block⟩ := r
  cases block with
  | none =>
    have := hblock.mp rfl
    rw [List.length_append, List.length_singleton] at heven
    omega
  | some b =>
    obtain ⟨tag, content⟩ := b
    refine ⟨out, tag, content, ?_⟩
    show (⟨addText (addPiece out (Chat.block tag content)) [], none⟩ : Reading) = _
    rw [addText_nil, addPiece_of_not_text (isText_block tag content)]

/-- Text after a closed block. -/
theorem begins_text (hne : L ≠ []) (heven : L.length % 2 = 0) (hs : s ≠ []) :
    Begins (reach (L ++ [[]])).out "markdown" (reach (L ++ [s])).out := by
  obtain ⟨m, tag, content, hreach⟩ := closed_out hne heven
  have htext := addText_reach_even (k := ⟨L, [], []⟩) heven s
  rw [List.nil_append] at htext
  rw [show (reach (L ++ [s])).out = _ from htext]
  show Begins (reach (L ++ [[]])).out "markdown" (addText (reach (L ++ [[]])).out s)
  rw [hreach, addText_of_ne hs, addPiece_after_block (isText_block tag content)]
  exact ⟨markdown s, [], rfl, rfl⟩

/-- A block that is opened right after a closed one. -/
theorem begins_load (hne : L ≠ []) (heven : L.length % 2 = 0) (s : Text) :
    Begins (reach (L ++ [[]])).out "load" (reach (L ++ [[]] ++ [s])).out := by
  obtain ⟨m, tag, content, hreach⟩ := closed_out hne heven
  rw [reach_concat (List.append_ne_nil_of_right_ne_nil _ (List.cons_ne_nil _ _)), hreach]
  exact ⟨load _, [], rfl, addPiece_of_not_text rfl⟩

/-- Text at a seam. -/
theorem begins_render_text (hne : L ≠ []) (heven : L.length % 2 = 0) (hs : s ≠ []) (h : closed ++ [t] = L ++ s :: R) :
    Begins (reach (L ++ [[]])).out "markdown" (render closed t) := by
  have htext := begins_text hne heven hs
  rcases List.eq_nil_or_concat R with rfl | ⟨R', r, rfl⟩
  · obtain ⟨rfl, hts⟩ := List.append_inj' h rfl
    rw [List.cons.inj hts |>.1]
    unfold render
    rwa [if_pos heven]
  · have hlist : closed ++ [t] = (L ++ [s] ++ R') ++ [r] := by
      rw [h]
      simp
    obtain ⟨rfl, -⟩ := List.append_inj' hlist rfl
    exact begins_render (by simp) (begins_reach (by simp) htext R')

/-- A block at a seam. -/
theorem begins_render_load (hne : L ≠ []) (heven : L.length % 2 = 0) (hopens : Opens R) (h : closed ++ [t] = L ++ [] :: R) :
    Begins (reach (L ++ [[]])).out "load" (render closed t) := by
  match R, hopens with
  | [r], hline =>
    have hlist : closed ++ [t] = (L ++ [[]]) ++ [r] := by
      rw [h]
      simp
    obtain ⟨rfl, ht⟩ := List.append_inj' hlist rfl
    have htr : t = r := (List.cons.inj ht).1
    have hodd : ¬ (L ++ [[]]).length % 2 = 0 := by
      rw [List.length_append, List.length_singleton]
      omega
    have hline' : '\n' ∈ r := hline
    unfold render
    rw [htr, if_neg hodd, if_pos hline']
    exact (begins_load hne heven r).addText _
  | r :: r' :: R', _ =>
    have hlist : closed ++ [t] = (L ++ [[]] ++ [r] ++ (r' :: R').dropLast) ++ [(r' :: R').getLast (List.cons_ne_nil _ _)] := by
      rw [h, List.append_assoc, List.dropLast_append_getLast]
      simp
    obtain ⟨rfl, -⟩ := List.append_inj' hlist rfl
    exact begins_render (by simp) (begins_reach (by simp) (begins_load hne heven r) _)

end Seams

/-! ## Chunkings that differ -/

section Chunkings

variable {text x : Text} {L R : List Text} {s : Text}

theorem rendered_cutState (chunks : List Text) : merged (components chunks) = (cutState chunks).rendered :=
  merged_components chunks

theorem holdBack_of_fence (h : fenceDelimiter <:+ x) : holdBack x = (x, []) := by
  obtain ⟨w, rfl⟩ := h
  have htwo : [backtick, backtick] <:+ w ++ fenceDelimiter := ⟨w ++ [backtick], by simp [fenceDelimiter, fence]⟩
  unfold holdBack
  rw [if_neg fun h => h.2 (List.suffix_append _ _), if_neg fun h => h.2 htwo]

/-- In one chunk a text comes to its own parts. -/
theorem rendered_whole (text : Text) : (cutState [text]).rendered = render (cut backtick text).1 (cut backtick text).2 := by
  obtain ⟨text', held, hstep, happend, hheld, htext⟩ := step_parts ⟨[], [], []⟩ text
  have hstate : cutState [text] = ⟨(cut backtick text').1, (cut backtick text').2, held⟩ := by
    show (⟨[], [], []⟩ : Cuts).step text = _
    rw [hstep, extend_of_not_awaits (fun h => absurd h.1 (by decide)), joinHead_nil]
    rfl
  have hwhole : text = text' ++ held := happend
  have hcut : cut backtick text = ((cut backtick text').1, (cut backtick text').2 ++ held) := by
    rw [hwhole, cut_append]
    rcases htext with hsettled | ⟨-, hnone⟩
    · have hno : cut backtick held = ([], held) := by
        rcases hheld with heq | heq | heq <;> rw [heq] <;> rfl
      rw [cut_settled (noFence_last _) (hsettled.suffix (last_suffix _)), hno]
      show ((cut backtick text').1 ++ [], _) = _
      rw [List.append_nil]
      rfl
    · rw [hnone, List.append_nil, cut_of_noFence (noFence_last text'), List.append_nil]
  rw [hstate, hcut]
  rfl

/-- The state after the parts before a fence, the fence and some backticks more. -/
theorem cutState_beginning (hparts : ∀ s ∈ L, NoFence backtick s ∧ Settled backtick s) (hne : L ≠ []) {ticks : Text}
    (hticks : ticks = [backtick] ∨ ticks = [backtick, backtick]) :
    cutState [(L.map (· ++ fence backtick)).flatten ++ ticks] = ⟨L, ticks, []⟩ := by
  obtain ⟨L', s, rfl⟩ : ∃ L' s, L = L' ++ [s] := ⟨L.dropLast, L.getLast hne, (List.dropLast_append_getLast hne).symm⟩
  have hfence : fenceDelimiter <:+ ((L' ++ [s]).map (· ++ fence backtick)).flatten ++ ticks := by
    refine ⟨(L'.map (· ++ fence backtick)).flatten ++ s ++ ticks, ?_⟩
    rcases hticks with rfl | rfl <;> simp [fenceDelimiter, fence]
  have hno : cut backtick ticks = ([], ticks) := by
    rcases hticks with rfl | rfl <;> rfl
  show (⟨[], [], []⟩ : Cuts).step _ = _
  unfold Cuts.step
  rw [List.nil_append, holdBack_of_fence hfence, extend_of_not_awaits (fun h => absurd h.1 (by decide)), joinHead_nil,
    cut_joined hparts, hno]
  simp

theorem parts_of_segments {L₀ : List Text} (h : segments backtick text = L₀ ++ R) (hR : R ≠ []) :
    (∀ s ∈ L₀, NoFence backtick s ∧ Settled backtick s) ∧
      text = (L₀.map (· ++ fence backtick)).flatten ++ ((R.dropLast.map (· ++ fence backtick)).flatten ++ R.getLast hR) := by
  have hlist : (cut backtick text).1 ++ [(cut backtick text).2] = (L₀ ++ R.dropLast) ++ [R.getLast hR] := by
    rw [List.append_assoc, List.dropLast_append_getLast]
    exact h
  obtain ⟨hclosed, hlast⟩ := List.append_inj' hlist rfl
  have hparts := cut_parts (m := backtick) text
  have hjoin := cut_join (m := backtick) text
  rw [hclosed] at hparts hjoin
  rw [(List.cons.inj hlast).1] at hjoin
  refine ⟨fun s hs => hparts s (List.mem_append_left _ hs), ?_⟩
  rw [← hjoin]
  simp

/-- A block that is opened right after a closed one is missed if a chunk ends between the two fences. -/
theorem reopening_differs (h : segments backtick text = L ++ [] :: R) (hne : L ≠ []) (heven : L.length % 2 = 0)
    (hopens : Opens R) : ¬ ChunkIndependent text := by
  intro hindependent
  have hR : R ≠ [] := by
    rintro rfl
    exact hopens
  obtain ⟨hparts, htext⟩ := parts_of_segments (R := [] :: R) h (List.cons_ne_nil _ _)
  obtain ⟨w, hw⟩ : ∃ w, text = (L.map (· ++ fence backtick)).flatten ++ (backtick :: backtick :: backtick :: w) := by
    rw [htext, List.dropLast_cons_of_ne_nil hR]
    exact ⟨_, rfl⟩
  have hflatten : [(L.map (· ++ fence backtick)).flatten ++ [backtick], backtick :: backtick :: w].flatten = text := by
    rw [hw]
    simp
  have hsame := hindependent [text] [(L.map (· ++ fence backtick)).flatten ++ [backtick], backtick :: backtick :: w] (by simp) hflatten
  rw [rendered_cutState, rendered_cutState, rendered_whole] at hsame
  have hload : Begins (reach (L ++ [[]])).out "load" (render (cut backtick text).1 (cut backtick text).2) :=
    begins_render_load hne heven hopens h
  have htwo : cutState [(L.map (· ++ fence backtick)).flatten ++ [backtick], backtick :: backtick :: w] =
      (⟨L, [backtick], []⟩ : Cuts).step (backtick :: backtick :: w) := by
    show (cutState [(L.map (· ++ fence backtick)).flatten ++ [backtick]]).step _ = _
    rw [cutState_beginning hparts hne (Or.inl rfl)]
  obtain ⟨text', held, hstep, -, -, -⟩ := step_parts ⟨L, [backtick], []⟩ (backtick :: backtick :: w)
  have hawaits : ¬ (⟨L, [backtick], []⟩ : Cuts).AwaitsTag := fun hnow => by
    have hodd : L.length % 2 = 1 := hnow.1
    omega
  rw [htwo, hstep, extend_of_not_awaits hawaits] at hsame
  obtain ⟨K, r, hcut⟩ : ∃ K r, cut backtick text' = (K, r) := ⟨_, _, rfl⟩
  rw [hcut] at hsame
  have hmarkdown : Begins (reach (L ++ [[]])).out "markdown"
      (⟨L ++ (joinHead [backtick] (K, r)).1, (joinHead [backtick] (K, r)).2, held⟩ : Cuts).rendered := by
    unfold Cuts.rendered
    cases K with
    | nil => exact begins_render_text (s := [backtick] ++ r ++ held) hne heven (List.cons_ne_nil _ _) (R := []) (by simp [joinHead])
    | cons first rest =>
      exact begins_render_text (s := [backtick] ++ first) hne heven (List.cons_ne_nil _ _) (R := rest ++ [r ++ held])
        (by simp [joinHead])
  rw [hsame] at hload
  exact not_begins_both hmarkdown hload

/-- The indicators of blocks that are opened. -/
def loads (out : List UIContent) : ℕ := out.countP fun c => c.key == "load"

theorem loads_addPiece (out : List UIContent) (c : UIContent) :
    loads (addPiece out c) = loads out + if c.key = "load" then 1 else 0 := by
  rcases List.eq_nil_or_concat out with rfl | ⟨out', d, rfl⟩
  · show loads [c] = _
    unfold loads
    by_cases hc : c.key = "load" <;> simp [hc]
  · rw [List.concat_eq_append, addPiece_concat]
    split_ifs with htext hc
    · have hkey := beq_iff_eq.mp (Bool.and_eq_true_iff.mp htext).2
      rw [hkey] at hc
      exact absurd hc (by decide)
    · have hkey := beq_iff_eq.mp (Bool.and_eq_true_iff.mp htext).1
      unfold loads
      rw [List.countP_append, List.countP_append]
      have hd : List.countP (fun c => c.key == "load") [d] = 0 := by
        simp [hkey]
      rw [hd]
      rfl
    · unfold loads
      rw [List.countP_append]
      simp_all
    · unfold loads
      rw [List.countP_append]
      simp_all

theorem loads_addText (out : List UIContent) (s : Text) : loads (addText out s) = loads out := by
  by_cases hs : s = []
  · rw [hs]
    rfl
  · rw [addText_of_ne hs, loads_addPiece]
    rfl

/-- An empty block at the end is text if the last chunk holds no more than two of its backticks. -/
theorem empty_end_differs (h : segments backtick text = L ++ [[], s]) (hodd : L.length % 2 = 1) (hs : s = [] ∨ s = [backtick]) :
    ¬ ChunkIndependent text := by
  intro hindependent
  have hne := ne_nil_of_odd hodd
  obtain ⟨hparts, htext⟩ := parts_of_segments (R := [[], s]) h (List.cons_ne_nil _ _)
  have hflatten : [(L.map (· ++ fence backtick)).flatten ++ [backtick, backtick], backtick :: s].flatten = text := by
    rw [htext]
    simp [fence]
  have hsame := hindependent [text] [(L.map (· ++ fence backtick)).flatten ++ [backtick, backtick], backtick :: s] (by simp) hflatten
  rw [rendered_cutState, rendered_cutState, rendered_whole] at hsame
  have htwo : cutState [(L.map (· ++ fence backtick)).flatten ++ [backtick, backtick], backtick :: s] =
      (⟨L, [backtick, backtick], []⟩ : Cuts).step (backtick :: s) := by
    show (cutState [(L.map (· ++ fence backtick)).flatten ++ [backtick, backtick]]).step _ = _
    rw [cutState_beginning hparts hne (Or.inr rfl)]
  have hawaits : (⟨L, [backtick, backtick], []⟩ : Cuts).AwaitsTag := ⟨hodd, show '\n' ∉ [backtick, backtick] by decide⟩
  have hback : holdBack (backtick :: s) = ([], backtick :: s) := by
    rcases hs with rfl | rfl <;> rfl
  have hstate : (⟨L, [backtick, backtick], []⟩ : Cuts).step (backtick :: s) = ⟨L, [backtick, backtick], backtick :: s⟩ := by
    unfold Cuts.step
    rw [List.nil_append, hback, extend_of_awaits hawaits]
    show (⟨L ++ [], [backtick, backtick], backtick :: s⟩ : Cuts) = _
    rw [List.append_nil]
  have hclosed : (cut backtick text).1 = L ++ [[]] ∧ (cut backtick text).2 = s := by
    have hlist : (cut backtick text).1 ++ [(cut backtick text).2] = (L ++ [[]]) ++ [s] := by
      rw [List.append_assoc]
      exact h
    obtain ⟨hclosed, hlast⟩ := List.append_inj' hlist rfl
    exact ⟨hclosed, (List.cons.inj hlast).1⟩
  have hline : '\n' ∉ [backtick, backtick] ++ backtick :: s := by
    rcases hs with rfl | rfl <;> decide
  have hblock := block_reach_odd hodd
  rw [htwo, hstate, hclosed.1, hclosed.2] at hsame
  have hloads := congrArg loads hsame
  unfold Cuts.rendered render at hloads
  rw [if_pos (by rw [List.length_append, List.length_singleton]; omega), if_neg (by show ¬ L.length % 2 = 0; omega),
    if_neg hline, loads_addText, reach_concat (by simp), reach_concat hne] at hloads
  generalize reach L = r at hblock hloads
  obtain ⟨out, block⟩ := r
  have hnone : block = none := hblock
  subst hnone
  have hcount : loads (addText (addPiece (addPiece out (load "code".toList)) (Chat.block "code".toList [])) s) = loads out := hloads
  have hload : (load "code".toList).key = "load" := rfl
  rw [loads_addText, loads_addPiece, loads_addPiece, if_pos hload] at hcount
  omega

end Chunkings

/-- **A text is read the same in all chunkings exactly if no fence is at a seam of it.** -/
theorem chunkIndependent_iff (text : Text) : ChunkIndependent text ↔ Steady text := by
  constructor
  · intro h
    refine ⟨fun L R hparts hne heven hopens => reopening_differs hparts hne heven hopens h, fun L s hparts hodd => ?_⟩
    by_contra hs
    rw [not_and_or, not_not, not_not] at hs
    exact empty_end_differs hparts hodd hs h
  · intro h chunks chunks' hchunks hchunks'
    have hrendered := fun chunks (hflatten : chunks.flatten = text) =>
      rendered_of_steady h chunks tidy_init rfl (onTrack_init text chunks hflatten)
    rw [rendered_cutState, rendered_cutState]
    exact (hrendered chunks hchunks).trans (hrendered chunks' hchunks').symm

/-- A block right after another one: its opening fence is text if a chunk ends between the two fences. -/
theorem not_chunkIndependent : ¬ ChunkIndependent "```py\na``````py\nb```".toList :=
  reopening_differs (L := [[], "py\na".toList]) (R := ["py\nb".toList, []]) rfl (List.cons_ne_nil _ _) rfl trivial

end Waldur.Chat
