import Mathlib
import Waldur.Chat.StreamParser

/-!
# Chat.Cuts — the parts that the chunks of a stream are cut into

`cuts` are the parts of a stream between the fences that the parser finds, with its own hold-back; `render` reads parts
one after another, as text and as blocks in turn.  The parser emits, up to merging, what `render` makes of `cuts`
(`merged_components`).
-/

namespace Waldur.Chat

open Fences

/-! ## Reading parts -/

/-- Text after components. -/
def addText (out : List UIContent) (text : Text) : List UIContent := if text = [] then out else addPiece out (markdown text)

/-- The components so far, and the tag and the content of the block that is being read. -/
structure Reading where
  out : List UIContent
  block : Option (Text × Text)

namespace Reading

def append (r : Reading) (s : Text) : Reading :=
  match r.block with
  | none => ⟨addText r.out s, none⟩
  | some (tag, content) => ⟨r.out, some (tag, content ++ s)⟩

/-- A part after a fence. -/
def cross (r : Reading) (s : Text) : Reading :=
  match r.block with
  | some (tag, content) => ⟨addText (addPiece r.out (Chat.block tag content)) s, none⟩
  | none =>
    let (tag, content) := (extractTag s).getD ("code".toList, [])
    ⟨addPiece r.out (load tag), some (tag, content)⟩

end Reading

/-- Parts from the start of a stream. -/
def reach : List Text → Reading
  | [] => ⟨[], none⟩
  | s :: rest => rest.foldl Reading.cross (Reading.append ⟨[], none⟩ s)

/-- **What the parts of a stream come to**: text and blocks in turn.  A block that is left open yields the backticks at its
end, and a fence with no tag line is text. -/
def render (closed : List Text) (last : Text) : List UIContent :=
  if closed.length % 2 = 0 then (reach (closed ++ [last])).out
  else if '\n' ∈ last then addText (reach (closed ++ [last])).out (marks backtick last)
  else addText (reach closed).out (fenceDelimiter ++ last)

/-! ## Cutting chunks -/

/-- The parts that are followed by a fence, the part that is being read, and the backticks that are held back. -/
structure Cuts where
  closed : List Text
  last : Text
  held : Text

namespace Cuts

variable (k : Cuts)

/-- The last part is after an opening fence, in a line that has not ended. -/
def AwaitsTag : Prop := k.closed.length % 2 = 1 ∧ '\n' ∉ k.last

instance : Decidable k.AwaitsTag := inferInstanceAs (Decidable (_ ∧ _))

/-- The parts after a text: a tag line that has not ended is cut again with it, other parts are prolonged. -/
def extend (text held : Text) : Cuts :=
  let p := if k.AwaitsTag then cut backtick (k.last ++ text) else joinHead k.last (cut backtick text)
  ⟨k.closed ++ p.1, p.2, held⟩

def step (chunk : Text) : Cuts := k.extend (holdBack (k.held ++ chunk)).1 (holdBack (k.held ++ chunk)).2

end Cuts

def cutState (chunks : List Text) : Cuts := chunks.foldl Cuts.step ⟨[], [], []⟩

/-- The parts of a stream. -/
def cuts (chunks : List Text) : List Text × Text := ((cutState chunks).closed, (cutState chunks).last ++ (cutState chunks).held)

/-! ## Components after components -/

section Pieces

variable {out : List UIContent} {c : UIContent} {s s' : Text}

theorem addPiece_concat (out : List UIContent) (d c : UIContent) : addPiece (out ++ [d]) c =
    if d.isText && c.isText then out ++ [markdown (d.content ++ c.content)] else out ++ [d] ++ [c] := by
  unfold addPiece
  rw [List.getLast?_concat, List.dropLast_concat]

theorem addPiece_of_not_text (h : c.isText = false) : addPiece out c = out ++ [c] := by
  rcases List.eq_nil_or_concat out with rfl | ⟨out', d, rfl⟩
  · rfl
  · rw [List.concat_eq_append, addPiece_concat, h, Bool.and_false]
    rfl

/-- Plain text joins the plain text before it. -/
theorem addPiece_text {d : UIContent} (hd : d.isText = true) (s : Text) :
    addPiece (out ++ [d]) (markdown s) = out ++ [markdown (d.content ++ s)] := by
  rw [addPiece_concat, hd]
  rfl

theorem addPiece_after_block {d : UIContent} (hd : d.isText = false) (c : UIContent) :
    addPiece (out ++ [d]) c = out ++ [d] ++ [c] := by
  rw [addPiece_concat, hd]
  rfl

@[simp] theorem addText_nil (out : List UIContent) : addText out [] = out := rfl

theorem addText_of_ne (h : s ≠ []) : addText out s = addPiece out (markdown s) := if_neg h

/-- Two texts are one. -/
theorem addText_addText (out : List UIContent) (s s' : Text) : addText (addText out s) s' = addText out (s ++ s') := by
  by_cases hs : s = []
  · rw [hs]
    rfl
  by_cases hs' : s' = []
  · rw [hs', addText_nil, List.append_nil]
  rw [addText_of_ne hs, addText_of_ne hs', addText_of_ne (List.append_ne_nil_of_left_ne_nil hs s')]
  rcases List.eq_nil_or_concat out with rfl | ⟨out', d, rfl⟩
  · rfl
  · rw [List.concat_eq_append]
    cases hd : d.isText with
    | true =>
      rw [addPiece_text hd, addPiece_text hd, addPiece_text rfl, ← List.append_assoc d.content]
      rfl
    | false =>
      rw [addPiece_after_block hd, addPiece_after_block hd, addPiece_text rfl]
      rfl

end Pieces

/-! ## The parser follows the reading -/

/-- Components after components. -/
def addAll (out new : List UIContent) : List UIContent := new.foldl addPiece out

theorem addAll_append (out new new' : List UIContent) : addAll out (new ++ new') = addAll (addAll out new) new' :=
  List.foldl_append

/-- The parser is outside of blocks where no block is read; inside it has no text to flush. -/
def SameMode (p : StreamParser) (r : Reading) : Prop :=
  match p.state with
  | .outsideBlock => r.block = none
  | .insideBlock tag => p.textBuffer = [] ∧ r.block = some (tag, p.blockBuffer.flatten)

/-- After the components `out`, the parser and its text buffer are where the reading is. -/
structure Follows (out : List UIContent) (p : StreamParser) (r : Reading) : Prop where
  out_eq : r.out = addText out p.textBuffer.flatten
  pieces : ∀ s ∈ p.textBuffer, s ≠ []
  mode : SameMode p r

section Follows

variable {out : List UIContent} {p : StreamParser} {r : Reading} {s : Text}

theorem sameMode_outside (h : p.state = .outsideBlock) : SameMode p r ↔ r.block = none := by
  unfold SameMode
  rw [h]

theorem sameMode_inside {tag : Text} (h : p.state = .insideBlock tag) :
    SameMode p r ↔ p.textBuffer = [] ∧ r.block = some (tag, p.blockBuffer.flatten) := by
  unfold SameMode
  rw [h]

/-- A text buffer without empty pieces comes out as one text. -/
theorem flushTextBuffer_out (p : StreamParser) (hpieces : ∀ s ∈ p.textBuffer, s ≠ []) (out : List UIContent) :
    addAll out p.flushTextBuffer.2 = addText out p.textBuffer.flatten := by
  unfold StreamParser.flushTextBuffer
  by_cases hnil : p.textBuffer = []
  · rw [if_pos hnil, hnil]
    rfl
  · have hne : p.textBuffer.flatten ≠ [] := by
      intro hflat
      obtain ⟨s, rest, hcons⟩ := List.exists_cons_of_ne_nil hnil
      refine hpieces s (by rw [hcons]; exact List.mem_cons_self) ?_
      exact List.flatten_eq_nil_iff.mp hflat s (by rw [hcons]; exact List.mem_cons_self)
    rw [if_neg hnil, createContent_markdown, addText_of_ne hne]
    rfl

theorem flushTextBuffer_fst (p : StreamParser) : p.flushTextBuffer.1 = { p with textBuffer := [] } := by
  unfold StreamParser.flushTextBuffer
  split_ifs with hnil
  · obtain ⟨state, textBuffer, blockBuffer, trailing, fence⟩ := p
    have hnil' : textBuffer = [] := hnil
    rw [hnil']
  · rfl

theorem flushTextBuffer_spec (h : Follows out p r) : ∃ new, p.flushTextBuffer = ({ p with textBuffer := [] }, new) ∧
    addAll out new = r.out :=
  ⟨p.flushTextBuffer.2, Prod.ext (flushTextBuffer_fst p) rfl, (flushTextBuffer_out p h.pieces out).trans h.out_eq.symm⟩

theorem flushTextBuffer_follows (h : Follows out p r) :
    Follows (addAll out p.flushTextBuffer.2) p.flushTextBuffer.1 r := by
  obtain ⟨new, heq, hout⟩ := flushTextBuffer_spec h
  rw [heq]
  refine ⟨by rw [hout]; rfl, fun s hs => absurd hs List.not_mem_nil, ?_⟩
  cases hstate : p.state with
  | outsideBlock => exact (sameMode_outside rfl).mpr ((sameMode_outside hstate).mp h.mode)
  | insideBlock tag => exact (sameMode_inside rfl).mpr ⟨rfl, ((sameMode_inside hstate).mp h.mode).2⟩

theorem threshold_follows (h : Follows out p r) :
    Follows (addAll out p.flushTextIfThresholdMet.2) p.flushTextIfThresholdMet.1 r := by
  unfold StreamParser.flushTextIfThresholdMet
  cases p.state with
  | insideBlock tag => exact h
  | outsideBlock =>
    show Follows (addAll out (if _ then _ else _ : StreamParser × List UIContent).2)
      (if _ then _ else _ : StreamParser × List UIContent).1 r
    split_ifs
    · exact flushTextBuffer_follows h
    · exact h

theorem appendToCurrentBuffer_outside (hs : s ≠ []) (h : p.state = .outsideBlock) :
    p.appendToCurrentBuffer s = { p with textBuffer := p.textBuffer ++ [s] } := by
  unfold StreamParser.appendToCurrentBuffer
  rw [if_neg hs, h]

theorem appendToCurrentBuffer_inside {tag : Text} (hs : s ≠ []) (h : p.state = .insideBlock tag) :
    p.appendToCurrentBuffer s = { p with blockBuffer := p.blockBuffer ++ [s] } := by
  unfold StreamParser.appendToCurrentBuffer
  rw [if_neg hs, h]

theorem Reading.append_nil (r : Reading) : r.append [] = r := by
  obtain ⟨out, block⟩ := r
  cases block with
  | none => rfl
  | some b => simp [Reading.append]

theorem append_follows (h : Follows out p r) (s : Text) : Follows out (p.appendToCurrentBuffer s) (r.append s) := by
  by_cases hs : s = []
  · rw [hs, Reading.append_nil]
    exact h
  obtain ⟨rout, rblock⟩ := r
  cases hstate : p.state with
  | outsideBlock =>
    have hblock : rblock = none := (sameMode_outside hstate).mp h.mode
    subst hblock
    rw [appendToCurrentBuffer_outside hs hstate]
    refine ⟨?_, ?_, (sameMode_outside (by exact hstate)).mpr rfl⟩
    · show addText rout s = addText out (p.textBuffer ++ [s]).flatten
      rw [show rout = _ from h.out_eq, addText_addText, List.flatten_append, List.flatten_singleton]
    · intro s' hs'
      rcases List.mem_append.mp hs' with hold | hnew
      · exact h.pieces s' hold
      · rwa [List.mem_singleton.mp hnew]
  | insideBlock tag =>
    obtain ⟨htext, hblock⟩ := (sameMode_inside hstate).mp h.mode
    have hblock' : rblock = some (tag, p.blockBuffer.flatten) := hblock
    subst hblock'
    rw [appendToCurrentBuffer_inside hs hstate]
    refine ⟨h.out_eq, h.pieces, (sameMode_inside (by exact hstate)).mpr ⟨htext, ?_⟩⟩
    show some (tag, p.blockBuffer.flatten ++ s) = some (tag, (p.blockBuffer ++ [s]).flatten)
    rw [List.flatten_append, List.flatten_singleton]

theorem openBlock_follows (h : Follows out p r) (tag content : Text) :
    Follows (addAll out (p.openBlock tag content).2) (p.openBlock tag content).1
      ⟨addPiece r.out (load tag), some (tag, content)⟩ := by
  obtain ⟨new, heq, hout⟩ := flushTextBuffer_spec h
  unfold StreamParser.openBlock andThen
  rw [heq, emitLoadingIndicator_eq, addAll_append, hout]
  refine ⟨rfl, fun s hs => absurd hs List.not_mem_nil, rfl, ?_⟩
  rw [List.flatten_singleton]

/-- A closing fence. -/
theorem close_follows (h : Follows out p r) {tag : Text} (hstate : p.state = .insideBlock tag) (isLast : Bool) :
    Follows (addAll out (p.handleFenceCrossing s isLast).2) (p.handleFenceCrossing s isLast).1 (r.cross s) := by
  obtain ⟨rout, rblock⟩ := r
  obtain ⟨htext, hblock⟩ := (sameMode_inside hstate).mp h.mode
  have hblock' : rblock = some (tag, p.blockBuffer.flatten) := hblock
  subst hblock'
  have hout : rout = out := by
    rw [show rout = _ from h.out_eq, htext]
    rfl
  have hemit : (p.handleFenceCrossing s isLast).2 = [block tag p.blockBuffer.flatten] := by
    unfold StreamParser.handleFenceCrossing
    rw [hstate]
    exact renderBlockContent_eq _ _
  have hnext : (p.handleFenceCrossing s isLast).1 = { p with
      state := .outsideBlock, blockBuffer := [], textBuffer := if s = [] then [] else [s] } := by
    unfold StreamParser.handleFenceCrossing
    rw [hstate]
    show (if s = [] then _ else _ : StreamParser) = _
    split_ifs
    · show ({ p with state := .outsideBlock, blockBuffer := [], textBuffer := p.textBuffer } : StreamParser) = _
      rw [htext]
    · show ({ p with state := .outsideBlock, blockBuffer := [], textBuffer := p.textBuffer ++ [s] } : StreamParser) = _
      rw [htext, List.nil_append]
  rw [hemit, hnext]
  refine ⟨?_, ?_, (sameMode_outside rfl).mpr rfl⟩
  · show addText (addPiece rout (block tag p.blockBuffer.flatten)) s = addText _ (if s = [] then [] else [s]).flatten
    rw [hout]
    split_ifs with hs
    · rw [hs]
      rfl
    · rw [List.flatten_singleton]
      rfl
  · intro s' hs'
    have hmem : s' ∈ (if s = [] then [] else [s]) := hs'
    split_ifs at hmem with hs
    · exact absurd hmem List.not_mem_nil
    · rwa [List.mem_singleton.mp hmem]

theorem extractTag_eq_none_iff : extractTag s = none ↔ '\n' ∉ s := by
  unfold extractTag
  split_ifs with hline <;> simp [hline]

/-- An opening fence, unless its tag line is still awaited. -/
theorem open_follows (h : Follows out p r) (hstate : p.state = .outsideBlock) {isLast : Bool}
    (hreads : '\n' ∈ s ∨ isLast = false) :
    Follows (addAll out (p.handleFenceCrossing s isLast).2) (p.handleFenceCrossing s isLast).1 (r.cross s) := by
  have hblock := (sameMode_outside hstate).mp h.mode
  unfold StreamParser.handleFenceCrossing Reading.cross
  rw [hstate, hblock]
  cases htag : extractTag s with
  | some t =>
    obtain ⟨tag, content⟩ := t
    exact openBlock_follows h tag content
  | none =>
    rcases hreads with hread | hread
    · exact absurd hread (extractTag_eq_none_iff.mp htag)
    · rw [hread]
      exact openBlock_follows h _ _

end Follows

/-! ## Parities -/

section Reach

variable {closed : List Text} {last s : Text}

theorem reach_append (h : closed ≠ []) (rest : List Text) : reach (closed ++ rest) = rest.foldl Reading.cross (reach closed) := by
  obtain ⟨first, others, rfl⟩ := List.exists_cons_of_ne_nil h
  exact List.foldl_append

theorem reach_concat (h : closed ≠ []) (s : Text) : reach (closed ++ [s]) = (reach closed).cross s := reach_append h [s]

theorem block_append (r : Reading) (s : Text) : (r.append s).block = none ↔ r.block = none := by
  obtain ⟨out, block⟩ := r
  cases block <;> simp [Reading.append]

theorem block_cross (r : Reading) (s : Text) : (r.cross s).block = none ↔ r.block ≠ none := by
  obtain ⟨out, block⟩ := r
  cases block <;> simp [Reading.cross]

/-- Every second fence closes a block. -/
theorem block_reach_concat (closed : List Text) (s : Text) :
    (reach (closed ++ [s])).block = none ↔ closed.length % 2 = 0 := by
  induction closed using List.reverseRecOn generalizing s with
  | nil => simp [reach, block_append]
  | append_singleton closed s' ih =>
    rw [reach_concat (by simp), block_cross, Ne, ih, List.length_append, List.length_singleton]
    omega

theorem ne_nil_of_odd (h : closed.length % 2 = 1) : closed ≠ [] := by
  rintro rfl
  simp at h

theorem block_reach_odd (h : closed.length % 2 = 1) : (reach closed).block = none := by
  rcases List.eq_nil_or_concat closed with rfl | ⟨closed', s, rfl⟩
  · rfl
  · rw [List.concat_eq_append, List.length_append, List.length_singleton] at h
    rw [List.concat_eq_append, block_reach_concat]
    omega

theorem extractTag_append {tag content : Text} (h : extractTag s = some (tag, content)) (s' : Text) :
    extractTag (s ++ s') = some (tag, content ++ s') := by
  unfold extractTag at h ⊢
  by_cases hline : '\n' ∈ s
  · rw [if_pos hline] at h
    rw [if_pos (List.mem_append_left _ hline)]
    obtain ⟨before, after, rfl, hbefore⟩ := List.eq_append_cons_of_mem hline
    have hpos : ∀ c ∈ before, decide (c ≠ '\n') = true := fun c hc => by
      have hne : c ≠ '\n' := fun heq => hbefore (by rwa [heq] at hc)
      simpa using hne
    have htake : ∀ l : Text, (before ++ '\n' :: l).takeWhile (· ≠ '\n') = before := fun l => by
      rw [List.takeWhile_append_of_pos hpos]
      simp
    have hdrop : ∀ l : Text, (before ++ '\n' :: l).dropWhile (· ≠ '\n') = '\n' :: l := fun l => by
      rw [List.dropWhile_append_of_pos hpos]
      simp
    rw [List.append_assoc, List.cons_append]
    rw [htake, hdrop] at h ⊢
    simp only [Option.some.injEq, Prod.mk.injEq, List.tail_cons] at h ⊢
    exact ⟨h.1, by rw [h.2]⟩
  · rw [if_neg hline] at h
    cases h

theorem cross_append {r : Reading} (h : r.block ≠ none ∨ '\n' ∈ s) (s' : Text) :
    r.cross (s ++ s') = (r.cross s).append s' := by
  obtain ⟨out, block⟩ := r
  cases block with
  | some b =>
    obtain ⟨tag, content⟩ := b
    show (⟨addText _ (s ++ s'), none⟩ : Reading) = ⟨addText (addText _ s) s', none⟩
    rw [addText_addText]
  | none =>
    have hline : '\n' ∈ s := by
      rcases h with h | h
      · exact absurd rfl h
      · exact h
    cases htag : extractTag s with
    | none => exact absurd hline (extractTag_eq_none_iff.mp htag)
    | some t =>
      obtain ⟨tag, content⟩ := t
      unfold Reading.cross
      rw [htag, extractTag_append htag]
      rfl

/-- Prolonging the last part, unless it is a tag line that has not ended. -/
theorem reach_prolong (h : ¬ (closed.length % 2 = 1 ∧ '\n' ∉ last)) (s : Text) :
    reach (closed ++ [last ++ s]) = (reach (closed ++ [last])).append s := by
  rcases List.eq_nil_or_concat closed with rfl | ⟨closed', s', rfl⟩
  · show (⟨addText [] (last ++ s), none⟩ : Reading) = ⟨addText (addText [] last) s, none⟩
    rw [addText_addText]
  · rw [List.concat_eq_append] at h ⊢
    have hne : closed' ++ [s'] ≠ [] := List.append_ne_nil_of_right_ne_nil _ (List.cons_ne_nil _ _)
    rw [reach_concat hne, reach_concat hne]
    refine cross_append ?_ s
    by_cases hline : '\n' ∈ last
    · exact Or.inr hline
    · refine Or.inl fun hblock => h ⟨?_, hline⟩
      rw [block_reach_concat] at hblock
      rw [List.length_append, List.length_singleton]
      omega

end Reach

/-! ## The parser follows the cuts -/

/-- After some chunks the parser is where their parts are. -/
structure AtCuts (out : List UIContent) (p : StreamParser) (k : Cuts) : Prop where
  held : p.trailingBackticks = k.held
  fence : p.incompleteFence = if k.AwaitsTag then some (fenceDelimiter ++ k.last) else none
  follows : Follows out p (if k.AwaitsTag then reach k.closed else reach (k.closed ++ [k.last]))

section AtCuts

variable {out : List UIContent} {p : StreamParser} {r : Reading} {k : Cuts} {s : Text} {closed L : List Text}

theorem Follows.withHeld (h : Follows out p r) (held : Text) (fence : Option Text) :
    Follows out { p with trailingBackticks := held, incompleteFence := fence } r := by
  refine ⟨h.out_eq, h.pieces, ?_⟩
  cases hstate : p.state with
  | outsideBlock => exact (sameMode_outside rfl).mpr ((sameMode_outside hstate).mp h.mode)
  | insideBlock tag => exact (sameMode_inside rfl).mpr ((sameMode_inside hstate).mp h.mode)

/-- What is held back is the same in two parsers. -/
def SameHeld (p p' : StreamParser) : Prop :=
  p'.trailingBackticks = p.trailingBackticks ∧ p'.incompleteFence = p.incompleteFence

theorem SameHeld.refl (p : StreamParser) : SameHeld p p := ⟨rfl, rfl⟩

theorem SameHeld.trans {p p' p'' : StreamParser} (h : SameHeld p p') (h' : SameHeld p' p'') : SameHeld p p'' :=
  ⟨h'.1.trans h.1, h'.2.trans h.2⟩

theorem flushTextBuffer_held (p : StreamParser) : SameHeld p p.flushTextBuffer.1 := by
  unfold StreamParser.flushTextBuffer
  split_ifs <;> exact ⟨rfl, rfl⟩

theorem threshold_held (p : StreamParser) : SameHeld p p.flushTextIfThresholdMet.1 := by
  unfold StreamParser.flushTextIfThresholdMet
  split
  · exact SameHeld.refl p
  · split_ifs
    · exact flushTextBuffer_held p
    · exact SameHeld.refl p

theorem append_held (p : StreamParser) (s : Text) : SameHeld p (p.appendToCurrentBuffer s) := by
  unfold StreamParser.appendToCurrentBuffer
  split_ifs
  · exact SameHeld.refl p
  · split <;> exact ⟨rfl, rfl⟩

/-- Only a tag line that has not ended is kept for the next chunk. -/
theorem crossing_held {isLast : Bool} (h : p.state ≠ .outsideBlock ∨ '\n' ∈ s ∨ isLast = false) :
    SameHeld p (p.handleFenceCrossing s isLast).1 := by
  unfold StreamParser.handleFenceCrossing
  cases hstate : p.state with
  | insideBlock tag =>
    show SameHeld p (if s = [] then _ else _ : StreamParser)
    split_ifs <;> exact ⟨rfl, rfl⟩
  | outsideBlock =>
    cases htag : extractTag s with
    | some t => exact flushTextBuffer_held p
    | none =>
      rcases h with h | h | h
      · exact absurd hstate h
      · exact absurd h (extractTag_eq_none_iff.mp htag)
      · rw [h]
        exact flushTextBuffer_held p

theorem crossing_awaits (hstate : p.state = .outsideBlock) (hline : '\n' ∉ s) :
    p.handleFenceCrossing s true = ({ p with incompleteFence := some (fenceDelimiter ++ s) }, []) := by
  unfold StreamParser.handleFenceCrossing
  rw [hstate, extractTag_eq_none_iff.mpr hline]
  rfl

/-- The parser is outside of blocks after an odd number of parts. -/
theorem state_iff (h : Follows out p (reach closed)) (hne : closed ≠ []) :
    p.state = .outsideBlock ↔ closed.length % 2 = 1 := by
  obtain ⟨closed', s, rfl⟩ : ∃ closed' s, closed = closed' ++ [s] :=
    ⟨closed.dropLast, closed.getLast hne, (List.dropLast_append_getLast hne).symm⟩
  have hblock := block_reach_concat closed' s
  rw [List.length_append, List.length_singleton]
  cases hstate : p.state with
  | outsideBlock =>
    have hparity := hblock.mp ((sameMode_outside hstate).mp h.mode)
    simp only [true_iff]
    omega
  | insideBlock tag =>
    have hsome := ((sameMode_inside hstate).mp h.mode).2
    rw [hsome] at hblock
    simp only [reduceCtorEq, false_iff] at hblock ⊢
    omega

/-- The loop over the segments of a chunk. -/
theorem crossings_follow (L : List Text) (s : Text) (h : Follows out p (reach closed)) (hne : closed ≠ []) :
    Follows (addAll out (StreamParser.handleFenceCrossings (L ++ [s]) p).2) (StreamParser.handleFenceCrossings (L ++ [s]) p).1
      (if (closed ++ L).length % 2 = 1 ∧ '\n' ∉ s then reach (closed ++ L) else reach (closed ++ L ++ [s])) ∧
    (StreamParser.handleFenceCrossings (L ++ [s]) p).1.trailingBackticks = p.trailingBackticks ∧
    (StreamParser.handleFenceCrossings (L ++ [s]) p).1.incompleteFence =
      if (closed ++ L).length % 2 = 1 ∧ '\n' ∉ s then some (fenceDelimiter ++ s) else p.incompleteFence := by
  induction L generalizing closed p out with
  | nil =>
    have hone : StreamParser.handleFenceCrossings ([] ++ [s]) p = p.handleFenceCrossing s true := by
      show (_, (p.handleFenceCrossing s true).2 ++ []) = _
      rw [List.append_nil]
      rfl
    rw [hone, List.append_nil]
    split_ifs with hawaits
    · rw [crossing_awaits ((state_iff h hne).mpr hawaits.1) hawaits.2]
      exact ⟨h.withHeld p.trailingBackticks _, rfl, rfl⟩
    · have hreads : p.state ≠ .outsideBlock ∨ '\n' ∈ s := by
        by_contra hnot
        rw [not_or, not_not] at hnot
        exact hawaits ⟨(state_iff h hne).mp hnot.1, hnot.2⟩
      have hheld : SameHeld p (p.handleFenceCrossing s true).1 :=
        crossing_held (hreads.elim Or.inl fun hline => Or.inr (Or.inl hline))
      rw [reach_concat hne]
      refine ⟨?_, hheld.1, hheld.2⟩
      cases hstate : p.state with
      | insideBlock tag => exact close_follows h hstate true
      | outsideBlock => exact open_follows h hstate (Or.inl (hreads.resolve_left (not_not.mpr hstate)))
  | cons s' L ih =>
    have hlast : (L ++ [s]).isEmpty = false := by cases L <;> rfl
    have hcross : Follows (addAll out (p.handleFenceCrossing s' false).2) (p.handleFenceCrossing s' false).1
        (reach (closed ++ [s'])) := by
      rw [reach_concat hne]
      cases hstate : p.state with
      | insideBlock tag => exact close_follows h hstate false
      | outsideBlock => exact open_follows h hstate (Or.inr rfl)
    have hheld : SameHeld p (p.handleFenceCrossing s' false).1 := crossing_held (Or.inr (Or.inr rfl))
    obtain ⟨hfollows, htrailing, hfence⟩ := ih hcross (List.append_ne_nil_of_right_ne_nil _ (List.cons_ne_nil _ _))
    have hstep : StreamParser.handleFenceCrossings (s' :: L ++ [s]) p =
        andThen (p.handleFenceCrossing s' false) (StreamParser.handleFenceCrossings (L ++ [s])) := by
      show andThen (p.handleFenceCrossing s' (L ++ [s]).isEmpty) _ = _
      rw [hlast]
      rfl
    have hlist : closed ++ s' :: L = closed ++ [s'] ++ L := by simp
    rw [hstep, hlist]
    refine ⟨?_, htrailing.trans hheld.1, ?_⟩
    · show Follows (addAll out (_ ++ _)) _ _
      rw [addAll_append]
      exact hfollows
    · rw [← hheld.2]
      exact hfence

theorem parse_eq {p' : StreamParser} {chunk text first : Text} {rest : List Text} (h : p.reconstruct chunk = (p', text))
    (hsegments : segments backtick text = first :: rest) : p.parse chunk =
      andThen (StreamParser.handleFenceCrossings rest (p'.appendToCurrentBuffer first))
        StreamParser.flushTextIfThresholdMet := by
  unfold StreamParser.parse
  simp only [h, hsegments]

theorem andThen_threshold {q : StreamParser × List UIContent} (h : AtCuts (addAll out q.2) q.1 k) :
    AtCuts (addAll out (andThen q StreamParser.flushTextIfThresholdMet).2)
      (andThen q StreamParser.flushTextIfThresholdMet).1 k := by
  have hheld := threshold_held q.1
  refine ⟨hheld.1.trans h.held, hheld.2.trans h.fence, ?_⟩
  show Follows (addAll out (_ ++ _)) _ _
  rw [addAll_append]
  exact threshold_follows h.follows

theorem extend_of_awaits (h : k.AwaitsTag) (text held : Text) :
    k.extend text held = ⟨k.closed ++ (cut backtick (k.last ++ text)).1, (cut backtick (k.last ++ text)).2, held⟩ := by
  unfold Cuts.extend
  rw [if_pos h]

theorem extend_of_not_awaits (h : ¬ k.AwaitsTag) (text held : Text) :
    k.extend text held = ⟨k.closed ++ (joinHead k.last (cut backtick text)).1, (joinHead k.last (cut backtick text)).2, held⟩ := by
  unfold Cuts.extend
  rw [if_neg h]

/-- The text after a tag line that had not ended is read again with it. -/
theorem parse_awaiting (h : AtCuts out p k) (hawaits : k.AwaitsTag) {chunk text held : Text}
    (hback : holdBack (k.held ++ chunk) = (text, held)) :
    AtCuts (addAll out (p.parse chunk).2) (p.parse chunk).1 (k.extend text held) := by
  have hfollows := h.follows
  rw [if_pos hawaits] at hfollows
  have hrec : p.reconstruct chunk = ({ p with trailingBackticks := held, incompleteFence := none },
      fenceDelimiter ++ (k.last ++ text)) := by
    unfold StreamParser.reconstruct
    rw [h.held, hback, h.fence, if_pos hawaits]
    rfl
  have hsegments : segments backtick (fenceDelimiter ++ (k.last ++ text)) =
      [] :: ((cut backtick (k.last ++ text)).1 ++ [(cut backtick (k.last ++ text)).2]) := by
    show (cut backtick (backtick :: backtick :: backtick :: (k.last ++ text))).1 ++ [_] = _
    rw [cut_fence]
    rfl
  rw [parse_eq hrec hsegments, extend_of_awaits hawaits]
  obtain ⟨hrun, htrailing, hfence⟩ := crossings_follow (cut backtick (k.last ++ text)).1 (cut backtick (k.last ++ text)).2
    (hfollows.withHeld held none) (ne_nil_of_odd hawaits.1)
  exact andThen_threshold ⟨htrailing, hfence, hrun⟩

/-- Otherwise the text before the first fence prolongs the last part. -/
theorem parse_prolonging (h : AtCuts out p k) (hawaits : ¬ k.AwaitsTag) {chunk text held : Text}
    (hback : holdBack (k.held ++ chunk) = (text, held)) :
    AtCuts (addAll out (p.parse chunk).2) (p.parse chunk).1 (k.extend text held) := by
  have hfollows := h.follows
  rw [if_neg hawaits] at hfollows
  have hrec : p.reconstruct chunk = ({ p with trailingBackticks := held, incompleteFence := none }, text) := by
    unfold StreamParser.reconstruct
    rw [h.held, hback, h.fence, if_neg hawaits]
    rfl
  have hfirst := fun first => append_follows (hfollows.withHeld held none) first
  have hheld := fun first => append_held { p with trailingBackticks := held, incompleteFence := none } first
  rw [extend_of_not_awaits hawaits]
  obtain ⟨L, s, hcut⟩ : ∃ L s, cut backtick text = (L, s) := ⟨_, _, rfl⟩
  have hsegments : segments backtick text = L ++ [s] := by
    unfold segments
    rw [hcut]
  rw [hcut]
  cases L with
  | nil =>
    have hnot : ¬ (⟨k.closed, k.last ++ s, held⟩ : Cuts).AwaitsTag := fun hnow =>
      hawaits ⟨hnow.1, fun hline => hnow.2 (List.mem_append_left _ hline)⟩
    rw [parse_eq hrec hsegments]
    show AtCuts _ _ ⟨k.closed ++ [], k.last ++ s, held⟩
    rw [List.append_nil]
    refine andThen_threshold ⟨(hheld s).1, ?_, ?_⟩
    · rw [if_neg hnot]
      exact (hheld s).2
    · rw [if_neg hnot]
      show Follows out _ (reach (k.closed ++ [k.last ++ s]))
      rw [reach_prolong hawaits]
      exact hfirst s
  | cons first rest =>
    have hrun := hfirst first
    rw [← reach_prolong hawaits] at hrun
    obtain ⟨hfollow, htrailing, hfence⟩ := crossings_follow rest s hrun
      (List.append_ne_nil_of_right_ne_nil _ (List.cons_ne_nil _ _))
    have hlist : k.closed ++ (k.last ++ first) :: rest = k.closed ++ [k.last ++ first] ++ rest := by simp
    rw [parse_eq hrec hsegments]
    show AtCuts _ _ ⟨k.closed ++ (k.last ++ first) :: rest, s, held⟩
    rw [hlist]
    refine andThen_threshold ⟨htrailing.trans (hheld first).1, ?_, hfollow⟩
    refine hfence.trans ?_
    rw [(hheld first).2]
    rfl

/-- One chunk. -/
theorem parse_atCuts (h : AtCuts out p k) (chunk : Text) :
    AtCuts (addAll out (p.parse chunk).2) (p.parse chunk).1 (k.step chunk) := by
  by_cases hawaits : k.AwaitsTag
  · exact parse_awaiting h hawaits rfl
  · exact parse_prolonging h hawaits rfl

theorem parseAll_atCuts (h : AtCuts out p k) (chunks : List Text) :
    AtCuts (addAll out (StreamParser.parseAll chunks p).2) (StreamParser.parseAll chunks p).1 (chunks.foldl Cuts.step k) := by
  induction chunks generalizing out p k with
  | nil => exact h
  | cons chunk chunks ih =>
    show AtCuts (addAll out (_ ++ _)) _ _
    rw [addAll_append]
    exact ih (parse_atCuts h chunk)

theorem atCuts_init : AtCuts [] {} ⟨[], [], []⟩ :=
  ⟨rfl, rfl, rfl, fun _ hs => absurd hs List.not_mem_nil, rfl⟩

end AtCuts

/-! ## What is held back -/

section Tidy

variable {k : Cuts} {text : Text} {out : List UIContent} {p : StreamParser}

theorem holdBack_replicate {y : Text} (hy : Settled backtick y) (n : ℕ) : holdBack (y ++ List.replicate n backtick) =
    if n = 1 ∨ n = 2 then (y, List.replicate n backtick) else (y ++ List.replicate n backtick, []) := by
  have hsuffix := fun j => replicate_suffix_iff (j := j) (k := n) hy
  have h₁ : [backtick] <:+ y ++ List.replicate n backtick ↔ 1 ≤ n := hsuffix 1
  have h₂ : [backtick, backtick] <:+ y ++ List.replicate n backtick ↔ 2 ≤ n := hsuffix 2
  have h₃ : fenceDelimiter <:+ y ++ List.replicate n backtick ↔ 3 ≤ n := hsuffix 3
  unfold holdBack
  simp only [h₁, h₂, h₃]
  rcases Nat.lt_or_ge n 3 with hlt | hge
  · interval_cases n
    · rfl
    · rw [if_neg (by omega), if_pos (by omega), if_pos (by omega)]
      exact Prod.ext (@List.rdrop_append_length _ _ [backtick]) rfl
    · rw [if_pos (by omega), if_pos (by omega)]
      exact Prod.ext (@List.rdrop_append_length _ _ [backtick, backtick]) rfl
  · rw [if_neg (by omega), if_neg (by omega), if_neg (by omega)]

/-- At most two backticks are held back, and what is left ends with a fence or without backticks. -/
theorem holdBack_spec (text : Text) : (holdBack text).1 ++ (holdBack text).2 = text ∧
    ((holdBack text).2 = [] ∨ (holdBack text).2 = [backtick] ∨ (holdBack text).2 = [backtick, backtick]) ∧
    (Settled backtick (holdBack text).1 ∨ (fenceDelimiter <:+ (holdBack text).1 ∧ (holdBack text).2 = [])) := by
  obtain ⟨y, n, rfl, hy⟩ := exists_marks backtick text
  rw [holdBack_replicate hy]
  split_ifs with hn
  · rcases hn with rfl | rfl
    · exact ⟨rfl, Or.inr (Or.inl rfl), Or.inl hy⟩
    · exact ⟨rfl, Or.inr (Or.inr rfl), Or.inl hy⟩
  · refine ⟨List.append_nil _, Or.inl rfl, ?_⟩
    rcases Nat.eq_zero_or_pos n with rfl | hpos
    · exact Or.inl (by simpa using hy)
    · exact Or.inr ⟨(replicate_suffix_iff (j := 3) hy).mpr (by omega), rfl⟩

/-- Backticks end the last part only right after a fence, and a tag line has no fence in it. -/
structure Cuts.Tidy (k : Cuts) : Prop where
  last : Settled backtick k.last ∨ (k.closed ≠ [] ∧ (k.last = [backtick] ∨ k.last = [backtick, backtick]))
  held : k.held = [] ∨ k.held = [backtick] ∨ k.held = [backtick, backtick]
  noFence : k.AwaitsTag → NoFence backtick k.last

/-- After a fence the last part is settled or nothing but backticks. -/
theorem last_of_fence (x : Text) {t : Text} (ht : Settled backtick t ∨ fenceDelimiter <:+ t) (hne : t ≠ []) :
    Settled backtick (cut backtick (x ++ t)).2 ∨
      ((cut backtick (x ++ t)).1 ≠ [] ∧ ((cut backtick (x ++ t)).2 = [backtick] ∨ (cut backtick (x ++ t)).2 = [backtick, backtick])) := by
  rcases ht with ht | ⟨w, rfl⟩
  · exact Or.inl ((settled_append ht hne).suffix (last_suffix _))
  · rw [← List.append_assoc]
    obtain ⟨hclosed, hnil | hlast⟩ := cut_append_fence (m := backtick) (x ++ w)
    · exact Or.inl (by
        show Settled backtick (cut backtick (x ++ w ++ fence backtick)).2
        rw [hnil]
        exact settled_nil)
    · exact Or.inr ⟨hclosed, hlast⟩

theorem extend_tidy (h : k.Tidy) {text held : Text} (hheld : held = [] ∨ held = [backtick] ∨ held = [backtick, backtick])
    (htext : Settled backtick text ∨ fenceDelimiter <:+ text) : (k.extend text held).Tidy := by
  by_cases hawaits : k.AwaitsTag
  · rw [extend_of_awaits hawaits]
    refine ⟨?_, hheld, fun _ => noFence_last _⟩
    by_cases hnil : text = []
    · rw [hnil, List.append_nil, cut_of_noFence (h.noFence hawaits), List.append_nil]
      exact h.last
    · rcases last_of_fence k.last htext hnil with hlast | ⟨hclosed, hlast⟩
      · exact Or.inl hlast
      · exact Or.inr ⟨List.append_ne_nil_of_right_ne_nil _ hclosed, hlast⟩
  · rw [extend_of_not_awaits hawaits]
    obtain ⟨L, s, hcut⟩ : ∃ L s, cut backtick text = (L, s) := ⟨_, _, rfl⟩
    rw [hcut]
    cases L with
    | nil =>
      have hwhole := cut_of_noFence (m := backtick) (x := text) (by unfold NoFence; rw [hcut])
      have hs : s = text := by
        rw [hcut] at hwhole
        exact congrArg Prod.snd hwhole
      subst hs
      show (⟨k.closed ++ [], k.last ++ s, held⟩ : Cuts).Tidy
      rw [List.append_nil]
      refine ⟨?_, hheld, fun hnow => absurd ⟨hnow.1, fun hline => hnow.2 (List.mem_append_left _ hline)⟩ hawaits⟩
      by_cases hnil : s = []
      · rw [hnil, List.append_nil]
        exact h.last
      · rcases htext with htext | htext
        · exact Or.inl (settled_append htext hnil)
        · obtain ⟨w, rfl⟩ := htext
          exact absurd (congrArg Prod.fst hcut) (cut_append_fence (m := backtick) w).1
    | cons first rest =>
      have hne : text ≠ [] := by
        rintro rfl
        cases hcut
      have hlast := last_of_fence [] htext hne
      rw [List.nil_append, hcut] at hlast
      refine ⟨?_, hheld, fun _ => ?_⟩
      · rcases hlast with hlast | ⟨-, hlast⟩
        · exact Or.inl hlast
        · exact Or.inr ⟨List.append_ne_nil_of_right_ne_nil _ (List.cons_ne_nil _ _), hlast⟩
      · have hno := noFence_last (m := backtick) text
        rwa [hcut] at hno

theorem step_tidy (h : k.Tidy) (chunk : Text) : (k.step chunk).Tidy := by
  obtain ⟨-, hheld, htext⟩ := holdBack_spec (k.held ++ chunk)
  exact extend_tidy h hheld (htext.imp_right And.left)

theorem tidy_init : (⟨[], [], []⟩ : Cuts).Tidy := ⟨Or.inl settled_nil, Or.inl rfl, fun _ => rfl⟩

theorem tidy_foldl (h : k.Tidy) (chunks : List Text) : (chunks.foldl Cuts.step k).Tidy := by
  induction chunks generalizing k with
  | nil => exact h
  | cons chunk chunks ih => exact ih (step_tidy h chunk)

/-! ## The end of a stream -/

theorem flush_eq {r : Reading} (h : Follows out p r) (hfence : ∀ text, p.incompleteFence = some text → text ≠ []) :
    addAll out p.flush.2 = addText r.out (p.incompleteFence.getD [] ++ p.trailingBackticks) := by
  obtain ⟨state, textBuffer, blockBuffer, trailing, fence⟩ := p
  have hout := h.out_eq
  have hpieces := h.pieces
  dsimp only at hout hpieces hfence ⊢
  have hflush : ∀ texts : List Text, (∀ s ∈ texts, s ≠ []) → ∀ q : StreamParser, q.textBuffer = textBuffer ++ texts →
      addAll out q.flushTextBuffer.2 = addText r.out texts.flatten := by
    intro texts hne q hq
    rw [flushTextBuffer_out q (by rw [hq]; exact fun s hs => (List.mem_append.mp hs).elim (hpieces s) (hne s)), hq,
      List.flatten_append, ← addText_addText, hout]
  cases fence with
  | none =>
    cases trailing with
    | nil => exact hflush [] (fun s hs => absurd hs List.not_mem_nil) _ (List.append_nil _).symm
    | cons c rest =>
      have htrailing := hflush [c :: rest] (by simp) ⟨state, textBuffer ++ [c :: rest], blockBuffer, [], none⟩ rfl
      rwa [List.flatten_singleton] at htrailing
  | some text =>
    have htext := hfence text rfl
    cases trailing with
    | nil =>
      have hnone := hflush [text] (by simpa using htext) ⟨state, textBuffer ++ [text], blockBuffer, [], none⟩ rfl
      rw [List.flatten_singleton] at hnone
      rwa [Option.getD_some, List.append_nil]
    | cons c rest =>
      have hboth := hflush [text, c :: rest] (by simpa using htext)
        ⟨state, textBuffer ++ [text] ++ [c :: rest], blockBuffer, [], none⟩ (List.append_assoc _ _ _)
      have htexts : [text, c :: rest].flatten = text ++ c :: rest := by simp
      rwa [htexts] at hboth

theorem render_eq {k : Cuts} (h : k.Tidy) : render k.closed (k.last ++ k.held) =
    if k.AwaitsTag then addText (reach k.closed).out (fenceDelimiter ++ k.last ++ k.held)
    else addText (reach (k.closed ++ [k.last])).out k.held := by
  have hline : '\n' ∉ k.held := by
    rcases h.held with hheld | hheld | hheld <;> rw [hheld] <;> decide
  unfold render
  by_cases hawaits : k.AwaitsTag
  · have hnot : '\n' ∉ k.last ++ k.held := by
      rw [List.mem_append, not_or]
      exact ⟨hawaits.2, hline⟩
    rw [if_pos hawaits, if_neg (by have := hawaits.1; omega), if_neg hnot, List.append_assoc]
  · have hblock := block_reach_concat k.closed k.last
    rw [if_neg hawaits, reach_prolong hawaits]
    generalize reach (k.closed ++ [k.last]) = r at hblock
    obtain ⟨out, block⟩ := r
    by_cases heven : k.closed.length % 2 = 0
    · rw [if_pos heven]
      have hnone : block = none := hblock.mpr heven
      rw [hnone]
      rfl
    · have hin : '\n' ∈ k.last := by
        by_contra hnot
        exact hawaits ⟨by omega, hnot⟩
      have hsettled : Settled backtick k.last := by
        rcases h.last with hlast | ⟨-, hlast | hlast⟩
        · exact hlast
        · rw [hlast] at hin
          exact absurd hin (by decide)
        · rw [hlast] at hin
          exact absurd hin (by decide)
      have hmarks : marks backtick (k.last ++ k.held) = k.held := by
        rcases h.held with hheld | hheld | hheld <;> rw [hheld]
        · exact marks_append_replicate (k := 0) hsettled
        · exact marks_append_replicate (k := 1) hsettled
        · exact marks_append_replicate (k := 2) hsettled
      rw [if_neg heven, if_pos (List.mem_append_left _ hin), hmarks]
      cases block with
      | none => exact absurd (hblock.mp rfl) heven
      | some b => rfl

/-- **The parser emits what the parts of the stream come to**, up to merging. -/
theorem merged_components (chunks : List Text) :
    merged (components chunks) = render (cuts chunks).1 (cuts chunks).2 := by
  have hcuts := parseAll_atCuts atCuts_init chunks
  have htidy := tidy_foldl tidy_init chunks
  show addAll [] (_ ++ _) = render (chunks.foldl Cuts.step ⟨[], [], []⟩).closed _
  rw [addAll_append]
  refine Eq.trans ?_ (render_eq htidy).symm
  have hfence : ∀ text, (StreamParser.parseAll chunks {}).1.incompleteFence = some text → text ≠ [] := by
    intro text htext
    rw [hcuts.fence] at htext
    split_ifs at htext
    rw [← Option.some_inj.mp htext]
    exact List.cons_ne_nil _ _
  refine (flush_eq hcuts.follows hfence).trans ?_
  rw [hcuts.fence, hcuts.held]
  split_ifs <;> rfl

end Tidy

end Waldur.Chat
