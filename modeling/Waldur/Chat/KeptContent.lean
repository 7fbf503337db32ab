import Mathlib
import Waldur.Chat.Cuts

/-!
# Chat.KeptContent — what of a stream comes out

The parts of a stream outside of blocks come out as they are.  Of a block the content comes out once it is closed: a block
that is left open at the end yields only the backticks at its end, and a closed span without a line end yields nothing.
The contents of the components contain the contents of the parts exactly if neither occurs (`keepsContent_iff`).
-/

namespace Waldur.Chat

open Fences

/-- What follows the tag line of a block, or the text of a span that has none. -/
def body (s : Text) : Text := if '\n' ∈ s then (s.dropWhile (· ≠ '\n')).tail else s

/-- The characters of parts that belong to no tag line; the fences are between the parts. -/
def expected : List Text → Text
  | [] => []
  | [s] => s
  | s :: s' :: rest => s ++ body s' ++ expected rest

/-- The parts of a stream, in order. -/
def parts (chunks : List Text) : List Text := (cuts chunks).1 ++ [(cuts chunks).2]

/-- The contents of components one after another. -/
def contents (out : List UIContent) : Text := (out.map UIContent.content).flatten

/-- **No content is lost**: the contents of the components contain every character that is part of no fence and no tag
line, in order. -/
def KeepsContent (chunks : List Text) : Prop := (expected (parts chunks)).Sublist (contents (components chunks))

instance (chunks : List Text) : Decidable (KeepsContent chunks) := inferInstanceAs (Decidable (List.Sublist _ _))

/-- **No span without a line end is closed, and no block is left open** with more than backticks in it. -/
def Kept : List Text → Prop
  | [] => True
  | [_] => True
  | [_, s] => '\n' ∈ s → ∀ c ∈ body s, c = backtick
  | _ :: s :: t :: rest => ('\n' ∈ s ∨ s = []) ∧ Kept (t :: rest)

instance : (l : List Text) → Decidable (Kept l)
  | [] => inferInstanceAs (Decidable True)
  | [_] => inferInstanceAs (Decidable True)
  | [_, _] => inferInstanceAs (Decidable (_ → _))
  | _ :: _ :: t :: rest => @instDecidableAnd _ _ inferInstance (instDecidableKept (t :: rest))

/-- What the parts of a stream yield. -/
def yielded : List Text → Text
  | [] => []
  | [s] => s
  | [s, s'] => s ++ if '\n' ∈ s' then marks backtick s' else fenceDelimiter ++ s'
  | s :: s' :: t :: rest => s ++ (if '\n' ∈ s' then body s' else []) ++ yielded (t :: rest)

/-! ## Contents -/

section Contents

variable {out : List UIContent} {s s' t last : Text} {closed rest : List Text}

theorem contents_append (out new : List UIContent) : contents (out ++ new) = contents out ++ contents new := by
  unfold contents
  rw [List.map_append, List.flatten_append]

theorem contents_singleton (c : UIContent) : contents [c] = c.content := by
  simp [contents]

theorem contents_addPiece (out : List UIContent) (c : UIContent) : contents (addPiece out c) = contents out ++ c.content := by
  rcases List.eq_nil_or_concat out with rfl | ⟨out', d, rfl⟩
  · exact contents_singleton c
  · rw [List.concat_eq_append, addPiece_concat]
    split_ifs
    · rw [contents_append, contents_append, contents_singleton, contents_singleton, List.append_assoc]
      rfl
    · rw [contents_append, contents_singleton]

theorem contents_addAll (out new : List UIContent) : contents (addAll out new) = contents out ++ contents new := by
  induction new generalizing out with
  | nil => exact (List.append_nil _).symm
  | cons c new ih =>
    show contents (addAll (addPiece out c) new) = _
    rw [ih, contents_addPiece, List.append_assoc]
    rfl

theorem contents_addText (out : List UIContent) (s : Text) : contents (addText out s) = contents out ++ s := by
  by_cases hs : s = []
  · rw [hs, addText_nil, List.append_nil]
  · rw [addText_of_ne hs, contents_addPiece]
    rfl

/-- Merging changes no content. -/
theorem contents_merged (l : List UIContent) : contents (merged l) = contents l := contents_addAll [] l

/-! ## What parts yield -/

/-- Parts from some components on. -/
def reachFrom (out : List UIContent) : List Text → Reading
  | [] => ⟨out, none⟩
  | s :: rest => rest.foldl Reading.cross (Reading.append ⟨out, none⟩ s)

def renderFrom (out : List UIContent) (closed : List Text) (last : Text) : List UIContent :=
  if closed.length % 2 = 0 then (reachFrom out (closed ++ [last])).out
  else if '\n' ∈ last then addText (reachFrom out (closed ++ [last])).out (marks backtick last)
  else addText (reachFrom out closed).out (fenceDelimiter ++ last)

theorem reachFrom_nil (parts : List Text) : reach parts = reachFrom [] parts := by
  cases parts <;> rfl

theorem render_eq_renderFrom (closed : List Text) (last : Text) : render closed last = renderFrom [] closed last := by
  unfold render renderFrom
  rw [reachFrom_nil, reachFrom_nil]

/-- The tag and the content that a part after an opening fence gives. -/
def opening (s : Text) : Text × Text := (extractTag s).getD ("code".toList, [])

theorem opening_snd (s : Text) : (opening s).2 = if '\n' ∈ s then body s else [] := by
  unfold opening extractTag body
  split_ifs <;> rfl

/-- A closed block is behind the parts that follow it. -/
theorem reachFrom_block (out : List UIContent) (s s' : Text) {parts : List Text} (hne : parts ≠ []) :
    reachFrom out (s :: s' :: parts) =
      reachFrom (addPiece (addPiece (addText out s) (load (opening s').1)) (block (opening s').1 (opening s').2)) parts := by
  obtain ⟨t, rest, rfl⟩ := List.exists_cons_of_ne_nil hne
  rfl

theorem contents_block (tag content : Text) : contents (addPiece (addPiece (addText out s) (load tag)) (block tag content)) =
    contents out ++ s ++ content := by
  rw [contents_addPiece, contents_addPiece, contents_addText, content_block]
  show contents out ++ s ++ [] ++ content = _
  rw [List.append_nil]

theorem renderFrom_block (out : List UIContent) (s s' : Text) (closed : List Text) (last : Text) :
    renderFrom out (s :: s' :: closed) last =
      renderFrom (addPiece (addPiece (addText out s) (load (opening s').1)) (block (opening s').1 (opening s').2))
        closed last := by
  have hparity : (s :: s' :: closed).length % 2 = closed.length % 2 := by
    rw [List.length_cons, List.length_cons]
    omega
  have hne : closed ++ [last] ≠ [] := List.append_ne_nil_of_right_ne_nil _ (List.cons_ne_nil _ _)
  unfold renderFrom
  rw [hparity, List.cons_append, List.cons_append, reachFrom_block out s s' hne]
  split_ifs with heven
  · rfl
  · rfl
  · rw [reachFrom_block out s s' (ne_nil_of_odd (by omega))]

/-- The contents of what parts come to. -/
theorem contents_renderFrom (out : List UIContent) (closed : List Text) (last : Text) :
    contents (renderFrom out closed last) = contents out ++ yielded (closed ++ [last]) := by
  match closed with
  | [] => exact contents_addText out last
  | [s] =>
    show contents (if '\n' ∈ last then addText (reachFrom out [s, last]).out (marks backtick last)
      else addText (addText out s) (fenceDelimiter ++ last)) = contents out ++ (s ++ _)
    split_ifs
    · have hout : (reachFrom out [s, last]).out =
          addPiece (addText out s) (load ((extractTag last).getD ("code".toList, [])).1) := rfl
      rw [hout, contents_addText, contents_addPiece, contents_addText]
      show contents out ++ s ++ [] ++ _ = _
      rw [List.append_nil, List.append_assoc]
    · rw [contents_addText, contents_addText, List.append_assoc]
  | s :: s' :: closed =>
    have hyielded : yielded (s :: s' :: closed ++ [last]) =
        s ++ (if '\n' ∈ s' then body s' else []) ++ yielded (closed ++ [last]) := by
      cases closed <;> rfl
    rw [renderFrom_block, contents_renderFrom _ closed last, contents_block, hyielded, opening_snd]
    simp

/-- The contents of the components of a stream are what its parts yield. -/
theorem contents_components (chunks : List Text) : contents (components chunks) = yielded (parts chunks) := by
  rw [← contents_merged, merged_components, render_eq_renderFrom, contents_renderFrom]
  rfl

end Contents

/-! ## What is lost -/

section Lost

variable {s s' t : Text} {l rest : List Text}

/-- The characters that are no backticks. -/
def plain (text : Text) : ℕ := text.countP fun c => decide (c ≠ backtick)

theorem plain_append (s s' : Text) : plain (s ++ s') = plain s + plain s' := List.countP_append

theorem plain_eq_zero_iff : plain s = 0 ↔ ∀ c ∈ s, c = backtick := by
  unfold plain
  rw [List.countP_eq_zero]
  simp

theorem plain_marks (s : Text) : plain (marks backtick s) = 0 := by
  rw [plain_eq_zero_iff]
  intro c hc
  have hpos := List.mem_rtakeWhile_imp hc
  simpa using hpos

/-- How many of the expected characters, backticks apart, parts do not yield. -/
def lost : List Text → ℕ
  | [] => 0
  | [_] => 0
  | [_, s] => if '\n' ∈ s then plain (body s) else 0
  | _ :: s :: t :: rest => (if '\n' ∈ s then 0 else plain s) + lost (t :: rest)

theorem plain_expected : (l : List Text) → plain (expected l) = plain (yielded l) + lost l
  | [] => rfl
  | [_] => rfl
  | [s, s'] => by
    have hexpected : expected [s, s'] = s ++ body s' := List.append_nil _
    show plain (expected [s, s']) = plain (s ++ if '\n' ∈ s' then _ else _) + if '\n' ∈ s' then _ else _
    rw [hexpected, plain_append, plain_append]
    split_ifs with hline
    · rw [plain_marks]
      omega
    · have hbody : body s' = s' := if_neg hline
      have hfence : plain fenceDelimiter = 0 := by decide
      rw [hbody, plain_append, hfence]
      omega
  | s :: s' :: t :: rest => by
    have ih := plain_expected (t :: rest)
    show plain (s ++ body s' ++ expected (t :: rest)) =
      plain (s ++ (if '\n' ∈ s' then _ else _) ++ yielded (t :: rest)) + ((if '\n' ∈ s' then _ else _) + _)
    rw [plain_append, plain_append, plain_append, plain_append, ih]
    split_ifs with hline
    · omega
    · have hbody : body s' = s' := if_neg hline
      rw [hbody]
      show _ = plain s + 0 + _ + _
      omega

/-- A part that is nothing but backticks and has none at its end is empty. -/
theorem eq_nil_of_settled (hsettled : Settled backtick s) (h : plain s = 0) : s = [] := by
  by_contra hne
  exact settled_iff.mp hsettled hne (plain_eq_zero_iff.mp h _ (List.getLast_mem hne))

/-- The spans between two fences have no backtick at their end. -/
def SpansSettled (l : List Text) : Prop := ∀ L s R, l = L ++ s :: R → R ≠ [] → L.length % 2 = 1 → Settled backtick s

theorem SpansSettled.tail (h : SpansSettled (s :: s' :: l)) : SpansSettled l := fun L t R heq hR hL =>
  h (s :: s' :: L) t R (by rw [heq]; rfl) hR (by rw [List.length_cons, List.length_cons]; omega)

theorem kept_of_lost : (l : List Text) → SpansSettled l → lost l = 0 → Kept l
  | [], _, _ => trivial
  | [_], _, _ => trivial
  | [_, s], _, h => fun hline => by
    have hbody : (if '\n' ∈ s then plain (body s) else 0) = 0 := h
    rw [if_pos hline] at hbody
    exact plain_eq_zero_iff.mp hbody
  | s :: s' :: t :: rest, hsettled, h => by
    have hsum : (if '\n' ∈ s' then 0 else plain s') + lost (t :: rest) = 0 := h
    refine ⟨?_, kept_of_lost (t :: rest) hsettled.tail (by omega)⟩
    by_cases hline : '\n' ∈ s'
    · exact Or.inl hline
    · rw [if_neg hline] at hsum
      exact Or.inr (eq_nil_of_settled (hsettled [s] s' (t :: rest) rfl (List.cons_ne_nil _ _) rfl) (by omega))

theorem exists_body (hline : '\n' ∈ s) : ∃ before, s = before ++ ['\n'] ++ body s := by
  obtain ⟨before, after, heq, hbefore⟩ := List.eq_append_cons_of_mem hline
  have hpos : ∀ c ∈ before, decide (c ≠ '\n') = true := fun c hc => by
    have hne : c ≠ '\n' := fun heq => hbefore (by rwa [heq] at hc)
    simpa using hne
  have htail : body s = after := by
    unfold body
    rw [if_pos hline, heq, List.dropWhile_append_of_pos hpos]
    simp
  exact ⟨before, by rw [htail, List.append_assoc]; exact heq⟩

/-- A body of backticks is the backticks at the end of its part. -/
theorem marks_of_body (hline : '\n' ∈ s) (h : ∀ c ∈ body s, c = backtick) : marks backtick s = body s := by
  obtain ⟨before, hs⟩ := exists_body hline
  obtain ⟨n, hn⟩ : ∃ n, body s = List.replicate n backtick := ⟨_, List.eq_replicate_of_mem h⟩
  have hsettled : Settled backtick (before ++ ['\n']) := settled_append (by decide) (List.cons_ne_nil _ _)
  have hmarks := marks_append_replicate (k := n) hsettled
  rwa [← hn, ← hs] at hmarks

theorem expected_sublist : (l : List Text) → Kept l → (expected l).Sublist (yielded l)
  | [], _ => List.Sublist.refl _
  | [_], _ => List.Sublist.refl _
  | [s, s'], h => by
    have hexpected : expected [s, s'] = s ++ body s' := List.append_nil _
    rw [hexpected]
    show (s ++ body s').Sublist (s ++ if '\n' ∈ s' then _ else _)
    refine (List.Sublist.refl s).append ?_
    split_ifs with hline
    · rw [marks_of_body hline (h hline)]
    · have hbody : body s' = s' := if_neg hline
      rw [hbody]
      exact List.sublist_append_right _ _
  | s :: s' :: t :: rest, h => by
    show (s ++ body s' ++ expected (t :: rest)).Sublist (s ++ (if '\n' ∈ s' then _ else _) ++ yielded (t :: rest))
    refine List.Sublist.append ?_ (expected_sublist (t :: rest) h.2)
    rcases h.1 with hline | hnil
    · rw [if_pos hline]
    · rw [hnil]
      exact List.Sublist.refl _

end Lost

/-! ## The parts of a stream -/

section Streams

variable {k : Cuts} {L closed : List Text}

/-- The text that parts with fences between them are cut from. -/
def joined (closed : List Text) (last : Text) : Text := (closed.map (· ++ fenceDelimiter)).flatten ++ last

theorem joined_append (closed L : List Text) (last : Text) :
    joined (closed ++ L) last = joined closed [] ++ joined L last := by
  unfold joined
  simp

theorem joined_joinHead (x : Text) (p : List Text × Text) :
    joined (joinHead x p).1 (joinHead x p).2 = x ++ joined p.1 p.2 := by
  obtain ⟨L, r⟩ := p
  cases L <;> simp [joined, joinHead]

theorem joined_cut (x : Text) : joined (cut backtick x).1 (cut backtick x).2 = x := cut_join x

theorem joined_extend (k : Cuts) (text held : Text) :
    joined (k.extend text held).closed (k.extend text held).last = joined k.closed k.last ++ text := by
  have hlast : joined k.closed k.last = joined k.closed [] ++ k.last := by
    unfold joined
    rw [List.append_nil]
  by_cases hawaits : k.AwaitsTag
  · rw [extend_of_awaits hawaits, joined_append, joined_cut, hlast, List.append_assoc]
  · rw [extend_of_not_awaits hawaits, joined_append, joined_joinHead, joined_cut, hlast, List.append_assoc]

theorem joined_foldl (k : Cuts) (chunks : List Text) :
    joined (chunks.foldl Cuts.step k).closed ((chunks.foldl Cuts.step k).last ++ (chunks.foldl Cuts.step k).held) =
      joined k.closed k.last ++ k.held ++ chunks.flatten := by
  induction chunks generalizing k with
  | nil =>
    unfold joined
    simp
  | cons chunk chunks ih =>
    obtain ⟨happend, -, -⟩ := holdBack_spec (k.held ++ chunk)
    have hheld : (k.step chunk).held = (holdBack (k.held ++ chunk)).2 := rfl
    refine (ih (k.step chunk)).trans ?_
    unfold Cuts.step at hheld ⊢
    rw [joined_extend, hheld, List.append_assoc _ _ (holdBack (k.held ++ chunk)).2, happend, List.flatten_cons]
    simp

/-- **The parts of a stream, with fences between them, are its text.** -/
theorem joined_cuts (chunks : List Text) : joined (cuts chunks).1 (cuts chunks).2 = chunks.flatten := joined_foldl _ chunks

/-- Closed parts at odd places have no backtick at their end. -/
def OddSettled (closed : List Text) : Prop := ∀ i s, closed[i]? = some s → i % 2 = 1 → Settled backtick s

theorem oddSettled_append (h : OddSettled closed) (hL : ∀ i s, L[i]? = some s → (closed.length + i) % 2 = 1 →
    Settled backtick s) : OddSettled (closed ++ L) := by
  intro i s hi hodd
  rw [List.getElem?_append] at hi
  split_ifs at hi with hlt
  · exact h i s hi hodd
  · exact hL (i - closed.length) s hi (by rwa [Nat.add_sub_cancel' (not_lt.mp hlt)])

theorem extend_oddSettled (htidy : k.Tidy) (h : OddSettled k.closed) (text held : Text) :
    OddSettled (k.extend text held).closed := by
  by_cases hawaits : k.AwaitsTag
  · rw [extend_of_awaits hawaits]
    exact oddSettled_append h fun i s hi _ => (cut_parts _ s (List.mem_of_getElem? hi)).2
  · rw [extend_of_not_awaits hawaits]
    refine oddSettled_append h fun i s hi hodd => ?_
    have hparts := cut_parts (m := backtick) text
    rcases hcut : cut backtick text with ⟨L, r⟩
    rw [hcut] at hi hparts
    cases L with
    | nil => cases hi
    | cons first rest =>
      cases i with
      | succ i => exact (hparts s (List.mem_cons_of_mem _ (List.mem_of_getElem? hi))).2
      | zero =>
        have hs : k.last ++ first = s := Option.some_inj.mp hi
        have hfirst := (hparts first List.mem_cons_self).2
        rw [← hs]
        by_cases hnil : first = []
        · -- an opened block has a line end, so its text does not end in backticks
          have hline : '\n' ∈ k.last := by
            by_contra hnot
            exact hawaits ⟨hodd, hnot⟩
          rw [hnil, List.append_nil]
          rcases htidy.last with hsettled | ⟨-, heq | heq⟩
          · exact hsettled
          · rw [heq] at hline
            exact absurd hline (by decide)
          · rw [heq] at hline
            exact absurd hline (by decide)
        · exact settled_append hfirst hnil

theorem foldl_oddSettled (htidy : k.Tidy) (h : OddSettled k.closed) (chunks : List Text) :
    OddSettled (chunks.foldl Cuts.step k).closed := by
  induction chunks generalizing k with
  | nil => exact h
  | cons chunk chunks ih => exact ih (step_tidy htidy chunk) (extend_oddSettled htidy h _ _)

theorem spansSettled_parts (chunks : List Text) : SpansSettled (parts chunks) := by
  intro L s R heq hR hodd
  have hlist : (cuts chunks).1 ++ [(cuts chunks).2] = (L ++ s :: R.dropLast) ++ [R.getLast hR] := by
    rw [List.append_assoc, List.cons_append, List.dropLast_append_getLast]
    exact heq
  obtain ⟨hclosed, -⟩ := List.append_inj' hlist rfl
  refine foldl_oddSettled tidy_init (fun i s hi => by cases hi) chunks L.length s ?_ hodd
  have hget : (cuts chunks).1[L.length]? = some s := by
    rw [hclosed]
    simp
  exact hget

theorem kept_of_keepsContent {chunks : List Text} (h : KeepsContent chunks) : Kept (parts chunks) := by
  unfold KeepsContent at h
  rw [contents_components] at h
  have hcount : plain (expected (parts chunks)) ≤ plain (yielded (parts chunks)) := h.countP_le
  rw [plain_expected] at hcount
  exact kept_of_lost _ (spansSettled_parts chunks) (by omega)

end Streams

/-- **No content of a stream is lost exactly if every closed span has a line end, and no block is left open** with more
than backticks in it. -/
theorem keepsContent_iff (chunks : List Text) : KeepsContent chunks ↔ Kept (parts chunks) := by
  constructor
  · exact kept_of_keepsContent
  · intro h
    unfold KeepsContent
    rw [contents_components]
    exact expected_sublist _ h

/-- A span in a line is lost. -/
theorem not_keepsContent : ¬ KeepsContent ["a ```b``` c".toList] := fun h =>
  absurd (kept_of_keepsContent h) (by decide)

end Waldur.Chat
