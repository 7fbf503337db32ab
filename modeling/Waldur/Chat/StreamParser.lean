import Mathlib
import Waldur.Lib.Fences
import Waldur.Lib.PythonFractions
import Waldur.Lib.PythonText

/-!
# Chat.StreamParser — markdown that arrives in chunks

`StreamParser` turns chunks of text into UI components: plain text becomes markdown, text between fences a block.  The
parser holds back up to two backticks at the end of a chunk, and a fence whose tag line has not ended.
-/

namespace Waldur.Chat

open Fences PythonText

abbrev Text := List Char

/-! ## The UI registry -/

/-- A registered component; the fields that the parser fills are all strings. -/
structure UIComponent where
  key : String
  required : List String
  properties : List String
  lexicalTriggers : List Text := []
  isDefaultForCode : Bool := false
  hasLoadingState : Bool := false
deriving DecidableEq

structure UIContent where
  key : String
  data : List (String × Text)
deriving DecidableEq

/-- The components that the parser asks for. -/
def uiRegistry : List UIComponent :=
  [{ key := "markdown", required := ["c"], properties := ["c"] },
   { key := "code", required := ["c", "t"], properties := ["c", "t"], lexicalTriggers := [[]], isDefaultForCode := true,
     hasLoadingState := true },
   { key := "mermaid", required := ["c"], properties := ["c"], lexicalTriggers := ["mermaid".toList],
     hasLoadingState := true },
   { key := "load", required := ["t"], properties := ["t"] }]

/-- `get`. -/
def getComponent (key : String) : Option UIComponent := uiRegistry.find? fun component => component.key == key

/-- `get_by_trigger`; a trigger is compared in lower case. -/
def getByTrigger (tag : Text) : Option UIComponent :=
  (uiRegistry.find? fun component => component.lexicalTriggers.contains (tag.map Char.toLower)).or
    (uiRegistry.find? fun component => component.isDefaultForCode)

/-- `create_content`; `none` is a `ValueError`. -/
def createContent (key : String) (data : List (String × Text)) : Option UIContent :=
  (getComponent key).bind fun component =>
    let filtered := data.filter fun field => component.properties.contains field.1
    if component.required.all fun name => (filtered.lookup name).isSome then some ⟨component.key, filtered⟩ else none

/-- `create_content_from_block` of the content and the tag of a block. -/
def createContentFromBlock (content tag : Text) : Option UIContent :=
  (getByTrigger tag).bind fun component => createContent component.key [("c", content), ("t", tag)]

/-! ## The parser -/

/-- `_state`, with `_current_block_tag`. -/
inductive ParserState
  | outsideBlock
  | insideBlock (tag : Text)
deriving DecidableEq

structure StreamParser where
  state : ParserState := .outsideBlock
  textBuffer : List Text := []
  blockBuffer : List Text := []
  trailingBackticks : Text := []
  incompleteFence : Option Text := none
deriving DecidableEq

abbrev backtick : Char := Char.ofNat 96

def fenceDelimiter : Text := fence backtick

def minChunkSize : ℕ := 50

/-- `_extract_tag_from_fence_content`; `none` needs more data. -/
def extractTag (content : Text) : Option (Text × Text) :=
  if '\n' ∈ content then
    let tag := strip isBlank (content.takeWhile (· ≠ '\n'))
    some (if tag = [] then "code".toList else tag, (content.dropWhile (· ≠ '\n')).tail)
  else none

/-- What is kept of a text, and the backticks at its end that may become a fence. -/
def holdBack (text : Text) : Text × Text :=
  if [backtick, backtick] <:+ text ∧ ¬ fenceDelimiter <:+ text then (text.rdrop 2, [backtick, backtick])
  else if [backtick] <:+ text ∧ ¬ [backtick, backtick] <:+ text then (text.rdrop 1, [backtick])
  else (text, [])

/-- A generator that goes on after another one. -/
def andThen (r : StreamParser × List UIContent) (f : StreamParser → StreamParser × List UIContent) :
    StreamParser × List UIContent :=
  ((f r.1).1, r.2 ++ (f r.1).2)

namespace StreamParser

variable (p : StreamParser)

/-- `_append_to_current_buffer`. -/
def appendToCurrentBuffer (segment : Text) : StreamParser :=
  if segment = [] then p
  else
    match p.state with
    | .insideBlock _ => { p with blockBuffer := p.blockBuffer ++ [segment] }
    | .outsideBlock => { p with textBuffer := p.textBuffer ++ [segment] }

/-- `_flush_text_buffer`. -/
def flushTextBuffer : StreamParser × List UIContent :=
  if p.textBuffer = [] then (p, [])
  else ({ p with textBuffer := [] }, (createContent "markdown" [("c", p.textBuffer.flatten)]).toList)

/-- `_flush_text_if_threshold_met`. -/
def flushTextIfThresholdMet : StreamParser × List UIContent :=
  match p.state with
  | .insideBlock _ => (p, [])
  | .outsideBlock =>
    if minChunkSize ≤ (p.textBuffer.map List.length).sum then p.flushTextBuffer else (p, [])

/-- `_render_block_content`, with the code block as a fallback. -/
def renderBlockContent (tag content : Text) : List UIContent :=
  ((createContentFromBlock content tag).or (createContent "code" [("c", content), ("t", tag)])).toList

/-- `_emit_loading_indicator`. -/
def emitLoadingIndicator (tag : Text) : List UIContent :=
  match getByTrigger tag with
  | none => []
  | some component =>
    if component.hasLoadingState then (createContent "load" [("t", component.key.toList)]).toList else []

/-- `_open_block`. -/
def openBlock (tag initialContent : Text) : StreamParser × List UIContent :=
  andThen p.flushTextBuffer fun p =>
    ({ p with state := .insideBlock tag, blockBuffer := [initialContent] }, emitLoadingIndicator tag)

/-- `_close_current_block`. -/
def closeCurrentBlock (tag : Text) : StreamParser × List UIContent :=
  ({ p with state := .outsideBlock, blockBuffer := [] }, renderBlockContent tag p.blockBuffer.flatten)

/-- `_handle_fence_crossing`. -/
def handleFenceCrossing (segment : Text) (isLastSegment : Bool) : StreamParser × List UIContent :=
  match p.state with
  | .insideBlock tag =>
    let (p, out) := p.closeCurrentBlock tag
    (if segment = [] then p else { p with textBuffer := p.textBuffer ++ [segment] }, out)
  | .outsideBlock =>
    match extractTag segment with
    | some (tag, content) => p.openBlock tag content
    | none =>
      if isLastSegment then ({ p with incompleteFence := some (fenceDelimiter ++ segment) }, [])
      else p.openBlock "code".toList []

/-- The loop of `parse` over the segments after the first one. -/
def handleFenceCrossings : List Text → StreamParser → StreamParser × List UIContent
  | [], p => (p, [])
  | segment :: rest, p => andThen (p.handleFenceCrossing segment rest.isEmpty) (handleFenceCrossings rest)

/-- `_reconstruct_from_trailing_backticks`, and the incomplete fence before the text. -/
def reconstruct (chunk : Text) : StreamParser × Text :=
  let (text, trailing) := holdBack (p.trailingBackticks ++ chunk)
  ({ p with trailingBackticks := trailing, incompleteFence := none }, p.incompleteFence.getD [] ++ text)

/-- `parse`. -/
def parse (chunk : Text) : StreamParser × List UIContent :=
  let (p, text) := p.reconstruct chunk
  match segments backtick text with
  | [] => (p, [])
  | first :: rest =>
    andThen (handleFenceCrossings rest (p.appendToCurrentBuffer first)) flushTextIfThresholdMet

/-- `flush`. -/
def flush : StreamParser × List UIContent :=
  let p := match p.incompleteFence with
    | some text => { p with textBuffer := p.textBuffer ++ [text], incompleteFence := none }
    | none => p
  let p := if p.trailingBackticks = [] then p
    else { p with textBuffer := p.textBuffer ++ [p.trailingBackticks], trailingBackticks := [] }
  p.flushTextBuffer

/-- Chunk after chunk. -/
def parseAll : List Text → StreamParser → StreamParser × List UIContent
  | [], p => (p, [])
  | chunk :: chunks, p => andThen (p.parse chunk) (parseAll chunks)

end StreamParser

/-- The components of a stream: the chunks to a fresh parser, then `flush`. -/
def components (chunks : List Text) : List UIContent := (andThen (StreamParser.parseAll chunks {}) StreamParser.flush).2

/-! ## Merging -/

/-- The content of a component. -/
def UIContent.content (c : UIContent) : Text := (c.data.lookup "c").getD []

def UIContent.isText (c : UIContent) : Bool := c.key == "markdown"

def markdown (text : Text) : UIContent := ⟨"markdown", [("c", text)]⟩

/-- A component after others; plain text joins the plain text before it. -/
def addPiece (out : List UIContent) (c : UIContent) : List UIContent :=
  match out.getLast? with
  | some d => if d.isText && c.isText then out.dropLast ++ [markdown (d.content ++ c.content)] else out ++ [c]
  | none => [c]

/-- The components with adjacent pieces of plain text merged. -/
def merged (l : List UIContent) : List UIContent := l.foldl addPiece []

/-! ## The registered components -/

/-- The component that a block of a tag is rendered with. -/
def blockKey (tag : Text) : String := if tag.map Char.toLower = "mermaid".toList then "mermaid" else "code"

/-- A finished block. -/
def block (tag content : Text) : UIContent :=
  if tag.map Char.toLower = "mermaid".toList then ⟨"mermaid", [("c", content)]⟩
  else ⟨"code", [("c", content), ("t", tag)]⟩

/-- A block that is being read. -/
def load (tag : Text) : UIContent := ⟨"load", [("t", (blockKey tag).toList)]⟩

theorem createContent_markdown (text : Text) : createContent "markdown" [("c", text)] = some (markdown text) := rfl

theorem findTrigger_eq_none {lower : Text} (hmermaid : lower ≠ "mermaid".toList) (hempty : lower ≠ []) :
    (uiRegistry.find? fun component => component.lexicalTriggers.contains lower) = none := by
  have hnot : ¬ lower = ['m', 'e', 'r', 'm', 'a', 'i', 'd'] := hmermaid
  simp [uiRegistry, hempty, hnot]

theorem renderBlockContent_eq (tag content : Text) : StreamParser.renderBlockContent tag content = [block tag content] := by
  unfold StreamParser.renderBlockContent createContentFromBlock getByTrigger block
  by_cases hmermaid : tag.map Char.toLower = "mermaid".toList
  · rw [hmermaid, if_pos rfl]
    rfl
  · rw [if_neg hmermaid]
    by_cases hempty : tag.map Char.toLower = []
    · rw [hempty]
      rfl
    · rw [findTrigger_eq_none hmermaid hempty]
      rfl

theorem emitLoadingIndicator_eq (tag : Text) : StreamParser.emitLoadingIndicator tag = [load tag] := by
  unfold StreamParser.emitLoadingIndicator getByTrigger load blockKey
  by_cases hmermaid : tag.map Char.toLower = "mermaid".toList
  · rw [hmermaid, if_pos rfl]
    rfl
  · rw [if_neg hmermaid]
    by_cases hempty : tag.map Char.toLower = []
    · rw [hempty]
      rfl
    · rw [findTrigger_eq_none hmermaid hempty]
      rfl

theorem isText_block (tag content : Text) : (block tag content).isText = false := by
  unfold block
  split_ifs <;> rfl

theorem content_block (tag content : Text) : (block tag content).content = content := by
  unfold block
  split_ifs <;> rfl

end Waldur.Chat
