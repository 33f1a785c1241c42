/-
# Wikidown.Markdown.Block -- nodes that stand on lines of their own

A forest is laid out as a `Flow`: the parts that are finished and the draft of the
paragraph that is being written.  Inline nodes go to the draft; a block ends it and
becomes a part of its own.  On a page a blank line stands between two parts, in a list
item the parts follow each other line by line.  `render` is the Markdown of a forest.
-/
import Wikidown.Markdown.Inline
import Wikidown.Markdown.Tidy

namespace Wikidown.Markdown

set_option autoImplicit false

open Document (Node Forest DirectiveKind Admonition)

/-! ## Flows -/

/-- A layout under construction. -/
structure Flow where
  /-- The finished parts, the latest first. -/
  parts : List Text
  /-- The paragraph that is being written. -/
  draft : Draft

namespace Flow

/-- Nothing is written. -/
def start : Flow := ⟨[], []⟩

/-- Ends the paragraph that is being written; a blank one is dropped. -/
def close (f : Flow) : Flow :=
  let paragraph := Text.trim f.draft.text
  if paragraph.isEmpty then ⟨f.parts, []⟩ else ⟨escapeFenceOpeners paragraph :: f.parts, []⟩

/-- Ends the paragraph and adds a part, unless that is empty. -/
def add (f : Flow) (part : Text) : Flow :=
  if part.isEmpty then f.close else ⟨part :: f.close.parts, []⟩

/-- The parts of the finished layout, in order. -/
def texts (f : Flow) : List Text := f.close.parts.reverse

/-- The parts as a list item: each on the lines behind the one before. -/
def itemText (f : Flow) : Text := Text.joinLines f.texts

/-- The parts as a page: with a blank line between each two. -/
def pageText (f : Flow) : Text := List.intercalate ['\n', '\n'] f.texts

end Flow

/-! ## Lines -/

/-- A line behind some spaces, unless it is empty. -/
def indentLine (width : Nat) (line : Text) : Text :=
  if line.isEmpty then [] else List.replicate width ' ' ++ line

/-- Lines behind a marker: the first has the marker and the others stand under it. -/
def markLines (marker : Text) : List Text → List Text
  | [] => [Text.trimEnd marker]
  | line :: rest => (marker ++ line) :: rest.map (indentLine marker.length)

/-- A line behind a quote mark. -/
def quoteLine (line : Text) : Text := if line.isEmpty then ['>'] else '>' :: ' ' :: line

/-- A text behind quote marks. -/
def quoteText (t : Text) : Text := Text.joinLines ((Text.lines t).map quoteLine)

/-- The marker of an item: its number in an ordered list, a hyphen in any other. -/
def itemMarker (ordered : Bool) (number : Nat) : Text :=
  if ordered then Nat.toDigits 10 number ++ ['.', ' '] else ['-', ' ']

/-! ## Blocks -/

/-- A heading in one line; levels beyond one to six count as the nearest of them. -/
def headingText (level : Nat) (t : Text) : Text :=
  let pieces := ((Text.segments t).map Text.trim).filter fun p => !p.isEmpty
  if pieces.isEmpty then []
  else List.replicate (max 1 (min level 6)) '#' ++ ' ' :: List.intercalate [' '] pieces

/-- A block of code in its fence; line ends at the end of the code do not count. -/
def codeBlock (info code : Text) : Text :=
  let code := Text.dropEndWhile (fun c => c == '\n' || c == '\r') code
  let fence := codeFence code
  fence ++ info ++ '\n' :: code ++ '\n' :: fence

/-- A box: its opening, its title and its text, quoted. -/
def boxText (opening title t : Text) : Text :=
  let title : Text := if title.isEmpty then [] else " **" ++ title ++ "**"
  let body := Text.trim t
  quoteText (opening ++ title ++ (if body.isEmpty then [] else ' ' :: body))

/-- A macro on lines of its own. -/
def directiveText (language : Language) (kind : DirectiveKind) (parameters : Dictionary)
    (body : Forest) : Text :=
  match kind with
  | .code => codeBlock ((parameters.get? "language").getD []) (Forest.textContents body)
  | .admonition kind =>
      boxText (language.admonition kind) ((parameters.get? "title").getD [])
        (inlineText language body)
  | .unsupported name => language.unsupportedNotice name

/-- The lines of an item behind its marker; an empty item has its marker alone. -/
def itemLines (marker : Text) (item : Flow) : List Text :=
  markLines marker (Text.lines item.itemText)

mutual

/-- The layout with a node at its end. -/
def layNode (language : Language) : Node → Flow → Flow
  | .heading level cs, f => f.add (headingText level (inlineText language cs))
  | .paragraph cs, f => (layForest language cs f.close).close
  | .list ordered cs, f => f.add (Text.joinLines (listLines language ordered 1 2 cs))
  | .item cs, f =>
      f.add (Text.joinLines (itemLines (itemMarker false 1) (layForest language cs .start)))
  | .quote cs, f => f.add (quoteText (tidy (layForest language cs .start).pageText))
  | .rule, f => f.add "---"
  | .table _, f => f.add language.tableNotice
  | .directive kind parameters cs, f => f.add (directiveText language kind parameters cs)
  | .element _ _ cs, f => layForest language cs f
  | .text content, f => { f with draft := writeNode language (.text content) f.draft }
  | .emphasis kind cs, f => { f with draft := writeNode language (.emphasis kind cs) f.draft }
  | .codeSpan cs, f => { f with draft := writeNode language (.codeSpan cs) f.draft }
  | .link href cs, f => { f with draft := writeNode language (.link href cs) f.draft }
  | .lineBreak, f => { f with draft := writeNode language .lineBreak f.draft }
  | .malformed source, f => { f with draft := writeNode language (.malformed source) f.draft }

/-- The layout with the nodes of a forest at its end. -/
def layForest (language : Language) : List Node → Flow → Flow
  | [], f => f
  | n :: ns, f => layForest language ns (layNode language n f)

/-- The lines of a list from its item `number` on.  A list in a list stands under the item
before it, whose marker is `width` characters wide, and is no item itself; any other node
than an item is one; and blank text is none. -/
def listLines (language : Language) (ordered : Bool) (number width : Nat) :
    List Node → List Text
  | [] => []
  | .list nested cs :: ns =>
      let inner := Text.joinLines (listLines language nested 1 2 cs)
      (Text.lines inner).map (indentLine width)
        ++ listLines language ordered number width ns
  | .item cs :: ns =>
      let marker := itemMarker ordered number
      itemLines marker (layForest language cs .start)
        ++ listLines language ordered (number + 1) marker.length ns
  | n :: ns =>
      if n.isBlankText then listLines language ordered number width ns
      else
        let marker := itemMarker ordered number
        itemLines marker (layNode language n .start)
          ++ listLines language ordered (number + 1) marker.length ns

end

/-- The Markdown of a forest. -/
def render (language : Language) (nodes : Forest) : Text :=
  tidy (layForest language nodes .start).pageText

end Wikidown.Markdown
