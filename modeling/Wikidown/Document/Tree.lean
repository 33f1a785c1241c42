/-
# Wikidown.Document.Tree -- from tokens to a forest

`Forest.ofTokens` builds a forest from any token sequence.  It keeps the elements that
are open, innermost first.  An end tag closes through the nearest open element of its
name, and with it whatever is still open inside; an end tag without such an element is
dropped; and the end of the sequence closes everything.

A table is one leaf that keeps its source: from its start tag to the matching end tag,
tables inside it counted, tokens are not looked at but collected.
-/
import Wikidown.Document.Tag
import Wikidown.Markup.Token

namespace Wikidown.Document

set_option autoImplicit false

open Wikidown.Markup (Token)

/-- An element whose end is not reached yet. -/
structure OpenElement where
  name : Text
  attributes : Dictionary
  /-- The children so far, the latest first. -/
  children : Forest

/-- The node of an element that ends here. -/
def OpenElement.node (e : OpenElement) : Node := Tag.node e.name e.attributes e.children.reverse

/-- A table whose end is not reached yet. -/
structure OpenTable where
  /-- The slices so far, the latest first. -/
  slices : List Text
  /-- The number of tables that are open inside it. -/
  inner : Nat

/-- The source of the table so far. -/
def OpenTable.source (t : OpenTable) : Text := t.slices.reverse.flatten

/-- A forest under construction. -/
structure Builder where
  /-- The finished trees, the latest first. -/
  roots : Forest
  /-- The open elements, innermost first. -/
  opened : List OpenElement
  /-- The table that tokens are collected for, if one is open. -/
  table? : Option OpenTable

namespace Builder

/-- Nothing is built and nothing is open. -/
def start : Builder := ⟨[], [], none⟩

/-- A finished node goes to the innermost open element, or to the roots. -/
def attach (node : Node) (b : Builder) : Builder :=
  match b.opened with
  | [] => { b with roots := node :: b.roots }
  | e :: outer => { b with opened := { e with children := node :: e.children } :: outer }

/-- Ends the innermost open element. -/
def closeInnermost (b : Builder) : Builder :=
  match b.opened with
  | [] => b
  | e :: outer => attach e.node { b with opened := outer }

/-- Ends the given number of open elements, innermost first. -/
def closeMany : Nat → Builder → Builder
  | 0, b => b
  | n + 1, b => closeMany n b.closeInnermost

/-- Closes through the nearest open element of a name, if there is one. -/
def close (name : Text) (b : Builder) : Builder :=
  match b.opened.findIdx? (·.name == name) with
  | some above => b.closeMany (above + 1)
  | none => b

/-- Ends the open table. -/
def closeTable (b : Builder) : Builder :=
  match b.table? with
  | some t => attach (.table t.source) { b with table? := none }
  | none => b

/-- A token while a table is open: its slice is collected, and table tags are counted. -/
def collect (token : Token) (t : OpenTable) (b : Builder) : Builder :=
  let slices := token.source :: t.slices
  match token with
  | .startTag name _ _ =>
      if Tag.ofName name = .table then { b with table? := some ⟨slices, t.inner + 1⟩ }
      else { b with table? := some ⟨slices, t.inner⟩ }
  | .endTag name _ =>
      if Tag.ofName name = .table then
        match t.inner with
        | 0 => closeTable { b with table? := some ⟨slices, 0⟩ }
        | n + 1 => { b with table? := some ⟨slices, n⟩ }
      else { b with table? := some ⟨slices, t.inner⟩ }
  | _ => { b with table? := some ⟨slices, t.inner⟩ }

/-- Text is a node of its own unless it is empty. -/
def attachText (content : Text) (b : Builder) : Builder :=
  if content.isEmpty then b else b.attach (.text content)

/-- A token while no table is open. -/
def add (token : Token) (b : Builder) : Builder :=
  match token with
  | .text content _ | .cdata content _ => b.attachText content
  | .malformed source => b.attach (.malformed source)
  | .startTag name attributes source =>
      if Tag.ofName name = .table then { b with table? := some ⟨[source], 0⟩ }
      else if (Tag.ofName name).isVoid then b.attach (Tag.node name attributes [])
      else { b with opened := ⟨name, attributes, []⟩ :: b.opened }
  | .emptyTag name attributes source =>
      if Tag.ofName name = .table then b.attach (.table source)
      else b.attach (Tag.node name attributes [])
  | .endTag name _ => b.close name

/-- The next token. -/
def push (b : Builder) (token : Token) : Builder :=
  match b.table? with
  | some t => b.collect token t
  | none => b.add token

/-- The end of the tokens closes the open table and every open element. -/
def finish (b : Builder) : Forest :=
  let b := b.closeTable
  (b.closeMany b.opened.length).roots.reverse

end Builder

/-- The forest that a token sequence describes. -/
def Forest.ofTokens (tokens : List Token) : Forest :=
  (tokens.foldl Builder.push Builder.start).finish

end Wikidown.Document
