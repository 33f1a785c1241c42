/-
# Wikidown.Document.Tag -- what tag names mean

Storage markup writes most of a page in tags that have a meaning of their own; every
other tag is `generic`.  `Tag.node` makes the node for a tag from its name, attributes
and children.
-/
import Wikidown.Document.Node

namespace Wikidown.Document

set_option autoImplicit false

/-- The meaning of a tag name. -/
inductive Tag where
  | heading (level : Nat)
  | paragraph
  | list (ordered : Bool)
  | item
  | quote
  | emphasis (kind : Emphasis)
  | codeSpan
  | link
  | lineBreak
  | rule
  | table
  | generic
  deriving DecidableEq

namespace Tag

/-- The meaning of a tag name in lower case. -/
def ofName (name : Text) : Tag :=
  match String.ofList name with
  | "h1" => heading 1
  | "h2" => heading 2
  | "h3" => heading 3
  | "h4" => heading 4
  | "h5" => heading 5
  | "h6" => heading 6
  | "p" => paragraph
  | "ul" => list false
  | "ol" => list true
  | "li" => item
  | "blockquote" => quote
  | "strong" | "b" => emphasis .bold
  | "em" | "i" => emphasis .italic
  | "s" | "del" | "strike" => emphasis .strikethrough
  | "code" => codeSpan
  | "a" => link
  | "br" => lineBreak
  | "hr" => rule
  | "table" => table
  | _ => generic

/-- A void tag has no content, so its start tag opens nothing. -/
def isVoid : Tag → Bool
  | lineBreak | rule => true
  | _ => false

/-- The node for a tag.  A link leads to its `href`, which may be empty. -/
def node (name : Text) (attributes : Dictionary) (children : Forest) : Node :=
  match ofName name with
  | heading level => .heading level children
  | paragraph => .paragraph children
  | list ordered => .list ordered children
  | item => .item children
  | quote => .quote children
  | emphasis kind => .emphasis kind children
  | codeSpan => .codeSpan children
  | link => .link ((attributes.get? "href").getD []) children
  | lineBreak => .lineBreak
  | rule => .rule
  | table | generic => .element name attributes children

end Tag

end Wikidown.Document
