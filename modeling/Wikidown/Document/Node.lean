/-
# Wikidown.Document.Node -- the document tree

A document is a `Forest`, a list of nodes in document order.  A `Node` is one of the
constructs that Markdown can show, or one of the things it cannot: a table and
malformed markup keep the source that they were written in, an element without a
meaning of its own keeps its name, attributes and children, and a macro of the wiki is
a `directive` with its parameters and body.

The functions here read a forest without changing it: its text (`textContents`), its
nodes in document order (`preorder`), and the parts of an element that give a macro its
meaning (`Forest.childElement?`).
-/
import Wikidown.Dictionary

namespace Wikidown.Document

set_option autoImplicit false

/-- How a span is stressed. -/
inductive Emphasis where
  | bold
  | italic
  | strikethrough
  deriving DecidableEq

/-- The boxes that a page sets its remarks in. -/
inductive Admonition where
  | info
  | warning
  deriving DecidableEq

/-- What a macro of the wiki does. -/
inductive DirectiveKind where
  /-- A block of code, verbatim. -/
  | code
  /-- A box with a remark. -/
  | admonition (kind : Admonition)
  /-- A macro that cannot be shown; its name can. -/
  | unsupported (name : Text)
  deriving DecidableEq

/-- A node of the document tree. -/
inductive Node where
  | heading (level : Nat) (children : List Node)
  | paragraph (children : List Node)
  | list (ordered : Bool) (children : List Node)
  | item (children : List Node)
  | quote (children : List Node)
  | emphasis (kind : Emphasis) (children : List Node)
  | codeSpan (children : List Node)
  | link (href : Text) (children : List Node)
  | lineBreak
  | rule
  | text (content : Text)
  /-- A table, as the source that it was written in. -/
  | table (source : Text)
  /-- Markup that is no tag, as it was written. -/
  | malformed (source : Text)
  /-- A macro of the wiki, resolved to what it does. -/
  | directive (kind : DirectiveKind) (parameters : Dictionary) (body : List Node)
  /-- A tag without a meaning of its own. -/
  | element (name : Text) (attributes : Dictionary) (children : List Node)

instance : Inhabited Node := ⟨.lineBreak⟩

/-- Nodes in document order. -/
abbrev Forest := List Node

namespace Node

/-- The nodes directly below a node. -/
def children : Node → Forest
  | heading _ cs | paragraph cs | list _ cs | item cs | quote cs | emphasis _ cs | codeSpan cs
  | link _ cs | directive _ _ cs | element _ _ cs => cs
  | lineBreak | rule | text _ | table _ | malformed _ => []

/-- The node without the nodes below it. -/
def bare : Node → Node
  | heading l _ => heading l []
  | paragraph _ => paragraph []
  | list o _ => list o []
  | item _ => item []
  | quote _ => quote []
  | emphasis k _ => emphasis k []
  | codeSpan _ => codeSpan []
  | link h _ => link h []
  | directive k p _ => directive k p []
  | element n a _ => element n a []
  | leaf => leaf

/-- A block stands on lines of its own; any other node runs along in a line. -/
def isBlock : Node → Bool
  | heading _ _ | paragraph _ | list _ _ | item _ | quote _ | rule | table _
  | directive _ _ _ => true
  | emphasis _ _ | codeSpan _ | link _ _ | lineBreak | text _ | malformed _
  | element _ _ _ => false

/-- Whether a node is text that holds nothing but white space. -/
def isBlankText : Node → Bool
  | .text content => Text.isBlank content
  | _ => false

/-- Whether a node is an element of the given name. -/
def isElement (name : Text) : Node → Bool
  | element n _ _ => n == name
  | _ => false

end Node

/-! ## Reading a whole forest -/

mutual

/-- The text of a node: its characters in document order, a line break as a line feed. -/
def Node.textContent : Node → Text
  | .text content => content
  | .lineBreak => ['\n']
  | .heading _ cs | .paragraph cs | .list _ cs | .item cs | .quote cs | .emphasis _ cs
  | .codeSpan cs | .link _ cs | .directive _ _ cs | .element _ _ cs => Forest.textContents cs
  | .rule | .table _ | .malformed _ => []

/-- The text of the nodes of a forest, one after the other. -/
def Forest.textContents : List Node → Text
  | [] => []
  | n :: ns => n.textContent ++ Forest.textContents ns

end

mutual

/-- A node and all nodes below it, in document order, each without its children. -/
def Node.preorder : Node → Forest
  | .heading l cs => .heading l [] :: Forest.preorder cs
  | .paragraph cs => .paragraph [] :: Forest.preorder cs
  | .list o cs => .list o [] :: Forest.preorder cs
  | .item cs => .item [] :: Forest.preorder cs
  | .quote cs => .quote [] :: Forest.preorder cs
  | .emphasis k cs => .emphasis k [] :: Forest.preorder cs
  | .codeSpan cs => .codeSpan [] :: Forest.preorder cs
  | .link h cs => .link h [] :: Forest.preorder cs
  | .directive k p cs => .directive k p [] :: Forest.preorder cs
  | .element n a cs => .element n a [] :: Forest.preorder cs
  | .lineBreak => [.lineBreak]
  | .rule => [.rule]
  | .text content => [.text content]
  | .table source => [.table source]
  | .malformed source => [.malformed source]

/-- All nodes of a forest, in document order, each without its children. -/
def Forest.preorder : List Node → Forest
  | [] => []
  | n :: ns => n.preorder ++ Forest.preorder ns

end

/-- The first element of the given name among the nodes of a forest. -/
def Forest.childElement? (name : Text) (nodes : Forest) : Option Node :=
  nodes.find? (Node.isElement name)

/-- The children of the first element of the given name among the nodes of a forest. -/
def Forest.childBody? (name : Text) (nodes : Forest) : Option Forest :=
  (Forest.childElement? name nodes).map Node.children

theorem Node.preorder_eq (n : Node) : n.preorder = n.bare :: Forest.preorder n.children := by
  cases n <;> rfl

theorem Forest.textContents_append (a b : Forest) :
    Forest.textContents (a ++ b) = Forest.textContents a ++ Forest.textContents b := by
  induction a with
  | nil => rfl
  | cons n ns ih => simp [Forest.textContents, ih]

theorem Forest.preorder_append (a b : Forest) :
    Forest.preorder (a ++ b) = Forest.preorder a ++ Forest.preorder b := by
  induction a with
  | nil => rfl
  | cons n ns ih => simp [Forest.preorder, ih]

end Wikidown.Document
