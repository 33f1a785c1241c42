/-
# Wikidown.Proofs.Transparency -- elements without a meaning leave no trace

An element that means nothing to the wiki is written as what is in it.  `Opens inList f g`
says that `g` is `f` with one element opened up, at any depth: its children stand in its
place.  The one place where that would show is directly below a list, where every node is an
item of its own; `inList` says that the forest stands there.

The writer goes over a forest in four ways: as a layout, as text in a line, as the items of a
list and as plain text.  `Alike` says that two forests cannot be told apart by the ways that
are open to them, and opening an element up is kept by every node above it
(`Alike.node`).  The main statement is `render_of_opens`.
-/
import Wikidown.Proofs.KeptText

namespace Wikidown

set_option autoImplicit false

namespace Document

/-! ## Opening an element up -/

/-- Whether a node is a list. -/
def Node.isList : Node → Bool
  | .list _ _ => true
  | _ => false

/-- The node with other nodes below it; a leaf has none. -/
def Node.withChildren : Node → Forest → Node
  | .heading level _, cs => .heading level cs
  | .paragraph _, cs => .paragraph cs
  | .list ordered _, cs => .list ordered cs
  | .item _, cs => .item cs
  | .quote _, cs => .quote cs
  | .emphasis kind _, cs => .emphasis kind cs
  | .codeSpan _, cs => .codeSpan cs
  | .link href _, cs => .link href cs
  | .directive kind parameters _, cs => .directive kind parameters cs
  | .element name attributes _, cs => .element name attributes cs
  | leaf, _ => leaf

/-- The second forest is the first with one of its elements replaced by the children of that
element.  `inList` says that the forest is the children of a list; these are left as they are. -/
inductive Forest.Opens : Bool → Forest → Forest → Prop
  /-- The element is the first node. -/
  | here (name : Text) (attributes : Dictionary) (cs ns : Forest) :
      Opens false (.element name attributes cs :: ns) (cs ++ ns)
  /-- The element stands below the first node. -/
  | inside {inList : Bool} (n : Node) {cs : Forest} (ns : Forest)
      (deeper : Opens n.isList n.children cs) : Opens inList (n :: ns) (n.withChildren cs :: ns)
  /-- The element stands behind the first node. -/
  | behind {inList : Bool} (n : Node) {ns ns' : Forest} (later : Opens inList ns ns') :
      Opens inList (n :: ns) (n :: ns')

end Document

namespace Markdown

open Document (Node Forest)

/-! ## Forests that cannot be told apart -/

/-- The writer cannot tell two forests apart, be they the children of a list (`inList`) or of
any other node. -/
structure Alike (language : Language) (inList : Bool) (a b : Forest) : Prop where
  write : ∀ out, writeForest language a out = writeForest language b out
  text : Forest.textContents a = Forest.textContents b
  lay : inList = false → ∀ f, layForest language a f = layForest language b f
  items : inList = true → ∀ ordered number width,
    listLines language ordered number width a = listLines language ordered number width b

/-- The writer cannot tell two nodes apart. -/
structure NodeAlike (language : Language) (m n : Node) : Prop where
  write : ∀ out, writeNode language m out = writeNode language n out
  text : m.textContent = n.textContent
  lay : ∀ f, layNode language m f = layNode language n f
  item : ∀ ns ordered number width, listLines language ordered number width (m :: ns) =
    listLines language ordered number width (n :: ns)

variable {language : Language} {a b cs : Forest} {n : Node}

/-- An element is written as what is in it. -/
theorem alike_element (name : Text) (attributes : Dictionary) (cs ns : Forest) :
    Alike language false (.element name attributes cs :: ns) (cs ++ ns) where
  write out := by
    rw [writeForest_append]
    rfl
  text := by
    rw [Forest.textContents_append]
    rfl
  lay _ f := by
    rw [layForest_append]
    rfl
  items inList := by cases inList

/-- In a list, a node that is neither an item nor a list shows by its layout alone. -/
theorem listLines_congr {m : Node} (notList : ∀ o cs, m ≠ .list o cs ∧ n ≠ .list o cs)
    (notItem : ∀ cs, m ≠ .item cs ∧ n ≠ .item cs) (blank : m.isBlankText = n.isBlankText)
    (lay : ∀ f, layNode language m f = layNode language n f) (ns : Forest) (ordered : Bool)
    (number width : Nat) : listLines language ordered number width (m :: ns) =
      listLines language ordered number width (n :: ns) := by
  rw [listLines_other ns (fun o cs => (notList o cs).1) fun cs => (notItem cs).1,
    listLines_other ns (fun o cs => (notList o cs).2) fun cs => (notItem cs).2, blank, lay]

/-- What a node writes in a line depends on what the nodes below it write, and on their text. -/
theorem writeNode_withChildren (n : Node)
    (write : ∀ out, writeForest language n.children out = writeForest language cs out)
    (text : Forest.textContents n.children = Forest.textContents cs) (out : Draft) :
    writeNode language n out = writeNode language (n.withChildren cs) out := by
  cases n with
  | directive kind parameters inner =>
      cases kind with
      | code => simp only [Node.children, Node.withChildren, writeNode] at text ⊢; rw [text]
      | admonition kind => exact write out
      | unsupported name => rfl
  | codeSpan inner => simp only [Node.children, Node.withChildren, writeNode] at text ⊢; rw [text]
  | element name attributes inner => exact write out
  | lineBreak | rule | text content | table source | malformed source => rfl
  | heading | paragraph | list | item | quote | emphasis | link =>
      simp only [Node.children, Node.withChildren, writeNode] at write ⊢
      rw [write]

theorem textContent_withChildren (n : Node)
    (text : Forest.textContents n.children = Forest.textContents cs) :
    n.textContent = (n.withChildren cs).textContent := by
  cases n <;> first | rfl | exact text

/-- How a node is laid out depends on the same of the nodes below it, or on their items. -/
theorem layNode_withChildren (n : Node) (h : Alike language n.isList n.children cs) (f : Flow) :
    layNode language n f = layNode language (n.withChildren cs) f := by
  have line : inlineText language n.children = inlineText language cs :=
    congrArg Draft.text (h.write [])
  cases n with
  | heading level inner =>
      simp only [Node.children, Node.withChildren, layNode] at line ⊢
      rw [line]
  | paragraph inner => exact congrArg Flow.close (h.lay rfl f.close)
  | list ordered inner =>
      have same := h.items rfl ordered 1 2
      simp only [Node.children, Node.withChildren, layNode] at same ⊢
      rw [same]
  | item inner | quote inner =>
      have same := h.lay rfl .start
      simp only [Node.children, Node.withChildren, layNode] at same ⊢
      rw [same]
  | directive kind parameters inner =>
      have text := h.text
      simp only [Node.children, Node.withChildren, layNode] at line text ⊢
      cases kind with
      | code => simp only [directiveText, text]
      | admonition kind => simp only [directiveText, line]
      | unsupported name => rfl
  | element name attributes inner => exact h.lay rfl f
  | emphasis | codeSpan | link =>
      have same := writeNode_withChildren _ h.write h.text f.draft
      simp only [Node.withChildren, layNode] at same ⊢
      rw [same]
  | lineBreak | rule | text content | table source | malformed source => rfl

/-- The step: what the writer cannot tell apart below a node makes no difference to the node. -/
theorem Alike.node (h : Alike language n.isList n.children cs) :
    NodeAlike language n (n.withChildren cs) where
  write := writeNode_withChildren n h.write h.text
  text := textContent_withChildren n h.text
  lay := layNode_withChildren n h
  item := by
    intro ns ordered number width
    have lay := layNode_withChildren n h
    cases n with
    | list nested inner =>
        have same := h.items rfl nested 1 2
        simp only [Node.children, Node.withChildren, listLines] at same ⊢
        rw [same]
    | item inner =>
        have same := h.lay rfl .start
        simp only [Node.children, Node.withChildren, listLines] at same ⊢
        rw [same]
    | _ =>
        apply listLines_congr
        · simp [Node.withChildren]
        · simp [Node.withChildren]
        · rfl
        · exact lay

/-- The step for the first node of a forest. -/
theorem NodeAlike.cons {m : Node} (h : NodeAlike language m n) (inList : Bool) (ns : Forest) :
    Alike language inList (m :: ns) (n :: ns) where
  write := by
    intro out
    rw [writeForest, h.write, writeForest]
  text := by rw [Forest.textContents, h.text, Forest.textContents]
  lay := by
    intro _ f
    rw [layForest, h.lay, layForest]
  items := fun _ => h.item ns

/-- The step for the nodes behind the first. -/
theorem Alike.behind {inList : Bool} (h : Alike language inList a b) (n : Node) :
    Alike language inList (n :: a) (n :: b) where
  write := by
    intro out
    exact h.write (writeNode language n out)
  text := by rw [Forest.textContents, h.text, Forest.textContents]
  lay := by
    intro loose f
    exact h.lay loose (layNode language n f)
  items := by
    intro listed ordered number width
    have same := h.items listed
    cases n with
    | list nested inner => simp only [listLines, same]
    | item inner => simp only [listLines, same]
    | _ =>
        rw [listLines_other a (by simp) (by simp), listLines_other b (by simp) (by simp)]
        simp only [same]

/-- The run: an element that is opened up at any depth leaves no trace. -/
theorem alike_of_opens {inList : Bool} (h : Forest.Opens inList a b) :
    Alike language inList a b := by
  induction h with
  | here name attributes cs ns => exact alike_element name attributes cs ns
  | inside n ns _ ih => exact ih.node.cons _ ns
  | behind n _ ih => exact ih.behind n

/-! ## Pages -/

/-- **Elements are transparent.**  The Markdown of a forest is the same when one of its
elements, at any depth but not directly below a list, is replaced by its children. -/
theorem render_of_opens (language : Language) (h : Forest.Opens false a b) :
    render language a = render language b := by
  have alike : Alike language false a b := alike_of_opens h
  rw [render, render, alike.lay rfl .start]

/-- A numbered list whose item quotes an element, inside another element. -/
def nestedLayout : Forest :=
  [.list true [.item [.text "a", .element "div" .empty [.quote
    [.text "b ", .element "span" .empty [.emphasis .bold [.text "c"], .paragraph [.text "d"]]]]]]]

/-- The same with the inner element opened up. -/
def openedLayout : Forest :=
  [.list true [.item [.text "a", .element "div" .empty [.quote
    [.text "b ", .emphasis .bold [.text "c"], .paragraph [.text "d"]]]]]]

theorem render_nestedLayout : Forest.Opens false nestedLayout openedLayout ∧
    render .english nestedLayout = render .english openedLayout ∧
    render .english openedLayout = "1. a\n   > b **c**\n   >\n   > d".toList := by
  have opens : Forest.Opens false nestedLayout openedLayout :=
    .inside (.list true _) _ <| .inside (.item _) _ <| .behind _ <|
      .inside (.element "div" .empty _) _ <| .inside (.quote _) _ <| .behind _ <|
        .here "span" .empty _ _
  exact ⟨opens, render_of_opens .english opens, by decide⟩

/-- Directly below a list an element is an item, and opening it up shows. -/
example :
    render .english [.list false [.element "div" .empty [.item [.text "a"], .item [.text "b"]]]] =
      "- - a\n  - b".toList ∧
    render .english [.list false [.item [.text "a"], .item [.text "b"]]] = "- a\n- b".toList := by
  decide

end Markdown

end Wikidown
