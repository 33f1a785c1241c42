/-
# Wikidown.Proofs.Linearization -- a forest and the tokens that it is written as

A forest is written as tokens from left to right: a leaf as one token, any other node as
its start tag, what is inside it, and its end tag.  `Linear forest tokens` says that
`tokens` is such a writing; where a node has several tags, any of them will do.  Building
undoes it: `Forest.ofTokens tokens` is the forest again (`ofTokens_of_linear`).

The run is `foldl_push_of_linear`: whatever is open already, the tokens of a forest attach
its nodes to the innermost open element and leave everything else as it is.
-/
import Wikidown.Document.Tree

namespace Wikidown.Document

set_option autoImplicit false

open Wikidown.Markup (Token)

/-! ## Tags and their nodes -/

/-- The names of the tags that have a meaning of their own. -/
def tagNames : List Text :=
  ["h1", "h2", "h3", "h4", "h5", "h6", "p", "ul", "ol", "li", "blockquote", "strong", "b", "em",
    "i", "s", "del", "strike", "code", "a", "br", "hr", "table"]

/-- The digits in the names of headings, with the levels. -/
def levelDigits : List (Char × Nat) := [('1', 1), ('2', 2), ('3', 3), ('4', 4), ('5', 5), ('6', 6)]

/-- The names of the tags that stress what is inside them. -/
def emphasisNames : List (Text × Emphasis) :=
  [("strong", .bold), ("b", .bold), ("em", .italic), ("i", .italic), ("s", .strikethrough),
    ("del", .strikethrough), ("strike", .strikethrough)]

/-- A tag's name and attributes, and the node that it makes of the nodes inside it. -/
inductive Wraps : Text → Dictionary → (Forest → Node) → Prop where
  | heading {digit : Char} {level : Nat} (attributes : Dictionary)
      (known : (digit, level) ∈ levelDigits) : Wraps ['h', digit] attributes (.heading level)
  | paragraph (attributes : Dictionary) : Wraps "p" attributes .paragraph
  | unordered (attributes : Dictionary) : Wraps "ul" attributes (.list false)
  | ordered (attributes : Dictionary) : Wraps "ol" attributes (.list true)
  | item (attributes : Dictionary) : Wraps "li" attributes .item
  | quote (attributes : Dictionary) : Wraps "blockquote" attributes .quote
  | emphasis {name : Text} {kind : Emphasis} (attributes : Dictionary)
      (known : (name, kind) ∈ emphasisNames) : Wraps name attributes (.emphasis kind)
  | codeSpan (attributes : Dictionary) : Wraps "code" attributes .codeSpan
  | link {href : Text} {attributes : Dictionary}
      (leads : (attributes.get? "href").getD [] = href) : Wraps "a" attributes (.link href)
  | element {name : Text} (attributes : Dictionary) (other : name ∉ tagNames) :
      Wraps name attributes (.element name attributes)

/-- A tag of a name without a meaning of its own is generic. -/
theorem ofName_eq_generic {name : Text} (other : name ∉ tagNames) : Tag.ofName name = .generic := by
  have ne : ∀ s : String, s.toList ∈ tagNames → String.ofList name ≠ s := by
    rintro s known rfl
    exact other (by simpa using known)
  unfold Tag.ofName
  split
  case h_24 => rfl
  all_goals next eq => exact absurd eq (ne _ (by decide))

/-- The tags of the nodes that hold others open an element, and the element becomes the node. -/
theorem node_of_wraps {name : Text} {attributes : Dictionary} {wrap : Forest → Node}
    (h : Wraps name attributes wrap) :
    Tag.ofName name ≠ .table ∧ (Tag.ofName name).isVoid = false ∧
      ∀ cs, Tag.node name attributes cs = wrap cs := by
  have result : ∀ tag, Tag.ofName name = tag → tag ≠ .table → tag.isVoid = false →
      (∀ cs, Tag.node name attributes cs = wrap cs) →
      Tag.ofName name ≠ .table ∧ (Tag.ofName name).isVoid = false ∧
        ∀ cs, Tag.node name attributes cs = wrap cs := by
    rintro tag rfl noTable noVoid node
    exact ⟨noTable, noVoid, node⟩
  cases h with
  | @heading digit level attributes known =>
      have meanings : ∀ p ∈ levelDigits, Tag.ofName ['h', p.1] = .heading p.2 := by decide
      have meaning := meanings (digit, level) known
      exact result _ meaning (by simp) rfl fun cs => by simp only [Tag.node, meaning]
  | paragraph => exact result .paragraph (by decide) (by decide) rfl fun cs => rfl
  | unordered => exact result (.list false) (by decide) (by decide) rfl fun cs => rfl
  | ordered => exact result (.list true) (by decide) (by decide) rfl fun cs => rfl
  | item => exact result .item (by decide) (by decide) rfl fun cs => rfl
  | quote => exact result .quote (by decide) (by decide) rfl fun cs => rfl
  | @emphasis name kind attributes known =>
      have meanings : ∀ p ∈ emphasisNames, Tag.ofName p.1 = .emphasis p.2 := by decide
      have meaning := meanings (name, kind) known
      exact result _ meaning (by simp) rfl fun cs => by simp only [Tag.node, meaning]
  | codeSpan => exact result .codeSpan (by decide) (by decide) rfl fun cs => rfl
  | link leads =>
      have meaning : Tag.ofName "a" = .link := by decide
      exact result .link meaning (by decide) rfl fun cs => by simp only [Tag.node, meaning, leads]
  | element attributes other =>
      have meaning := ofName_eq_generic other
      exact result .generic meaning (by decide) rfl fun cs => by simp only [Tag.node, meaning]

/-! ## Writing a forest as tokens -/

/-- A node that is written as one token. -/
inductive Leaf : Node → Token → Prop where
  | text {content : Text} (source : Text) (filled : content ≠ []) :
      Leaf (.text content) (.text content source)
  | cdata {content : Text} (source : Text) (filled : content ≠ []) :
      Leaf (.text content) (.cdata content source)
  | malformed (source : Text) : Leaf (.malformed source) (.malformed source)
  | table (attributes : Dictionary) (source : Text) :
      Leaf (.table source) (.emptyTag "table" attributes source)
  | openBreak (attributes : Dictionary) (source : Text) :
      Leaf .lineBreak (.startTag "br" attributes source)
  | emptyBreak (attributes : Dictionary) (source : Text) :
      Leaf .lineBreak (.emptyTag "br" attributes source)
  | openRule (attributes : Dictionary) (source : Text) :
      Leaf .rule (.startTag "hr" attributes source)
  | emptyRule (attributes : Dictionary) (source : Text) :
      Leaf .rule (.emptyTag "hr" attributes source)

/-- The tokens write the forest from left to right. -/
inductive Linear : Forest → List Token → Prop where
  | nil : Linear [] []
  | leaf {node : Node} {token : Token} {forest : Forest} {tokens : List Token}
      (single : Leaf node token) (others : Linear forest tokens) :
      Linear (node :: forest) (token :: tokens)
  | wrap {name : Text} {attributes : Dictionary} {wrap : Forest → Node}
      {children forest : Forest} {inside tokens : List Token} (source source' : Text)
      (tag : Wraps name attributes wrap) (inner : Linear children inside)
      (others : Linear forest tokens) :
      Linear (wrap children :: forest)
        (.startTag name attributes source :: (inside ++ .endTag name source' :: tokens))

/-! ## Which forests can be written -/

/-- Whether a node can be written, what is inside it apart.  A text has to hold something, a
heading has one of six levels, and an element's name has no meaning of its own. -/
def Writable : Node → Prop
  | .text content => content ≠ []
  | .heading level _ => 1 ≤ level ∧ level ≤ 6
  | .element name _ _ => name ∉ tagNames
  | .directive _ _ _ => False
  | _ => True

theorem exists_levelDigit {level : Nat} (low : 1 ≤ level) (high : level ≤ 6) :
    ∃ digit, (digit, level) ∈ levelDigits := by
  have all : ∀ n : Fin 7, 1 ≤ n.val → ∃ p ∈ levelDigits, p.2 = n.val := by decide
  obtain ⟨⟨digit, n⟩, mem, rfl⟩ := all ⟨level, by omega⟩ low
  exact ⟨digit, mem⟩

/-- A node that can be written is one token, or a tag around what is inside it. -/
theorem leaf_or_wraps {node : Node} (writable : Writable node.bare) :
    (∃ token, Leaf node token) ∨
      ∃ name attributes wrap, Wraps name attributes wrap ∧ wrap node.children = node := by
  cases node with
  | text content => exact .inl ⟨_, .text [] writable⟩
  | lineBreak => exact .inl ⟨_, .emptyBreak .empty []⟩
  | rule => exact .inl ⟨_, .emptyRule .empty []⟩
  | table source => exact .inl ⟨_, .table .empty source⟩
  | malformed source => exact .inl ⟨_, .malformed source⟩
  | heading level cs =>
      obtain ⟨digit, known⟩ := exists_levelDigit writable.1 writable.2
      exact .inr ⟨_, .empty, _, .heading .empty known, rfl⟩
  | paragraph cs => exact .inr ⟨_, .empty, _, .paragraph .empty, rfl⟩
  | list isOrdered cs =>
      cases isOrdered with
      | false => exact .inr ⟨_, .empty, _, .unordered .empty, rfl⟩
      | true => exact .inr ⟨_, .empty, _, .ordered .empty, rfl⟩
  | item cs => exact .inr ⟨_, .empty, _, .item .empty, rfl⟩
  | quote cs => exact .inr ⟨_, .empty, _, .quote .empty, rfl⟩
  | emphasis kind cs =>
      have named : ∀ k : Emphasis, ∃ name, (name, k) ∈ emphasisNames := by
        intro k
        cases k with
        | bold => exact ⟨"b", by decide⟩
        | italic => exact ⟨"i", by decide⟩
        | strikethrough => exact ⟨"s", by decide⟩
      obtain ⟨name, known⟩ := named kind
      exact .inr ⟨name, .empty, _, .emphasis .empty known, rfl⟩
  | codeSpan cs => exact .inr ⟨_, .empty, _, .codeSpan .empty, rfl⟩
  | link href cs =>
      have leads : ((Dictionary.empty.insert "href" href).get? "href").getD [] = href := by simp
      exact .inr ⟨_, _, _, .link leads, rfl⟩
  | directive => exact writable.elim
  | element name attributes cs => exact .inr ⟨_, _, _, .element attributes writable, rfl⟩

theorem sizeOf_children_le (node : Node) : sizeOf node.children ≤ sizeOf node := by
  cases node <;> simp +arith [Node.children]

/-- A forest can be written if each of its nodes can, at every depth. -/
theorem exists_linear : (forest : Forest) → (∀ node ∈ Forest.preorder forest, Writable node) →
    ∃ tokens, Linear forest tokens
  | [], _ => ⟨[], .nil⟩
  | node :: forest, writable => by
      simp only [Forest.preorder, Node.preorder_eq, List.cons_append, List.forall_mem_cons,
        List.mem_append, or_imp, forall_and] at writable
      obtain ⟨here, inside, behind⟩ := writable
      obtain ⟨tokens, others⟩ := exists_linear forest behind
      rcases leaf_or_wraps here with ⟨token, single⟩ | ⟨name, attributes, wrap, tag, whole⟩
      · exact ⟨_, .leaf single others⟩
      · obtain ⟨inner, written⟩ := exists_linear node.children inside
        rw [← whole]
        exact ⟨_, .wrap [] [] tag written others⟩
termination_by forest => sizeOf forest
decreasing_by
  · simp only [List.cons.sizeOf_spec]
    omega
  · simp only [List.cons.sizeOf_spec]
    have := sizeOf_children_le node
    omega

/-! ## Building -/

namespace Builder

variable {b : Builder}

theorem push_of_closed (closed : b.table? = none) (token : Token) : b.push token = b.add token := by
  simp only [push, closed]

@[simp] theorem table?_attach (node : Node) (b : Builder) : (b.attach node).table? = b.table? := by
  unfold attach
  split <;> rfl

/-- The nodes of a forest are attached one after the other. -/
def attachAll (forest : Forest) (b : Builder) : Builder :=
  forest.foldl (fun b node => b.attach node) b

theorem attachAll_cons (node : Node) (forest : Forest) (b : Builder) :
    b.attachAll (node :: forest) = (b.attach node).attachAll forest := rfl

theorem attachAll_append (forest others : Forest) (b : Builder) :
    b.attachAll (forest ++ others) = (b.attachAll forest).attachAll others :=
  List.foldl_append

@[simp] theorem table?_attachAll (forest : Forest) (b : Builder) :
    (b.attachAll forest).table? = b.table? := by
  induction forest generalizing b with
  | nil => rfl
  | cons node forest ih => rw [attachAll_cons, ih, table?_attach]

/-- The innermost open element takes all nodes, and nothing else changes. -/
theorem attachAll_opened (forest roots : Forest) (e : OpenElement) (outer : List OpenElement)
    (table? : Option OpenTable) :
    attachAll forest ⟨roots, e :: outer, table?⟩ =
      ⟨roots, ⟨e.name, e.attributes, forest.reverse ++ e.children⟩ :: outer, table?⟩ := by
  induction forest generalizing e with
  | nil => rfl
  | cons node forest ih =>
      rw [attachAll_cons, attach, ih]
      simp

theorem attachAll_roots (forest roots : Forest) (table? : Option OpenTable) :
    attachAll forest ⟨roots, [], table?⟩ = ⟨forest.reverse ++ roots, [], table?⟩ := by
  induction forest generalizing roots with
  | nil => rfl
  | cons node forest ih =>
      rw [attachAll_cons, attach, ih]
      simp

theorem attachText_of_ne_nil {content : Text} (filled : content ≠ []) (b : Builder) :
    b.attachText content = b.attach (.text content) := by
  cases content with
  | nil => exact absurd rfl filled
  | cons c content => rfl

/-- The token of a leaf attaches the leaf. -/
theorem push_of_leaf {node : Node} {token : Token} (single : Leaf node token)
    (closed : b.table? = none) : b.push token = b.attach node := by
  rw [push_of_closed closed]
  cases single with
  | text source filled => exact attachText_of_ne_nil filled b
  | cdata source filled => exact attachText_of_ne_nil filled b
  | _ => rfl

/-- The start tag of a node opens an element. -/
theorem push_startTag {name source : Text} {attributes : Dictionary} {wrap : Forest → Node}
    (tag : Wraps name attributes wrap) (closed : b.table? = none) :
    b.push (.startTag name attributes source) =
      { b with opened := ⟨name, attributes, []⟩ :: b.opened } := by
  obtain ⟨noTable, noVoid, -⟩ := node_of_wraps tag
  rw [push_of_closed closed, add, if_neg noTable, noVoid]
  rfl

/-- The end tag of the innermost open element turns it into its node. -/
theorem push_endTag {name source : Text} {attributes : Dictionary} {wrap : Forest → Node}
    (tag : Wraps name attributes wrap) (roots children : Forest) (outer : List OpenElement) :
    push ⟨roots, ⟨name, attributes, children⟩ :: outer, none⟩ (.endTag name source) =
      attach (wrap children.reverse) ⟨roots, outer, none⟩ := by
  obtain ⟨-, -, node⟩ := node_of_wraps tag
  rw [push_of_closed rfl, add, close]
  simp only [List.findIdx?_cons, beq_self_eq_true, if_pos, closeMany, closeInnermost,
    OpenElement.node, node]

/-- The run: the tokens of a forest attach its nodes, whatever is open already. -/
theorem foldl_push_of_linear {forest : Forest} {tokens : List Token}
    (written : Linear forest tokens) (closed : b.table? = none) :
    tokens.foldl push b = b.attachAll forest := by
  induction written generalizing b with
  | nil => rfl
  | leaf single others ih =>
      rw [List.foldl_cons, push_of_leaf single closed, ih (by simpa using closed)]
      rfl
  | wrap source source' tag inner others inside behind =>
      obtain ⟨roots, opened, table?⟩ := b
      obtain rfl : table? = none := closed
      rw [List.foldl_cons, push_startTag tag rfl, List.foldl_append, inside rfl, attachAll_opened,
        List.foldl_cons, push_endTag tag, behind (by simp), attachAll_cons]
      simp

end Builder

/-- Building undoes writing: a forest whose nodes can be written has a writing as tokens, and
each of its writings builds it again. -/
theorem ofTokens_of_linear {forest : Forest}
    (writable : ∀ node ∈ Forest.preorder forest, Writable node) :
    (∃ tokens, Linear forest tokens) ∧
      ∀ tokens, Linear forest tokens → Forest.ofTokens tokens = forest := by
  refine ⟨exists_linear forest writable, ?_⟩
  intro tokens written
  have built := Builder.foldl_push_of_linear (b := Builder.start) written rfl
  have roots := Builder.attachAll_roots forest [] none
  rw [Forest.ofTokens, built, Builder.start, roots]
  simp [Builder.finish, Builder.closeTable, Builder.closeMany]

/-- An element in an element of its name, a heading with a link, and a table. -/
def nestedForest : Forest :=
  [.element "div" .empty [.element "div" .empty [.text "x"], .lineBreak],
    .heading 3 [.link "u" [.emphasis .bold []]], .table "<table/>"]

/-- A writing of `nestedForest`. -/
def nestedTokens : List Token :=
  [.startTag "div" .empty "<div>", .startTag "div" .empty "<div>", .text "x" "x",
    .endTag "div" "</div>", .startTag "br" .empty "<br>", .endTag "div" "</div>",
    .startTag "h3" .empty "<h3>", .startTag "a" (Dictionary.empty.insert "href" "u") "<a href='u'>",
    .startTag "strong" .empty "<strong>", .endTag "strong" "</strong>", .endTag "a" "</a>",
    .endTag "h3" "</h3>", .emptyTag "table" .empty "<table/>"]

theorem ofTokens_nestedTokens :
    (∀ node ∈ Forest.preorder nestedForest, Writable node) ∧ Linear nestedForest nestedTokens ∧
      Forest.ofTokens nestedTokens = nestedForest := by
  have writable : ∀ node ∈ Forest.preorder nestedForest, Writable node := by
    simp [nestedForest, Forest.preorder, Node.preorder, Writable, tagNames]
  have generic : ∀ attributes, Wraps "div" attributes (.element "div" attributes) := by
    intro attributes
    exact .element attributes (by decide)
  have inner : Linear [.element "div" .empty [.text "x"], .lineBreak]
      [.startTag "div" .empty "<div>", .text "x" "x", .endTag "div" "</div>",
        .startTag "br" .empty "<br>"] :=
    .wrap _ _ (generic .empty) (.leaf (.text _ (by decide)) .nil) (.leaf (.openBreak _ _) .nil)
  have link : Linear [.link "u" [.emphasis .bold []]]
      [.startTag "a" (Dictionary.empty.insert "href" "u") "<a href='u'>",
        .startTag "strong" .empty "<strong>", .endTag "strong" "</strong>", .endTag "a" "</a>"] :=
    .wrap _ _ (.link (by simp)) (.wrap _ _ (.emphasis .empty (by decide)) .nil .nil) .nil
  have written : Linear nestedForest nestedTokens :=
    .wrap _ _ (generic .empty) inner
      (.wrap _ _ (.heading .empty (by decide)) link (.leaf (.table _ _) .nil))
  exact ⟨writable, written, (ofTokens_of_linear writable).2 nestedTokens written⟩

end Wikidown.Document
