/-
# Wikidown.Proofs.TokenNodes -- the nodes of a forest are the nodes of its tokens

However badly tags nest, building loses no node, makes none twice and moves none: read in
document order, each node without its children, the forest of a token sequence is
`created tokens`, the nodes that the tokens make, in token order (`preorder_ofTokens`).  A
token makes at most one node (`made`), and a table is one node for all of its tokens,
which are `tableTokens` behind its start tag.

A builder keeps its nodes in two places, the finished trees and the open elements.
`Builder.written` reads both in document order.  `written_add` is the step, one case per
kind of token: a node goes to the end of what is written, and ending an element changes
nothing.  `preorder_finish_foldl_push` is the run.
-/
import Wikidown.Proofs.Repair

namespace Wikidown.Document

set_option autoImplicit false

open Wikidown.Markup (Token)

/-! ## The nodes of tokens -/

/-- The tokens behind the start tag of a table that belong to the table, where `inner`
further tables are open inside it: all up to the end tag that is one too many. -/
def tableTokens : (inner : Nat) → List Token → List Token
  | _, [] => []
  | inner, .startTag name attributes source :: tokens =>
      .startTag name attributes source
        :: tableTokens (if name = "table" then inner + 1 else inner) tokens
  | inner, .endTag name source :: tokens =>
      if name = "table" then
        match inner with
        | 0 => [.endTag name source]
        | inner + 1 => .endTag name source :: tableTokens inner tokens
      else .endTag name source :: tableTokens inner tokens
  | inner, token :: tokens => token :: tableTokens inner tokens

/-- The node that a token makes outside of tables.  A text without characters and an end tag
make none. -/
def made : Token → Forest
  | .text content _ | .cdata content _ => if content.isEmpty then [] else [.text content]
  | .malformed source => [.malformed source]
  | .startTag name attributes _ => [Tag.node name attributes []]
  | .emptyTag name attributes source =>
      if name = "table" then [.table source] else [Tag.node name attributes []]
  | .endTag _ _ => []

/-- Whether a token is the start tag of a table. -/
def startsTable : Token → Bool
  | .startTag name _ _ => name == "table".toList
  | _ => false

/-- The nodes that tokens make, in token order: one for each table, from its start tag to the
last token that belongs to it, and what each token outside of tables makes. -/
def created : List Token → Forest
  | [] => []
  | token :: tokens =>
      if startsTable token then
        .table ((token :: tableTokens 0 tokens).flatMap Token.source)
          :: created (tokens.drop (tableTokens 0 tokens).length)
      else made token ++ created tokens
termination_by tokens => tokens.length
decreasing_by
  · simp only [List.length_drop, List.length_cons]
    omega
  · simp

/-! ## The nodes of a builder -/

/-- An element and what is in it, in document order. -/
def OpenElement.written (e : OpenElement) : Forest :=
  Tag.node e.name e.attributes [] :: Forest.preorder e.children.reverse

theorem Forest.preorder_singleton (node : Node) : Forest.preorder [node] = node.preorder :=
  List.append_nil _

/-- A tag that can hold others makes the same node around whatever is in it. -/
theorem preorder_node {name : Text} (holds : (Tag.ofName name).isVoid = false)
    (attributes : Dictionary) (children : Forest) :
    (Tag.node name attributes children).preorder =
      Tag.node name attributes [] :: Forest.preorder children := by
  unfold Tag.node
  cases meaning : Tag.ofName name with
  | lineBreak => simp [meaning, Tag.isVoid] at holds
  | rule => simp [meaning, Tag.isVoid] at holds
  | _ => rfl

/-- The step for names: what is opened can hold nodes. -/
theorem isVoid_of_mem_next {n : Nesting} {token : Token}
    (holds : ∀ name ∈ n.opened, (Tag.ofName name).isVoid = false) :
    ∀ name ∈ (n.next token).opened, (Tag.ofName name).isVoid = false := by
  obtain ⟨tables, opened⟩ := n
  cases tables with
  | succ depth =>
      cases token <;> simp only [Nesting.next] <;> (try split) <;> exact holds
  | zero =>
      cases token with
      | startTag name attributes source =>
          simp only [Nesting.next]
          split
          · exact holds
          · split
            · exact holds
            · next hollow =>
              intro other mem
              rcases List.mem_cons.1 mem with rfl | mem
              · rw [← Bool.not_eq_true, (ofName_meaning other).2]
                exact hollow
              · exact holds other mem
      | endTag name source =>
          simp only [Nesting.next]
          split
          · intro other mem
            exact holds other ((List.dropWhile_suffix _).subset (List.mem_of_mem_tail mem))
          · exact holds
      | _ => exact holds

/-- Only its start tag opens a table. -/
theorem tables_next {n : Nesting} {token : Token} (outside : n.tables = 0)
    (other : startsTable token = false) : (n.next token).tables = 0 := by
  obtain ⟨tables, opened⟩ := n
  obtain rfl : tables = 0 := outside
  cases token with
  | startTag name attributes source =>
      have noTable : name ≠ "table".toList := by simpa [startsTable] using other
      simp only [Nesting.next, if_neg noTable]
      split <;> rfl
  | endTag name source =>
      simp only [Nesting.next]
      split <;> rfl
  | _ => rfl

namespace Builder

/-- The nodes of a builder, in document order: the finished trees, and then the open elements,
outermost first. -/
def written (b : Builder) : Forest :=
  Forest.preorder b.roots.reverse ++ b.opened.reverse.flatMap OpenElement.written

/-- No open element is of a tag without content. -/
def Holds (b : Builder) : Prop := ∀ name ∈ b.nesting.opened, (Tag.ofName name).isVoid = false

theorem Holds.push {b : Builder} (holds : b.Holds) (token : Token) : (b.push token).Holds := by
  rw [Holds, nesting_push]
  exact isVoid_of_mem_next holds

/-- A node goes to the end of what is written. -/
@[simp] theorem written_attach (node : Node) (b : Builder) :
    (b.attach node).written = b.written ++ node.preorder := by
  obtain ⟨roots, opened, table?⟩ := b
  cases opened with
  | nil => simp [written, attach, Forest.preorder_append, Forest.preorder_singleton]
  | cons e outer =>
      simp [written, attach, OpenElement.written, Forest.preorder_append,
        Forest.preorder_singleton]

theorem closeTable_of_closed {b : Builder} (closed : b.table? = none) : b.closeTable = b := by
  rw [closeTable, closed]

/-- Ending an element leaves its nodes where they are. -/
theorem written_closeInnermost {b : Builder} (holds : b.Holds) :
    b.closeInnermost.written = b.written := by
  obtain ⟨roots, opened, table?⟩ := b
  cases opened with
  | nil => rfl
  | cons e outer =>
      have hollow : (Tag.ofName e.name).isVoid = false := holds e.name List.mem_cons_self
      rw [closeInnermost, written_attach, OpenElement.node, preorder_node hollow]
      simp [written, OpenElement.written]

theorem Holds.closeInnermost {b : Builder} (holds : b.Holds) : b.closeInnermost.Holds := by
  intro name mem
  rw [nesting_closeInnermost] at mem
  exact holds name (List.mem_of_mem_tail mem)

theorem written_closeMany {b : Builder} (holds : b.Holds) (count : Nat) :
    (b.closeMany count).written = b.written := by
  induction count generalizing b with
  | zero => rfl
  | succ count ih =>
      rw [closeMany, ih holds.closeInnermost, written_closeInnermost holds]

theorem written_close {b : Builder} (holds : b.Holds) (name : Text) :
    (b.close name).written = b.written := by
  unfold close
  split
  · exact written_closeMany holds _
  · rfl

/-- The step outside of tables: what a token makes goes to the end of what is written. -/
theorem written_add {b : Builder} (holds : b.Holds) {token : Token}
    (outside : startsTable token = false) : (b.add token).written = b.written ++ made token := by
  have single : ∀ name attributes, (Tag.node name attributes []).preorder =
      [Tag.node name attributes []] := by
    intro name attributes
    unfold Tag.node
    cases Tag.ofName name <;> rfl
  cases token with
  | text content source =>
      simp only [add, attachText, made]
      split
      · simp
      · rw [written_attach]
        rfl
  | cdata content source =>
      simp only [add, attachText, made]
      split
      · simp
      · rw [written_attach]
        rfl
  | malformed source =>
      rw [add, written_attach]
      rfl
  | startTag name attributes source =>
      have other : ¬ Tag.ofName name = .table := by
        rw [(ofName_meaning name).1]
        simpa [startsTable] using outside
      rw [add, if_neg other, made]
      split
      · rw [written_attach, single]
      · simp [written, OpenElement.written, Forest.preorder]
  | emptyTag name attributes source =>
      simp only [add, made, (ofName_meaning name).1]
      split
      · rw [written_attach]
        rfl
      · rw [written_attach, single]
  | endTag name source =>
      rw [add, written_close holds, made, List.append_nil]

/-! ## Tables -/

theorem source_collected (t : OpenTable) (slice : Text) (inner : Nat) :
    OpenTable.source ⟨slice :: t.slices, inner⟩ = t.source ++ slice := by
  simp [OpenTable.source]

/-- The step in a table: a token is the last one of the table, or it goes to the table and
the table stays open. -/
theorem push_of_table {b : Builder} {t : OpenTable} (state : b.table? = some t) (token : Token) :
    (b.push token = attach (.table (t.source ++ token.source)) { b with table? := none } ∧
      ∀ tokens, tableTokens t.inner (token :: tokens) = [token]) ∨
    ∃ t', b.push token = { b with table? := some t' } ∧ t'.source = t.source ++ token.source ∧
      ∀ tokens, tableTokens t.inner (token :: tokens) = token :: tableTokens t'.inner tokens := by
  have collected : b.push token = b.collect token t := by simp only [push, state]
  rw [collected]
  cases token with
  | startTag name attributes source =>
      refine .inr ⟨⟨source :: t.slices, if name = "table" then t.inner + 1 else t.inner⟩, ?_,
        source_collected t source _, fun tokens => rfl⟩
      simp only [collect, (ofName_meaning name).1]
      split <;> rfl
  | endTag name source =>
      by_cases table : name = "table"
      · cases depth : t.inner with
        | zero =>
            refine .inl ⟨?_, fun tokens => ?_⟩
            · simp only [collect, (ofName_meaning name).1, if_pos table, depth, closeTable]
              rw [source_collected]
            · simp only [tableTokens, if_pos table]
        | succ inner =>
            refine .inr ⟨⟨source :: t.slices, inner⟩, ?_, source_collected t source _,
              fun tokens => ?_⟩
            · simp only [collect, (ofName_meaning name).1, if_pos table, depth]
              rfl
            · simp only [tableTokens, if_pos table]
      · refine .inr ⟨⟨source :: t.slices, t.inner⟩, ?_, source_collected t source _,
          fun tokens => ?_⟩
        · simp only [collect, (ofName_meaning name).1, if_neg table]
          rfl
        · simp only [tableTokens, if_neg table]
  | _ => exact .inr ⟨⟨_, t.inner⟩, rfl, source_collected t _ _, fun tokens => rfl⟩

/-- The run through a table: the tokens that belong to it become one node, also where the
tokens end inside it. -/
theorem finish_foldl_push_of_table {b : Builder} {t : OpenTable} (state : b.table? = some t)
    (tokens : List Token) :
    (tokens.foldl push b).finish =
      ((tokens.drop (tableTokens t.inner tokens).length).foldl push
        (attach (.table (t.source ++ (tableTokens t.inner tokens).flatMap Token.source))
          { b with table? := none })).finish := by
  induction tokens generalizing b t with
  | nil =>
      have behind : (attach (.table t.source) { b with table? := none }).closeTable =
          attach (.table t.source) { b with table? := none } :=
        closeTable_of_closed (table?_attach _ _)
      simp only [tableTokens, List.foldl_nil, List.drop_nil, List.flatMap_nil, List.append_nil,
        finish, behind]
      simp only [closeTable, state]
  | cons token tokens ih =>
      rcases push_of_table state token with ⟨pushed, last⟩ | ⟨t', pushed, source, more⟩
      · rw [last, List.foldl_cons, pushed]
        simp
      · rw [more, List.foldl_cons, pushed, ih rfl, source]
        simp

/-! ## The run -/

theorem push_startsTable {b : Builder} {token : Token} (starts : startsTable token = true)
    (closed : b.table? = none) : b.push token = { b with table? := some ⟨[token.source], 0⟩ } := by
  cases token with
  | startTag name attributes source =>
      have table : Tag.ofName name = .table := by
        rw [(ofName_meaning name).1]
        simpa [startsTable] using starts
      rw [push_of_closed closed, add, if_pos table]
      rfl
  | _ => simp [startsTable] at starts

/-- At the end every open element is ended, and what is written stays. -/
theorem preorder_finish {b : Builder} (holds : b.Holds) (closed : b.table? = none) :
    Forest.preorder b.finish = b.written := by
  have all : (b.closeMany b.nesting.opened.length).nesting.opened = [] := by
    rw [nesting_closeMany]
    exact List.drop_length
  have none : (b.closeMany b.nesting.opened.length).opened = [] := List.map_eq_nil_iff.1 all
  rw [finish_of_closed closed, ← written_closeMany holds b.nesting.opened.length, written, none]
  simp

/-- The run: what tokens make comes behind what is written already. -/
theorem preorder_finish_foldl_push {b : Builder} (holds : b.Holds) (closed : b.table? = none)
    (tokens : List Token) :
    Forest.preorder (tokens.foldl push b).finish = b.written ++ created tokens := by
  -- a table is one step: behind it the builder is closed again, with one node more
  fun_induction created tokens generalizing b with
  | case1 => rw [List.foldl_nil, preorder_finish holds closed, List.append_nil]
  | case2 token tokens starts behind =>
      obtain ⟨roots, opened, table?⟩ := b
      obtain rfl : table? = none := closed
      rw [List.foldl_cons, push_startsTable starts rfl, finish_foldl_push_of_table rfl, behind]
      · rw [written_attach]
        simp [written, OpenTable.source, Node.preorder]
      · rw [Holds, nesting_attach]
        exact holds
      · exact table?_attach _ _
  | case3 token tokens outside behind =>
      have other : startsTable token = false := by simpa using outside
      rw [List.foldl_cons, behind (holds.push token)]
      · rw [push_of_closed closed, written_add holds other, List.append_assoc]
      · rw [table?_eq_none_iff] at closed ⊢
        rw [nesting_push]
        exact tables_next closed other

end Builder

/-- **Every node once and in order.**  Read in document order, each node without its children,
the forest of any token sequence is what its tokens make, in token order. -/
theorem preorder_ofTokens (tokens : List Token) :
    Forest.preorder (Forest.ofTokens tokens) = created tokens := by
  have nothing : Builder.start.Holds := by
    intro name mem
    cases mem
  exact Builder.preorder_finish_foldl_push nothing rfl tokens

end Wikidown.Document
