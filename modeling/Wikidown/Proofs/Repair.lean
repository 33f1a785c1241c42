/-
# Wikidown.Proofs.Repair -- building from tokens that do not nest

Any tokens build a forest, also where tags overlap, close nothing or stay open.  The forest
is the one of a token sequence that nests: `repair` drops every end tag for which no
element is open, writes the missing end tags before an end tag that closes through other
elements, and writes what is missing at the end.  Inside a table it changes nothing.

`Nesting` is what repairing has to know: how many tables are open, and the names of the
open elements.  A builder has a nesting, and `Builder.nesting_push` is the simulation: the
nesting takes the same steps as the builder.  `Builder.foldl_push_mended` is the step of the
repair: the tokens that are written for a token do to the builder what the token does.

The main statement is `ofTokens_repair`: where no table is open at the end, the repaired
tokens nest, and they build the same forest.
-/
import Wikidown.Proofs.Linearization

namespace Wikidown.Document

set_option autoImplicit false

open Wikidown.Markup (Token)

/-! ## What is open -/

/-- What is open after some tokens. -/
structure Nesting where
  /-- The number of tables that are open, each inside the one before it. -/
  tables : Nat
  /-- The names of the open elements outside tables, innermost first. -/
  opened : List Text

/-- The end tag that is written for an element. -/
def closing (name : Text) : Token := .endTag name (("</" : Text) ++ name ++ (">" : Text))

namespace Nesting

/-- Nothing is open. -/
def start : Nesting := ⟨0, []⟩

/-- The next token.  In a table only the tags of tables count.  Outside, an end tag closes
through the nearest open element of its name. -/
def next : Nesting → Token → Nesting
  | ⟨0, opened⟩, .startTag name _ _ =>
      if name = "table" then ⟨1, opened⟩
      else if name = "br" ∨ name = "hr" then ⟨0, opened⟩
      else ⟨0, name :: opened⟩
  | ⟨0, opened⟩, .endTag name _ =>
      if name ∈ opened then ⟨0, (opened.dropWhile (· != name)).tail⟩ else ⟨0, opened⟩
  | ⟨depth + 1, opened⟩, .startTag name _ _ =>
      if name = "table" then ⟨depth + 2, opened⟩ else ⟨depth + 1, opened⟩
  | ⟨depth + 1, opened⟩, .endTag name _ =>
      if name = "table" then ⟨depth, opened⟩ else ⟨depth + 1, opened⟩
  | n, _ => n

/-- The tokens that are written for a token. -/
def mended : Nesting → Token → List Token
  | ⟨0, opened⟩, .endTag name source =>
      if name ∈ opened then (opened.takeWhile (· != name)).map closing ++ [.endTag name source]
      else []
  | _, token => [token]

/-- The tokens that are written for tokens, and at the end for the elements still open. -/
def mend : Nesting → List Token → List Token
  | n, [] => n.opened.map closing
  | n, token :: tokens => n.mended token ++ mend (n.next token) tokens

/-- Whether a token nests: an end tag outside tables has to be for the innermost element. -/
def Fits : Nesting → Token → Prop
  | ⟨0, opened⟩, .endTag name _ => opened.head? = some name
  | _, _ => True

/-- The tokens nest, and close what is open. -/
def Balances : Nesting → List Token → Prop
  | n, [] => n.tables = 0 ∧ n.opened = []
  | n, token :: tokens => n.Fits token ∧ (n.next token).Balances tokens

end Nesting

/-- The tokens with every missing end tag written, and without those that close nothing. -/
def repair (tokens : List Token) : List Token := Nesting.start.mend tokens

/-! ## The repaired tokens nest -/

/-- The first of several entries, with what is before and behind it. -/
theorem exists_nearest {name : Text} {opened : List Text} (mem : name ∈ opened) :
    ∃ above below, opened = above ++ name :: below ∧ name ∉ above ∧
      opened.takeWhile (· != name) = above ∧ (opened.dropWhile (· != name)).tail = below := by
  obtain ⟨above, below, rfl, fresh⟩ := List.eq_append_cons_of_mem mem
  have differ : ∀ other ∈ above, (other != name) = true := by
    rintro other known
    simp only [bne_iff_ne]
    rintro rfl
    exact fresh known
  refine ⟨above, below, rfl, fresh, ?_, ?_⟩
  · rw [List.takeWhile_append_of_pos differ]
    simp
  · rw [List.dropWhile_append_of_pos differ]
    simp

namespace Nesting

/-- The closings of the innermost elements nest. -/
theorem balances_closings (inner outer : List Text) (tokens : List Token)
    (others : Balances ⟨0, outer⟩ tokens) :
    Balances ⟨0, inner ++ outer⟩ (inner.map closing ++ tokens) := by
  induction inner with
  | nil => exact others
  | cons name inner ih =>
      refine ⟨rfl, ?_⟩
      have below : next ⟨0, name :: inner ++ outer⟩ (closing name) = ⟨0, inner ++ outer⟩ := by
        simp [next, closing]
      rw [below]
      exact ih

/-- The step: what is written for a token nests, and leads where the token leads. -/
theorem balances_mended (n : Nesting) (token : Token) (tokens : List Token)
    (others : (n.next token).Balances tokens) : n.Balances (n.mended token ++ tokens) := by
  obtain ⟨tables, opened⟩ := n
  cases tables with
  | succ depth => cases token <;> exact ⟨trivial, others⟩
  | zero =>
      cases token with
      | endTag name source =>
          by_cases mem : name ∈ opened
          · obtain ⟨above, below, whole, -, upTo, behind⟩ := exists_nearest mem
            simp only [next, if_pos mem, behind] at others
            simp only [mended, if_pos mem, upTo, List.append_assoc]
            rw [whole]
            apply balances_closings
            refine ⟨rfl, ?_⟩
            simpa [next] using others
          · simp only [next, if_neg mem] at others
            simp only [mended, if_neg mem]
            exact others
      | _ => exact ⟨trivial, others⟩

/-- The run: the mended tokens nest, unless a table stays open. -/
theorem balances_mend (n : Nesting) (tokens : List Token)
    (outside : (tokens.foldl next n).tables = 0) : n.Balances (n.mend tokens) := by
  induction tokens generalizing n with
  | nil =>
      obtain ⟨tables, opened⟩ := n
      obtain rfl : tables = 0 := outside
      have all := balances_closings opened [] [] ⟨rfl, rfl⟩
      rw [List.append_nil, List.append_nil] at all
      exact all
  | cons token tokens ih => exact balances_mended n token _ (ih (n.next token) outside)

end Nesting

/-! ## The nesting of a builder -/

theorem findIdx?_of_notMem {names : List Text} {name : Text} (fresh : name ∉ names) :
    names.findIdx? (· == name) = none := by
  rw [List.findIdx?_eq_none_iff]
  intro other mem
  rw [beq_eq_false_iff_ne]
  rintro rfl
  exact fresh mem

/-- The meanings that the nesting depends on, by name. -/
theorem ofName_meaning (name : Text) :
    (Tag.ofName name = .table ↔ name = "table") ∧
      ((Tag.ofName name).isVoid = true ↔ name = "br" ∨ name = "hr") := by
  by_cases known : name ∈ tagNames
  · have all : ∀ name ∈ tagNames, (Tag.ofName name = .table ↔ name = "table") ∧
        ((Tag.ofName name).isVoid = true ↔ name = "br" ∨ name = "hr") := by decide
    exact all name known
  · have apart : ∀ other ∈ tagNames, name ≠ other := by
      rintro other mem rfl
      exact known mem
    rw [ofName_eq_generic known]
    have noTable := apart "table" (by decide)
    have noBreak := apart "br" (by decide)
    have noRule := apart "hr" (by decide)
    constructor
    · simpa using noTable
    · simpa [Tag.isVoid] using And.intro noBreak noRule

namespace Builder

/-- What is open in a builder. -/
def nesting (b : Builder) : Nesting :=
  ⟨match b.table? with
    | none => 0
    | some t => t.inner + 1, b.opened.map (·.name)⟩

theorem table?_eq_none_iff (b : Builder) : b.table? = none ↔ b.nesting.tables = 0 := by
  obtain ⟨roots, opened, table?⟩ := b
  cases table? <;> simp [nesting]

theorem nesting_of_closed {b : Builder} (closed : b.table? = none) :
    b.nesting = ⟨0, b.nesting.opened⟩ := by
  rw [nesting, closed]

theorem nesting_of_table {b : Builder} {t : OpenTable} (state : b.table? = some t) :
    b.nesting = ⟨t.inner + 1, b.nesting.opened⟩ := by
  rw [nesting, state]

@[simp] theorem nesting_attach (node : Node) (b : Builder) :
    (b.attach node).nesting = b.nesting := by
  obtain ⟨roots, opened, table?⟩ := b
  cases opened <;> rfl

@[simp] theorem nesting_attachText (content : Text) (b : Builder) :
    (b.attachText content).nesting = b.nesting := by
  unfold attachText
  split
  · rfl
  · exact nesting_attach _ b

@[simp] theorem nesting_closeInnermost (b : Builder) :
    b.closeInnermost.nesting = ⟨b.nesting.tables, b.nesting.opened.tail⟩ := by
  obtain ⟨roots, opened, table?⟩ := b
  cases opened with
  | nil => rfl
  | cons e outer => exact nesting_attach e.node ⟨roots, outer, table?⟩

@[simp] theorem nesting_closeMany (count : Nat) (b : Builder) :
    (b.closeMany count).nesting = ⟨b.nesting.tables, b.nesting.opened.drop count⟩ := by
  induction count generalizing b with
  | zero => rfl
  | succ count ih =>
      rw [closeMany, ih, nesting_closeInnermost, List.drop_tail]

theorem table?_closeMany {b : Builder} (count : Nat) (closed : b.table? = none) :
    (b.closeMany count).table? = none := by
  rw [table?_eq_none_iff] at closed ⊢
  rw [nesting_closeMany]
  exact closed

/-- The place of the nearest open element of a name, read off the names alone. -/
theorem findIdx?_name (b : Builder) (name : Text) :
    b.opened.findIdx? (·.name == name) = b.nesting.opened.findIdx? (· == name) := by
  rw [nesting, List.findIdx?_map]
  rfl

/-- An end tag without an open element of its name does nothing. -/
theorem close_of_notMem {b : Builder} {name : Text} (fresh : name ∉ b.nesting.opened) :
    b.close name = b := by
  rw [close, findIdx?_name, findIdx?_of_notMem fresh]

/-- An end tag closes the nearest open element of its name and everything above it. -/
theorem close_of_nearest {b : Builder} {name : Text} {above below : List Text}
    (whole : b.nesting.opened = above ++ name :: below) (fresh : name ∉ above) :
    b.close name = b.closeMany (above.length + 1) := by
  have nearest : b.nesting.opened.findIdx? (· == name) = some above.length := by
    rw [whole, List.findIdx?_append, findIdx?_of_notMem fresh, List.findIdx?_cons]
    simp
  rw [close, findIdx?_name, nearest]

theorem close_of_innermost {b : Builder} {name : Text} {below : List Text}
    (whole : b.nesting.opened = name :: below) : b.close name = b.closeInnermost := by
  rw [close_of_nearest (whole.trans (List.nil_append _).symm) List.not_mem_nil]
  rfl

/-- The simulation in a table, where only the tags of tables count. -/
theorem nesting_collect (b : Builder) (token : Token) (t : OpenTable) :
    (b.collect token t).nesting = Nesting.next ⟨t.inner + 1, b.nesting.opened⟩ token := by
  obtain ⟨slices, inner⟩ := t
  cases token with
  | startTag name attributes source =>
      simp only [collect, Nesting.next, (ofName_meaning name).1]
      split <;> rfl
  | endTag name source =>
      simp only [collect, Nesting.next, (ofName_meaning name).1]
      split
      · cases inner with
        | zero =>
            rw [closeTable, nesting_attach]
            rfl
        | succ inner => rfl
      · rfl
  | _ => rfl

/-- The simulation outside tables. -/
theorem nesting_add (b : Builder) (token : Token) (closed : b.table? = none) :
    (b.add token).nesting = b.nesting.next token := by
  have outside := nesting_of_closed closed
  cases token with
  | startTag name attributes source =>
      rw [outside]
      simp only [add, Nesting.next, (ofName_meaning name).1, (ofName_meaning name).2]
      split
      · rfl
      · split
        · rw [nesting_attach, ← outside]
        · rw [nesting, closed]
          rfl
  | emptyTag name attributes source =>
      rw [add]
      split <;> rw [nesting_attach] <;> rw [outside] <;> rfl
  | endTag name source =>
      rw [add, outside]
      by_cases mem : name ∈ b.nesting.opened
      · obtain ⟨above, below, whole, fresh, -, behind⟩ := exists_nearest mem
        rw [close_of_nearest whole fresh, nesting_closeMany]
        simp only [Nesting.next, if_pos mem, behind]
        rw [whole, outside]
        simp
      · rw [close_of_notMem mem]
        simp only [Nesting.next, if_neg mem]
        exact outside
  | text content source => exact (nesting_attachText content b).trans (by rw [outside]; rfl)
  | cdata content source => exact (nesting_attachText content b).trans (by rw [outside]; rfl)
  | malformed source => exact (nesting_attach _ b).trans (by rw [outside]; rfl)

/-- The simulation: the nesting of a builder takes the same steps as the builder. -/
theorem nesting_push (b : Builder) (token : Token) :
    (b.push token).nesting = b.nesting.next token := by
  cases state : b.table? with
  | none => rw [push_of_closed state, nesting_add b token state]
  | some t =>
      simp only [push, state]
      rw [nesting_collect, ← nesting_of_table state]

theorem nesting_foldl (b : Builder) (tokens : List Token) :
    (tokens.foldl push b).nesting = tokens.foldl Nesting.next b.nesting := by
  induction tokens generalizing b with
  | nil => rfl
  | cons token tokens ih => rw [List.foldl_cons, List.foldl_cons, ih, nesting_push]

/-! ## The repaired tokens build the same -/

/-- The closings of the innermost elements end these elements. -/
theorem foldl_push_closings {b : Builder} {inner outer : List Text} (closed : b.table? = none)
    (whole : b.nesting.opened = inner ++ outer) :
    (inner.map closing).foldl push b = b.closeMany inner.length := by
  induction inner generalizing b with
  | nil => rfl
  | cons name inner ih =>
      have one : b.push (closing name) = b.closeInnermost := by
        rw [push_of_closed closed, closing, add, close_of_innermost whole]
      rw [List.map_cons, List.foldl_cons, one, List.length_cons, closeMany]
      apply ih
      · exact table?_closeMany 1 closed
      · rw [nesting_closeInnermost, whole]
        rfl

theorem closeMany_succ (count : Nat) (b : Builder) :
    b.closeMany (count + 1) = (b.closeMany count).closeInnermost := by
  induction count generalizing b with
  | zero => rfl
  | succ count ih =>
      show b.closeInnermost.closeMany (count + 1) =
        (b.closeInnermost.closeMany count).closeInnermost
      exact ih b.closeInnermost

/-- The step of the repair: what is written for a token does what the token does. -/
theorem foldl_push_mended (b : Builder) (token : Token) :
    (b.nesting.mended token).foldl push b = b.push token := by
  cases state : b.table? with
  | some t =>
      rw [nesting_of_table state]
      cases token <;> rfl
  | none =>
      have outside := nesting_of_closed state
      rw [outside]
      cases token with
      | endTag name source =>
          rw [push_of_closed state, add]
          by_cases mem : name ∈ b.nesting.opened
          · obtain ⟨above, below, whole, fresh, upTo, -⟩ := exists_nearest mem
            simp only [Nesting.mended, if_pos mem, upTo]
            -- the closings end what is above the element, and then the end tag finds it innermost
            rw [List.foldl_append, foldl_push_closings state whole, close_of_nearest whole fresh]
            have left : (b.closeMany above.length).nesting = ⟨0, name :: below⟩ := by
              rw [nesting_closeMany, whole, outside]
              simp
            have still := table?_closeMany above.length state
            rw [List.foldl_cons, List.foldl_nil, push_of_closed still, add,
              close_of_innermost (congrArg Nesting.opened left), closeMany_succ above.length]
          · simp only [Nesting.mended, if_neg mem, close_of_notMem mem]
            rfl
      | _ => rfl

/-- The run of the repair: the mended tokens do what the tokens do, and then close what is open. -/
theorem foldl_push_mend (b : Builder) (tokens : List Token) :
    (b.nesting.mend tokens).foldl push b =
      (((tokens.foldl push b).nesting.opened).map closing).foldl push (tokens.foldl push b) := by
  induction tokens generalizing b with
  | nil => rfl
  | cons token tokens ih =>
      rw [Nesting.mend, List.foldl_append, foldl_push_mended, ← nesting_push, ih]
      rfl

/-- Outside tables the end of the tokens closes the open elements. -/
theorem finish_of_closed {b : Builder} (closed : b.table? = none) :
    b.finish = (b.closeMany b.nesting.opened.length).roots.reverse := by
  rw [finish, closeTable, closed, nesting, List.length_map]

/-- The closings of all open elements do what the end of the tokens does. -/
theorem finish_closings {b : Builder} (closed : b.table? = none) :
    ((b.nesting.opened.map closing).foldl push b).finish = b.finish := by
  have all : b.nesting.opened = b.nesting.opened ++ [] := (List.append_nil _).symm
  rw [foldl_push_closings closed all, finish_of_closed closed, finish_of_closed]
  · rw [nesting_closeMany, List.drop_length]
    rfl
  · exact table?_closeMany _ closed

end Builder

/-- Where the tokens end outside tables, the repaired tokens nest, and build the same forest. -/
theorem ofTokens_repair {tokens : List Token}
    (outside : (tokens.foldl Nesting.next Nesting.start).tables = 0) :
    Nesting.start.Balances (repair tokens) ∧
      Forest.ofTokens (repair tokens) = Forest.ofTokens tokens := by
  constructor
  · exact Nesting.balances_mend Nesting.start tokens outside
  · have closed : (tokens.foldl Builder.push Builder.start).table? = none := by
      rw [Builder.table?_eq_none_iff, Builder.nesting_foldl]
      exact outside
    have same := Builder.foldl_push_mend Builder.start tokens
    have finished := Builder.finish_closings closed
    rw [← same] at finished
    exact finished

/-- Overlapping elements, end tags that close nothing, a void tag, a table in a table with an
end tag between them, and elements that stay open. -/
def brokenTokens : List Token :=
  [.startTag "p" .empty "<p>", .startTag "b" .empty "<b>", .startTag "i" .empty "<i>",
    .text "x" "x", .endTag "b" "</b>", .endTag "i" "</i>", .startTag "br" .empty "<br>",
    .endTag "br" "</br>", .startTag "table" .empty "<table>", .endTag "p" "</p>",
    .startTag "table" .empty "<table>", .endTag "table" "</table>", .startTag "td" .empty "<td>",
    .endTag "table" "</table>", .endTag "table" "</table>", .startTag "p" .empty "<p>",
    .startTag "em" .empty "<em>", .text "y" "y"]

theorem repair_brokenTokens :
    (brokenTokens.foldl Nesting.next Nesting.start).tables = 0 ∧
      repair brokenTokens =
        [.startTag "p" .empty "<p>", .startTag "b" .empty "<b>", .startTag "i" .empty "<i>",
          .text "x" "x", .endTag "i" "</i>", .endTag "b" "</b>", .startTag "br" .empty "<br>",
          .startTag "table" .empty "<table>", .endTag "p" "</p>",
          .startTag "table" .empty "<table>", .endTag "table" "</table>",
          .startTag "td" .empty "<td>", .endTag "table" "</table>", .startTag "p" .empty "<p>",
          .startTag "em" .empty "<em>", .text "y" "y", .endTag "em" "</em>", .endTag "p" "</p>",
          .endTag "p" "</p>"] ∧
      Nesting.start.Balances (repair brokenTokens) ∧
      Forest.ofTokens (repair brokenTokens) = Forest.ofTokens brokenTokens := by
  have outside : (brokenTokens.foldl Nesting.next Nesting.start).tables = 0 := by decide
  exact ⟨outside, rfl, ofTokens_repair outside⟩

end Wikidown.Document
