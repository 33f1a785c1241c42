/-
# Wikidown.Proofs.Tables -- a table is one leaf

From the start tag of a table to its end tag, tokens are collected and not looked at.  Only the
tags of tables are counted, so that the table ends with the end tag that is its own.
`tableDepth` is that count, the start tags of tables less their end tags, and `StaysOpen` says
of the tokens behind a start tag that the count never gets below zero: none of them ends the
table.

`tableTokens_cons` is the step and `tableTokens_append` the run: such tokens all belong to the
table, whatever they are.  `exists_captured` is the invariant of the counter over any run: it
is the depth of the tokens that are collected, and each part of these from the start tag on has
a depth of at least one.  The main statement is `table_is_leaf`.
-/
import Mathlib.Data.List.Induction
import Mathlib.Data.List.Infix
import Wikidown.Proofs.TokenNodes

namespace Wikidown.Document

set_option autoImplicit false

open Wikidown.Markup (Token)

/-! ## The depth of tables -/

/-- By how much a token deepens the nesting of tables. -/
def tableStep : Token → Int
  | .startTag name _ _ => if name = "table" then 1 else 0
  | .endTag name _ => if name = "table" then -1 else 0
  | _ => 0

/-- The start tags of tables among the tokens, less their end tags. -/
def tableDepth : List Token → Int
  | [] => 0
  | token :: tokens => tableStep token + tableDepth tokens

/-- No part of the tokens from the front has more end tags of tables than start tags. -/
def StaysOpen (tokens : List Token) : Prop := ∀ front, front <+: tokens → 0 ≤ tableDepth front

@[simp] theorem tableDepth_nil : tableDepth [] = 0 := rfl

@[simp] theorem tableDepth_cons (token : Token) (tokens : List Token) :
    tableDepth (token :: tokens) = tableStep token + tableDepth tokens := rfl

@[simp] theorem tableDepth_append (a b : List Token) :
    tableDepth (a ++ b) = tableDepth a + tableDepth b := by
  induction a with
  | nil => exact (Int.zero_add _).symm
  | cons token a ih => rw [List.cons_append, tableDepth_cons, tableDepth_cons, ih, Int.add_assoc]

/-- Whether tokens stay in a table is found by looking at each part of them from the front. -/
instance (tokens : List Token) : Decidable (StaysOpen tokens) :=
  decidable_of_iff (∀ front ∈ tokens.inits, 0 ≤ tableDepth front) (by
    simp only [StaysOpen, List.mem_inits])

/-! ## Tokens that belong to a table -/

/-- The step: a token that leaves the table open belongs to it, and moves the counter. -/
theorem tableTokens_cons {inner next : Nat} {token : Token}
    (step : (next : Int) = inner + tableStep token) (tokens : List Token) :
    tableTokens inner (token :: tokens) = token :: tableTokens next tokens := by
  cases token with
  | startTag name attributes source =>
      by_cases table : name = "table".toList
      · have moved : next = inner + 1 := by
          simp only [tableStep, if_pos table] at step
          omega
        rw [tableTokens, if_pos table, moved]
      · have kept : next = inner := by
          simp only [tableStep, if_neg table] at step
          omega
        rw [tableTokens, if_neg table, kept]
  | endTag name source =>
      by_cases table : name = "table".toList
      · have moved : inner = next + 1 := by
          simp only [tableStep, if_pos table] at step
          omega
        subst moved
        simp only [tableTokens, if_pos table]
      · have kept : next = inner := by
          simp only [tableStep, if_neg table] at step
          omega
        subst kept
        simp only [tableTokens, if_neg table]
  | _ =>
      have kept : next = inner := by
        simp only [tableStep] at step
        omega
      subst kept
      rfl

/-- The run: tokens that leave the table open all belong to it, whatever they are. -/
theorem tableTokens_append {inner : Nat} {inside : List Token}
    (stays : ∀ front, front <+: inside → 0 ≤ inner + tableDepth front) (behind : List Token) :
    ∃ next : Nat, (next : Int) = inner + tableDepth inside ∧
      tableTokens inner (inside ++ behind) = inside ++ tableTokens next behind := by
  induction inside generalizing inner with
  | nil => exact ⟨inner, by simp, rfl⟩
  | cons token inside ih =>
      have first : 0 ≤ inner + tableDepth [token] := stays [token] ⟨inside, rfl⟩
      rw [tableDepth_cons, tableDepth_nil, Int.add_zero] at first
      obtain ⟨moved, step⟩ := Int.eq_ofNat_of_zero_le first
      have others : ∀ front, front <+: inside → 0 ≤ moved + tableDepth front := by
        intro front starts
        have whole := stays (token :: front) (List.cons_prefix_cons.2 ⟨rfl, starts⟩)
        rw [tableDepth_cons] at whole
        omega
      obtain ⟨next, depth, belong⟩ := ih others
      refine ⟨next, ?_, ?_⟩
      · rw [tableDepth_cons]
        omega
      · rw [List.cons_append, tableTokens_cons step.symm, belong, List.cons_append]

theorem tableTokens_of_staysOpen {inside : List Token} (stays : StaysOpen inside)
    (behind : List Token) : ∃ next : Nat, (next : Int) = tableDepth inside ∧
      tableTokens 0 (inside ++ behind) = inside ++ tableTokens next behind := by
  have outer : ∀ front, front <+: inside → 0 ≤ ((0 : Nat) : Int) + tableDepth front := by
    intro front starts
    have above := stays front starts
    omega
  obtain ⟨next, depth, belong⟩ := tableTokens_append outer behind
  exact ⟨next, by omega, belong⟩

/-! ## Building tables -/

namespace Builder

variable {b : Builder}

/-- An empty tag of a table is a leaf. -/
theorem push_emptyTable (closed : b.table? = none) (attributes : Dictionary) (source : Text) :
    b.push (.emptyTag "table" attributes source) = b.attach (.table source) := by
  rw [push_of_closed closed, add, if_pos (by decide)]

/-- A start tag of a table, with the tokens behind it: those that belong to the table become a
leaf, and the others follow. -/
theorem finish_foldl_push_table (closed : b.table? = none) (attributes : Dictionary)
    (source : Text) (tokens : List Token) :
    ((Token.startTag "table" attributes source :: tokens).foldl push b).finish =
      ((tokens.drop (tableTokens 0 tokens).length).foldl push
        (b.attach (.table (source ++ (tableTokens 0 tokens).flatMap Token.source)))).finish := by
  obtain ⟨roots, opened, table?⟩ := b
  obtain rfl : table? = none := closed
  have starts : startsTable (.startTag "table" attributes source) = true := by
    simp [startsTable]
  rw [List.foldl_cons, push_startsTable starts rfl, finish_foldl_push_of_table rfl]
  simp [OpenTable.source, Token.source]

end Builder

/-- The tokens before a place, and those from there on. -/
theorem ofTokens_append (before behind : List Token) :
    Forest.ofTokens (before ++ behind) =
      (behind.foldl Builder.push (before.foldl Builder.push .start)).finish := by
  rw [Forest.ofTokens, List.foldl_append]

/-! ## The counter -/

/-- In a table every token moves the counter by its step. -/
theorem tables_next_of_open {n : Nesting} (inTable : 0 < n.tables) (token : Token) :
    ((n.next token).tables : Int) = n.tables + tableStep token := by
  obtain ⟨tables, opened⟩ := n
  cases tables with
  | zero => cases inTable
  | succ depth =>
      cases token with
      | startTag name attributes source =>
          simp only [Nesting.next, tableStep]
          split
          · simp only
            omega
          · simp
      | endTag name source =>
          simp only [Nesting.next, tableStep]
          split
          · simp only
            omega
          · simp
      | _ => simp [Nesting.next, tableStep]

theorem tables_next_of_starts {n : Nesting} (outside : n.tables = 0) {token : Token}
    (starts : startsTable token = true) :
    (n.next token).tables = 1 ∧ tableStep token = 1 := by
  obtain ⟨tables, opened⟩ := n
  obtain rfl : tables = 0 := outside
  cases token with
  | startTag name attributes source =>
      have table : name = "table".toList := by simpa [startsTable] using starts
      simp [Nesting.next, tableStep, table]
  | _ => simp [startsTable] at starts

/-- The tokens of a run that are collected, `captured`, and those before them: the counter is the
depth of what is collected, which is at least one in each part of it from the front. -/
structure Captured (before captured : List Token) : Prop where
  outside : (before.foldl Builder.push .start).table? = none
  positive : ∀ front, front <+: captured → front ≠ [] → 1 ≤ tableDepth front
  counter : (((before ++ captured).foldl Builder.push .start).nesting.tables : Int) =
    tableDepth captured

theorem captured_nil {tokens : List Token}
    (outside : (tokens.foldl Builder.push .start).nesting.tables = 0) : Captured tokens [] where
  outside := (Builder.table?_eq_none_iff _).2 outside
  positive := by
    intro front starts filled
    exact absurd (List.prefix_nil.1 starts) filled
  counter := by
    rw [List.append_nil, outside]
    rfl

/-- The step: a token that does not end the table is collected. -/
theorem Captured.concat {before captured : List Token} {token : Token}
    (h : Captured before captured) (counted : 1 ≤ tableDepth (captured ++ [token]))
    (counter :
      (((before ++ (captured ++ [token])).foldl Builder.push .start).nesting.tables : Int) =
        tableDepth (captured ++ [token])) : Captured before (captured ++ [token]) where
  outside := h.outside
  positive := by
    intro front starts filled
    rcases List.prefix_concat_iff.1 starts with rfl | shorter
    · exact counted
    · exact h.positive front shorter filled
  counter := counter

/-- The run: wherever it stops, the counter is the depth of what is collected. -/
theorem exists_captured (tokens : List Token) :
    ∃ before captured, before ++ captured = tokens ∧ Captured before captured := by
  induction tokens using List.reverseRecOn with
  | nil => exact ⟨[], [], rfl, captured_nil rfl⟩
  | append_singleton tokens token ih =>
      obtain ⟨before, captured, rfl, h⟩ := ih
      have pushed : ((before ++ captured ++ [token]).foldl Builder.push .start).nesting =
          (((before ++ captured).foldl Builder.push .start).nesting).next token := by
        rw [List.foldl_append, List.foldl_cons, List.foldl_nil, Builder.nesting_push]
      have counter := h.counter
      generalize nesting : ((before ++ captured).foldl Builder.push .start).nesting = n at *
      by_cases ended : (n.next token).tables = 0
      · exact ⟨before ++ captured ++ [token], [], List.append_nil _,
          captured_nil (by rw [pushed, ended])⟩
      · have next : ((n.next token).tables : Int) = tableDepth (captured ++ [token]) := by
          by_cases inTable : 0 < n.tables
          · have moved := tables_next_of_open inTable token
            simp only [tableDepth_append, tableDepth_cons, tableDepth_nil]
            omega
          · have outside : n.tables = 0 := by omega
            have starts : startsTable token = true := by
              by_contra other
              exact ended (tables_next outside (by simpa using other))
            obtain ⟨one, step⟩ := tables_next_of_starts outside starts
            simp only [tableDepth_append, tableDepth_cons, tableDepth_nil]
            omega
        refine ⟨before, captured ++ [token], (List.append_assoc ..).symm, h.concat ?_ ?_⟩
        · omega
        · rw [← List.append_assoc, pushed, next]

/-! ## Tables are leaves -/

/-- **A table is one leaf.**  Behind tokens that leave no table open, a start tag of a table and
tokens that stay inside it build what one empty tag with all their source builds, whether they
end the run or, balanced, stand before an end tag and any other tokens.  And wherever a run
stops, the counter of open tables is the depth of the tokens that are collected, which is at
least one behind each of them. -/
theorem table_is_leaf :
    (∀ (before inside : List Token) (attributes : Dictionary) (source : Text),
      (before.foldl Builder.push .start).table? = none → StaysOpen inside →
        (∀ others, Forest.ofTokens (before ++ .startTag "table" attributes source :: inside) =
          Forest.ofTokens (before ++
            [.emptyTag "table" others (source ++ inside.flatMap Token.source)])) ∧
        (tableDepth inside = 0 → ∀ closing behind others,
          Forest.ofTokens (before ++ .startTag "table" attributes source ::
            (inside ++ .endTag "table" closing :: behind)) =
          Forest.ofTokens (before ++ .emptyTag "table" others
            (source ++ inside.flatMap Token.source ++ closing) :: behind))) ∧
    ∀ tokens, ∃ before captured, before ++ captured = tokens ∧ Captured before captured := by
  refine ⟨?_, exists_captured⟩
  intro before inside attributes source closed stays
  constructor
  · intro others
    obtain ⟨next, -, belong⟩ := tableTokens_of_staysOpen stays []
    have all : tableTokens 0 inside = inside := by simpa [tableTokens] using belong
    rw [ofTokens_append, ofTokens_append, Builder.finish_foldl_push_table closed, all,
      List.drop_length, List.foldl_cons, Builder.push_emptyTable closed]
  · intro balanced closing behind others
    obtain ⟨next, depth, belong⟩ :=
      tableTokens_of_staysOpen stays (.endTag "table" closing :: behind)
    obtain rfl : next = 0 := by omega
    have all : tableTokens 0 (inside ++ .endTag "table" closing :: behind) =
        inside ++ [.endTag "table" closing] := by
      rw [belong]
      rfl
    rw [ofTokens_append, ofTokens_append, Builder.finish_foldl_push_table closed, all,
      List.foldl_cons, Builder.push_emptyTable closed]
    simp [Token.source]

/-- What stands inside a table: a table of its own, an end tag for an element around the table,
and markup that is no tag. -/
def cellTokens : List Token :=
  [.startTag "td" .empty "<td>", .startTag "table" .empty "<Table>", .endTag "p" "</p>",
    .malformed "<td", .emptyTag "table" .empty "<table/>", .endTag "table" "</table >",
    .cdata "x" "<![CDATA[x]]>"]

theorem cellTokens_are_leaf :
    ([Token.startTag "p" .empty "<p>"].foldl Builder.push .start).table? = none ∧
      StaysOpen cellTokens ∧ tableDepth cellTokens = 0 ∧
      Forest.ofTokens ([.startTag "p" .empty "<p>"] ++ .startTag "table" .empty "<table>" ::
          (cellTokens ++ .endTag "table" "</table>" :: [.text "y" "y"])) =
        [.paragraph
          [.table "<table><td><Table></p><td<table/></table ><![CDATA[x]]></table>", .text "y"]] ∧
      Forest.ofTokens ([.startTag "p" .empty "<p>"] ++
          .startTag "table" .empty "<table>" :: cellTokens) =
        [.paragraph [.table "<table><td><Table></p><td<table/></table ><![CDATA[x]]>"]] := by
  have stays : StaysOpen cellTokens := by decide
  obtain ⟨unended, ended⟩ := table_is_leaf.1 [.startTag "p" .empty "<p>"] cellTokens .empty
    "<table>" rfl stays
  exact ⟨rfl, stays, by decide, ended (by decide) "</table>" [.text "y" "y"] .empty,
    unended .empty⟩

end Wikidown.Document
