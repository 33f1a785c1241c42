/-
# Wikidown.Markdown.Fence -- fences of code blocks

A line opens a code block when, behind quote marks and list markers, it starts with
three or more backticks and holds no further one.  A line closes that block when,
behind at most as many quote marks, it holds nothing but at least as many backticks.
-/
import Wikidown.Markdown.Escape

namespace Wikidown.Markdown

set_option autoImplicit false

/-! ## Quote marks and list markers -/

/-- The number of quote marks `>` at the start of a line, white space around them. -/
def quoteDepth : Text → Nat
  | [] => 0
  | c :: rest =>
      if isSpace c then quoteDepth rest
      else if c = '>' then quoteDepth rest + 1
      else 0

/-- A line without the first quote marks, at most `limit` of them, and without the white
space around them. -/
def dropQuotes (limit : Nat) : Text → Text
  | [] => []
  | c :: rest =>
      if isSpace c then dropQuotes limit rest
      else if c = '>' then
        match limit with
        | 0 => c :: rest
        | n + 1 => dropQuotes n rest
      else c :: rest

/-- `dropMarkers`, where `number?` is the text from the first digit of a number that has
been read up to here, if one has.  The space behind a marker is dropped as white space. -/
def dropMarkersFrom (number? : Option Text) : Text → Text
  | [] => number?.getD []
  | c :: rest =>
      match number? with
      | none =>
          if isSpace c then dropMarkersFrom none rest
          else if c.isDigit then dropMarkersFrom (some (c :: rest)) rest
          else if c = '-' ∧ rest.head? = some ' ' then dropMarkersFrom none rest
          else c :: rest
      | some whole =>
          if c.isDigit then dropMarkersFrom (some whole) rest
          else if c = '.' ∧ rest.head? = some ' ' then dropMarkersFrom none rest
          else whole

/-- A line without the list markers at its start, `- ` and numbers with `. `, and the
white space around them. -/
def dropMarkers (line : Text) : Text := dropMarkersFrom none line

/-! ## Fences -/

/-- A line that opens a code block: its backticks and the quote marks before it. -/
structure Fence where
  ticks : Nat
  quotes : Nat
  deriving DecidableEq

namespace Fence

/-- The fence that a line opens, if it opens one. -/
def open? (line : Text) : Option Fence :=
  let quotes := quoteDepth line
  let body := dropMarkers (dropQuotes quotes line)
  let run := (body.takeWhile (· == tick)).length
  if 3 ≤ run ∧ tick ∉ body.drop run then some ⟨run, quotes⟩ else none

/-- Whether a line closes the block. -/
def isClosedBy (f : Fence) (line : Text) : Bool :=
  let body := Text.trim (dropQuotes f.quotes line)
  f.ticks ≤ body.length && body.all (· == tick)

end Fence

end Wikidown.Markdown
