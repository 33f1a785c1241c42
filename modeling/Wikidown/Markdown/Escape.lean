/-
# Wikidown.Markdown.Escape -- text that Markdown reads as text

Link texts and destinations, code spans and fences are written so that a Markdown
reader finds their ends where the writer meant them: marks that would end a link are
escaped, and a run of backticks around code is longer than any run inside it.
-/
import Wikidown.Text

namespace Wikidown.Markdown

set_option autoImplicit false

/-- The backtick. -/
def tick : Char := '\x60'

/-! ## Links -/

/-- A backslash before each character that satisfies `p`. -/
def escapeWhere (p : Char → Bool) (t : Text) : Text :=
  t.flatMap fun c => if p c then ['\\', c] else [c]

/-- The text of a link: brackets and backslashes are escaped. -/
def linkText (t : Text) : Text := escapeWhere (fun c => c == '\\' || c == '[' || c == ']') t

/-- Line ends become spaces. -/
def spaceForLineEnd (c : Char) : Char := if c = '\n' ∨ c = '\r' then ' ' else c

/-- The destination of a link.  One with white space stands between angle brackets, on
one line; in any other, parentheses are escaped. -/
def linkDestination (t : Text) : Text :=
  if t.any isSpace then
    '<' :: (escapeWhere (fun c => c == '<' || c == '>' || c == '\\') (t.map spaceForLineEnd)
      ++ ['>'])
  else escapeWhere (fun c => c == '\\' || c == '(' || c == ')') t

/-- A link. -/
def link (text destination : Text) : Text :=
  "[" ++ linkText text ++ "](" ++ linkDestination destination ++ ")"

/-! ## Code -/

/-- The longest run of backticks in a text that stands behind `current` backticks. -/
def longestRunFrom (current : Nat) : Text → Nat
  | [] => current
  | c :: rest =>
      if c = tick then longestRunFrom (current + 1) rest
      else max current (longestRunFrom 0 rest)

/-- The length of the longest run of backticks. -/
def longestRun (t : Text) : Nat := longestRunFrom 0 t

/-- A run of backticks. -/
def ticks (n : Nat) : Text := List.replicate n tick

/-- A code span.  Code that starts or ends with a backtick is kept apart from the fence
by a space. -/
def codeSpan (code : Text) : Text :=
  let fence := ticks (longestRun code + 1)
  if code.head? = some tick ∨ code.getLast? = some tick then
    fence ++ ' ' :: code ++ ' ' :: fence
  else fence ++ code ++ fence

/-- The fence of a code block: at least three backticks, and more than the code has. -/
def codeFence (code : Text) : Text := ticks (max (longestRun code) 2 + 1)

/-! ## Flowing text -/

/-- Whether a line that starts with this text would open a fenced block: three or more
tildes, or three or more backticks without another one later in the line. -/
def opensFence (t : Text) : Bool :=
  3 ≤ (t.takeWhile (· == '~')).length
    || (3 ≤ (t.takeWhile (· == tick)).length && !(t.dropWhile (· == tick)).contains tick)

/-- A line of flowing text, escaped where it would open a fenced block. -/
def escapeFenceOpener (line : Text) : Text :=
  let body := Text.trimStart line
  if opensFence body then line.takeWhile isSpace ++ '\\' :: body else line

/-- Flowing text in which no line opens a fenced block. -/
def escapeFenceOpeners (t : Text) : Text :=
  Text.joinLines ((Text.segments t).map escapeFenceOpener)

end Wikidown.Markdown
