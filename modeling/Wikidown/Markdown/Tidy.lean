/-
# Wikidown.Markdown.Tidy -- blank lines

`tidy` brings the blank lines of a Markdown text into a normal form: none at either
end, never two in a row, and none that holds white space.  Lines of code blocks are
left as they are; a fence that no later line closes is ordinary text.
-/
import Wikidown.Markdown.Fence

namespace Wikidown.Markdown

set_option autoImplicit false

/-- Where a scan over lines stands. -/
inductive Scan where
  /-- No line is kept yet. -/
  | start
  /-- Behind a line that is kept. -/
  | line
  /-- Behind blank lines that follow a kept line. -/
  | gap
  /-- Inside a code block. -/
  | code (fence : Fence)
  deriving DecidableEq

namespace Scan

/-- After a blank line. -/
def blank : Scan → Scan
  | start => start
  | _ => gap

/-- What separates the next kept line from the line before it. -/
def separator : Scan → List Text
  | gap => [[]]
  | _ => []

/-- After a line of flowing text, with the lines that follow it. -/
def after (line : Text) (following : List Text) : Scan :=
  match Fence.open? line with
  | some fence => if following.any fence.isClosedBy then code fence else .line
  | none => .line

end Scan

/-- The kept lines of a text whose scan stands at the given place. -/
def tidyLines : Scan → List Text → List Text
  | _, [] => []
  | .code fence, line :: rest =>
      line :: tidyLines (if fence.isClosedBy line then .line else .code fence) rest
  | place, line :: rest =>
      if Text.isBlank line then tidyLines place.blank rest
      else place.separator ++ line :: tidyLines (.after line rest) rest

/-- The text with its blank lines in normal form. -/
def tidy (t : Text) : Text := Text.joinLines (tidyLines .start (Text.lines t))

end Wikidown.Markdown
