/-
# Wikidown.Markdown.Inline -- nodes that run along in a line

Inline nodes are written one after the other into a `Draft`.  What is written depends on
what stands at the end of the draft: white space is not repeated (`Draft.join`), a span
takes other marks when the span before it has just ended, and two struck spans side by
side become one.  The draft is kept with its latest character first, so its end is at
hand.
-/
import Wikidown.Language

namespace Wikidown.Markdown

set_option autoImplicit false

open Document (Node Forest Emphasis)

/-! ## Drafts -/

/-- Text being written, the latest character first. -/
abbrev Draft := List Char

namespace Draft

/-- The text that is written. -/
def text (out : Draft) : Text := out.reverse

/-- The draft with a piece of text at its end. -/
def put (out : Draft) (piece : Text) : Draft := piece.reverse ++ out

/-- The draft with a piece of text at its end; spaces at the start of the piece are
dropped where the draft already ends with a space or a line feed. -/
def join (out : Draft) (piece : Text) : Draft :=
  match out with
  | ' ' :: _ | '\n' :: _ => out.put (piece.dropWhile (· == ' '))
  | _ => out.put piece

/-- A hard line break: exactly two spaces end the line. -/
def breakLine (out : Draft) : Draft := '\n' :: ' ' :: ' ' :: out.dropWhile (· == ' ')

end Draft

/-! ## Emphasis -/

/-- A line between two marks.  White space at its ends stays outside them, and a blank
line has no marks. -/
def wrapLine (opening closing line : Text) : Text :=
  if Text.isBlank line then line
  else
    line.takeWhile isSpace ++ opening ++ Text.trim line ++ closing
      ++ Text.takeEndWhile isSpace line

/-- Each line of a text between two marks. -/
def wrapLines (opening closing t : Text) : Text :=
  Text.joinLines ((Text.segments t).map (wrapLine opening closing))

/-- White space that ends no line. -/
def isLineSpace (c : Char) : Bool := isSpace c && c != '\n'

/-- A text between two marks.  White space at its ends stays outside them; if what is left
holds line feeds, each of its lines has marks of its own. -/
def wrap (opening closing t : Text) : Text :=
  if Text.isBlank t then t
  else
    let rest := t.dropWhile isLineSpace
    let content := Text.dropEndWhile isLineSpace rest
    let marked :=
      if content.contains '\n' then wrapLines opening closing content
      else opening ++ content ++ closing
    t.takeWhile isLineSpace ++ marked ++ Text.takeEndWhile isLineSpace rest

/-- The marks of a span, which differ from an asterisk that has just been written. -/
def marks (kind : Emphasis) (out : Draft) : Text :=
  match kind, out with
  | .bold, '*' :: _ => "__"
  | .bold, _ => "**"
  | .italic, '*' :: _ => "_"
  | .italic, _ => "*"
  | .strikethrough, _ => "~~"

/-- Whether a struck text can go on with the struck span before it: it stands in one line
and starts with no white space. -/
def continuesStrike (t : Text) : Bool :=
  !t.contains '\n' && t.head?.any fun c => !isSpace c

/-- The draft with a stressed text at its end. -/
def Draft.emphasize (out : Draft) (kind : Emphasis) (t : Text) : Draft :=
  let stressed := wrap (marks kind out) (marks kind out) t
  match kind, out with
  | .strikethrough, '~' :: '~' :: before =>
      if continuesStrike t then Draft.put before (wrap [] "~~" t) else out.join stressed
  | _, _ => out.join stressed

/-! ## Links and code -/

/-- A link with a text; one that leads nowhere is its text, and one without a text shows
where it leads. -/
def linkTo (href t : Text) : Text :=
  if href.isEmpty then t
  else if t.isEmpty then link href href
  else link t href

/-! ## Writing -/

mutual

/-- The draft with a node at its end.  A block among inline nodes is opened up, and a
space ends it. -/
def writeNode (language : Language) : Node → Draft → Draft
  | .text content, out => out.join (Text.collapse content)
  | .emphasis kind cs, out => out.emphasize kind (Draft.text (writeForest language cs []))
  | .codeSpan cs, out =>
      let code := Text.collapse (Forest.textContents cs)
      if Text.isBlank code then out else out.join (codeSpan code)
  | .link href cs, out =>
      out.join (linkTo href (Text.trim (Draft.text (writeForest language cs []))))
  | .lineBreak, out => out.breakLine
  | .element _ _ cs, out => writeForest language cs out
  | .malformed source, out => out.join (language.malformedNotice (Text.trim source))
  | .table _, out => out.join language.tableNotice
  | .directive .code _ cs, out =>
      out.join (codeSpan (Text.collapse (Text.trim (Forest.textContents cs))))
  | .directive (.unsupported name) _ _, out => out.join (language.unsupportedNotice name)
  | .directive (.admonition _) _ cs, out => writeForest language cs out
  | .rule, out => out.join [' ']
  | .heading _ cs, out | .paragraph cs, out | .list _ cs, out | .item cs, out
  | .quote cs, out => (writeForest language cs out).join [' ']

/-- The draft with the nodes of a forest at its end. -/
def writeForest (language : Language) : List Node → Draft → Draft
  | [], out => out
  | n :: ns, out => writeForest language ns (writeNode language n out)

end

/-- The text of the nodes of a forest, all written in a line. -/
def inlineText (language : Language) (nodes : Forest) : Text :=
  Draft.text (writeForest language nodes [])

end Wikidown.Markdown
