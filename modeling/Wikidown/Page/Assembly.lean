/-
# Wikidown.Page.Assembly -- the layout of a page

A page is laid out as a title, what is known about it, its body and its comments, each
under a heading in the language of the output.  Bodies arrive in Markdown.
-/
import Wikidown.Page.Metadata
import Wikidown.Language
import Wikidown.Markdown.Tidy

namespace Wikidown.Page

set_option autoImplicit false

/-- A comment whose body is in Markdown. -/
structure RenderedComment where
  author? : Option Text
  created? : Option Text
  body : Text
  deriving DecidableEq

/-- The space of a page by its name and key, as far as they are known. -/
def spaceText? (name key : Text) : Option Text :=
  match nonblank? name, nonblank? key with
  | none, none => none
  | some name, none => some name
  | none, some key => some key
  | some name, some key => some (name ++ " (" ++ key ++ ")")

/-- A version; version 0 means that none is known. -/
def versionText? (version : UInt32) : Option Text :=
  if 0 < version then some (Nat.toDigits 10 version.toNat) else none

/-- The line of a field; a field without a value has none. -/
def fieldLine? (language : Language) (label : Label) (value? : Option Text) : Option Text :=
  (value?.bind nonblank?).map fun value => "- **" ++ language.label label ++ ":** " ++ value

/-- The lines of the fields that have a value. -/
def fieldLines (language : Language) (fields : List (Label × Option Text)) : List Text :=
  fields.filterMap fun (label, value?) => fieldLine? language label value?

/-- What is shown about a page, field by field. -/
def Metadata.fields (m : Metadata) : List (Label × Option Text) :=
  [(.id, some m.id), (.space, spaceText? m.spaceName m.spaceKey),
    (.version, versionText? m.version), (.lastUpdated, m.lastUpdated?),
    (.updatedBy, m.updatedBy?), (.link, some m.webUrl)]

/-- What is shown about a comment, field by field. -/
def RenderedComment.fields (c : RenderedComment) : List (Label × Option Text) :=
  [(.author, c.author?), (.created, c.created?)]

/-- A text with a blank line behind it. -/
def paragraph (t : Text) : Text := t ++ ['\n', '\n']

/-- Lines with a blank line behind them. -/
def lineSection (ls : List Text) : Text := (ls.map (· ++ ['\n'])).flatten ++ ['\n']

/-- A heading, the fields under it and, after them, a body. -/
def RenderedComment.text (language : Language) (number : Nat) (c : RenderedComment) : Text :=
  paragraph ("### " ++ language.label .comment ++ ' ' :: Nat.toDigits 10 number)
    ++ lineSection (fieldLines language c.fields) ++ paragraph c.body

/-- The comments from the given number on. -/
def commentTexts (language : Language) (number : Nat) : List RenderedComment → Text
  | [] => []
  | c :: rest => c.text language number ++ commentTexts language (number + 1) rest

/-- The comments under their heading, which has their number. -/
def commentSection (language : Language) (comments : List RenderedComment) : Text :=
  if comments.isEmpty then []
  else
    paragraph ("## " ++ language.label .comments ++ " (" ++ Nat.toDigits 10 comments.length ++ ")")
      ++ commentTexts language 1 comments

/-- The Markdown of a page whose body and comments are in Markdown already. -/
def assemble (language : Language) (m : Metadata) (body : Text)
    (comments : List RenderedComment) : Text :=
  Markdown.tidy <|
    paragraph ("# " ++ Text.trim m.title)
      ++ paragraph ("## " ++ language.label .pageInformation)
      ++ lineSection (fieldLines language m.fields)
      ++ paragraph ("## " ++ language.label .pageContent)
      ++ paragraph body
      ++ commentSection language comments

end Wikidown.Page
