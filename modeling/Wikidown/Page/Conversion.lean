/-
# Wikidown.Page.Conversion -- from storage markup to Markdown

`fragment` converts a piece of storage markup: it is cut into tokens, the tokens become
a forest, the wiki's own elements are resolved, and the forest is written as Markdown.
It cannot fail; what cannot be converted shows in the output.  `convert` does the same
for a page and its comments, and refuses only a page without an id.
-/
import Wikidown.Document.Directive
import Wikidown.Document.Tree
import Wikidown.Markdown.Block
import Wikidown.Markup.Scan
import Wikidown.Page.Assembly

namespace Wikidown.Page

set_option autoImplicit false

open Document (Forest)

/-- How pages are converted. -/
structure Options where
  /-- The address that relative links are completed by. -/
  baseUrl : Text
  language : Language
  includeComments : Bool

/-- English, with comments, and with no address. -/
def Options.default : Options := ⟨[], .english, true⟩

/-- A record that cannot be converted. -/
inductive RecordError where
  /-- The page has no id. -/
  | blankId
  deriving DecidableEq

/-- What is wrong with the record. -/
def RecordError.message : RecordError → Text
  | blankId => "Invalid record: page id is empty"

/-- The forest that storage markup describes. -/
def forestOfMarkup (markup : Text) : Forest :=
  Forest.resolve (Forest.ofTokens (Markup.tokens markup))

/-- A piece of storage markup in Markdown. -/
def fragment (language : Language) (markup : Text) : Text :=
  Markdown.render language (forestOfMarkup markup)

/-- A comment in Markdown. -/
def CommentRecord.render (language : Language) (c : CommentRecord) : RenderedComment where
  author? := nonblank? c.author
  created? := Timestamp.format? c.timestamp
  body := fragment language c.body

/-- A page and its comments in Markdown. -/
def convert (options : Options) (page : PageRecord) (comments : List CommentRecord) :
    Except RecordError Conversion :=
  if Text.isBlank page.id then .error .blankId
  else
    let metadata := page.metadata options.baseUrl
    let shown := if options.includeComments then comments else []
    let content := assemble options.language metadata (fragment options.language page.body)
      (shown.map (CommentRecord.render options.language))
    .ok ⟨metadata, content⟩

/-- A page whose comments were fetched apart from it; comments that could not be fetched
are left out. -/
def convertFetched {ε : Type} (options : Options) (page : PageRecord)
    (comments : Except ε (List CommentRecord)) : Except RecordError Conversion :=
  match comments with
  | .ok comments => convert options page comments
  | .error _ => convert options page []

end Wikidown.Page
