/-
# Wikidown.Page.Record -- pages, comments and results

A `Bundle` is a page with its comments, as it was fetched.  A `Conversion` is what
becomes of it: the metadata that is shown and the Markdown.
-/
import Wikidown.Text

namespace Wikidown.Page

set_option autoImplicit false

/-- A page as it was fetched.  Every field but `id` and `title` may be left out, and is
then empty. -/
structure PageRecord where
  id : Text
  title : Text
  spaceKey : Text
  spaceName : Text
  version : UInt32
  /-- When the page was last changed, as the server writes it. -/
  lastModified : Text
  /-- Who last changed the page; empty if unknown. -/
  editor : Text
  /-- Where the page can be seen, mostly relative to an address of its site. -/
  webLink : Text
  /-- The page itself, in storage markup. -/
  body : Text
  deriving DecidableEq

/-- A comment as it was fetched. -/
structure CommentRecord where
  id? : Option Text
  author : Text
  timestamp : Text
  body : Text
  deriving DecidableEq

/-- A page and its comments, in the order in which they are shown. -/
structure Bundle where
  page : PageRecord
  comments : List CommentRecord
  deriving DecidableEq

/-- What is shown about a page. -/
structure Metadata where
  id : Text
  title : Text
  spaceKey : Text
  spaceName : Text
  version : UInt32
  lastUpdated? : Option Text
  updatedBy? : Option Text
  webUrl : Text
  deriving DecidableEq

/-- A page in Markdown. -/
structure Conversion where
  metadata : Metadata
  content : Text
  deriving DecidableEq

end Wikidown.Page
