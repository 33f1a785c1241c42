/-
# Wikidown.Markup.Token -- tokens of storage markup

A markup text falls into `Piece`s: tokens, and stretches that carry no content
(comments, declarations, processing instructions).  Every piece keeps the slice of
the markup that it covers, its `source`, so that what a later stage cannot convert
can still be shown as it was written.
-/
import Wikidown.Dictionary

namespace Wikidown.Markup

set_option autoImplicit false

/-- A token.  Names are in lower case, and texts and attribute values have their
character references replaced; the `source` is the slice as it was written. -/
inductive Token where
  /-- `<name …>` -/
  | startTag (name : Text) (attributes : Dictionary) (source : Text)
  /-- `<name …/>` -/
  | emptyTag (name : Text) (attributes : Dictionary) (source : Text)
  /-- `</name>` -/
  | endTag (name : Text) (source : Text)
  /-- Text between tags. -/
  | text (content : Text) (source : Text)
  /-- The payload of a CDATA section. -/
  | cdata (content : Text) (source : Text)
  /-- What starts like a tag and cannot be finished as one. -/
  | malformed (source : Text)
  deriving DecidableEq

namespace Token

/-- The slice of the markup that the token covers. -/
def source : Token → Text
  | startTag _ _ s | emptyTag _ _ s | endTag _ s | text _ s | cdata _ s | malformed s => s

end Token

/-- A stretch of the markup: one token, or characters without content. -/
inductive Piece where
  | token (token : Token)
  | skipped (source : Text)
  deriving DecidableEq

namespace Piece

/-- The slice of the markup that the piece covers. -/
def source : Piece → Text
  | token t => t.source
  | skipped s => s

/-- The token that the piece is, if it is one. -/
def token? : Piece → Option Token
  | token t => some t
  | skipped _ => none

end Piece

end Wikidown.Markup
