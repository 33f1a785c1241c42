/-
# Wikidown.Page.Metadata -- what is shown about a page

The metadata of a page follows from its record: fields are copied, the time of the last
change is shown in UTC, and the link is completed by the address of the site.
-/
import Wikidown.Page.Record
import Wikidown.Timestamp

namespace Wikidown.Page

set_option autoImplicit false

/-- A text without white space at its ends, if anything is left of it. -/
def nonblank? (t : Text) : Option Text :=
  let trimmed := Text.trim t
  if trimmed.isEmpty then none else some trimmed

/-- Whether a link is complete without the address of a site. -/
def isAbsolute (link : Text) : Bool :=
  Text.startsWith "http://" link || Text.startsWith "https://" link

/-- A link behind the address of its site, with one slash between the two unless one of
them is missing. -/
def webUrl (base link : Text) : Text :=
  let link := Text.trim link
  if isAbsolute link then link
  else
    let base := Text.dropEndWhile (· == '/') (Text.trim base)
    if base.isEmpty then link
    else if link.isEmpty then base
    else if link.head? = some '/' then base ++ link
    else base ++ '/' :: link

/-- What is shown about a page whose site has the given address. -/
def PageRecord.metadata (page : PageRecord) (base : Text) : Metadata where
  id := page.id
  title := page.title
  spaceKey := page.spaceKey
  spaceName := page.spaceName
  version := page.version
  lastUpdated? := Timestamp.format? page.lastModified
  updatedBy? := nonblank? page.editor
  webUrl := webUrl base page.webLink

end Wikidown.Page
