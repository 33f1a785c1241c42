/-
# Wikidown.Json.Bundle -- bundles as JSON

A bundle is a record with a page and comments, and each of them is a record of its own.
Only the page, and of the page its id and title, are required; any other field that is
left out is empty.
-/
import Wikidown.Json.Record
import Wikidown.Page.Record

namespace Wikidown.Json

set_option autoImplicit false

open Page (PageRecord CommentRecord Bundle)

/-- A field whose value is kept by `put` and looked up by `get`. -/
def field {σ α : Type} (name : Text) (read : Reader α) (get : σ → Option α)
    (put : σ → α → σ) : Field σ where
  name := name
  isSet state := (get state).isSome
  read state := fun t => (read t).map (Step.map (put state))

/-- A required field that was read, or its name. -/
def required {α : Type} (name : Text) (value? : Option α) : Except Text α :=
  match value? with
  | some value => .ok value
  | none => .error name

/-! ## Pages -/

/-- The fields of a page that were read. -/
structure PageFields where
  id? : Option Text := none
  title? : Option Text := none
  spaceKey? : Option Text := none
  spaceName? : Option Text := none
  version? : Option UInt32 := none
  lastModified? : Option Text := none
  editor? : Option Text := none
  webLink? : Option Text := none
  body? : Option Text := none

/-- The page, if its required fields were read. -/
def PageFields.record (f : PageFields) : Except Text PageRecord := do
  let id ← required "id" f.id?
  let title ← required "title" f.title?
  .ok ⟨id, title, f.spaceKey?.getD [], f.spaceName?.getD [], f.version?.getD 0,
    f.lastModified?.getD [], f.editor?.getD [], f.webLink?.getD [], f.body?.getD []⟩

/-- How a page is written. -/
def pageShape : Shape PageFields PageRecord where
  name := "struct PageRecord"
  fields :=
    [field "id" string (·.id?) fun f v => { f with id? := some v },
      field "title" string (·.title?) fun f v => { f with title? := some v },
      field "space_key" string (·.spaceKey?) fun f v => { f with spaceKey? := some v },
      field "space_name" string (·.spaceName?) fun f v => { f with spaceName? := some v },
      field "version" word32 (·.version?) fun f v => { f with version? := some v },
      field "last_modified" string (·.lastModified?) fun f v => { f with lastModified? := some v },
      field "editor" string (·.editor?) fun f v => { f with editor? := some v },
      field "web_link" string (·.webLink?) fun f v => { f with webLink? := some v },
      field "body" string (·.body?) fun f v => { f with body? := some v }]
  start := {}
  finish := PageFields.record

/-! ## Comments -/

/-- The fields of a comment that were read; an id that is `null` was read too. -/
structure CommentFields where
  id? : Option (Option Text) := none
  author? : Option Text := none
  timestamp? : Option Text := none
  body? : Option Text := none

/-- The comment. -/
def CommentFields.record (f : CommentFields) : CommentRecord :=
  ⟨f.id?.join, f.author?.getD [], f.timestamp?.getD [], f.body?.getD []⟩

/-- How a comment is written. -/
def commentShape : Shape CommentFields CommentRecord where
  name := "struct CommentRecord"
  fields :=
    [field "id" (nullable string) (·.id?) fun f v => { f with id? := some v },
      field "author" string (·.author?) fun f v => { f with author? := some v },
      field "timestamp" string (·.timestamp?) fun f v => { f with timestamp? := some v },
      field "body" string (·.body?) fun f v => { f with body? := some v }]
  start := {}
  finish f := .ok f.record

/-! ## Bundles -/

/-- The fields of a bundle that were read. -/
structure BundleFields where
  page? : Option PageRecord := none
  comments? : Option (List CommentRecord) := none

/-- The bundle, if its page was read. -/
def BundleFields.record (f : BundleFields) : Except Text Bundle := do
  let page ← required "page" f.page?
  .ok ⟨page, f.comments?.getD []⟩

/-- How a bundle is written. -/
def bundleShape : Shape BundleFields Bundle where
  name := "struct PageBundle"
  fields :=
    [field "page" pageShape.read (·.page?) fun f v => { f with page? := some v },
      field "comments" (list commentShape.read) (·.comments?)
        fun f v => { f with comments? := some v }]
  start := {}
  finish := BundleFields.record

/-- The bundle that a JSON text holds. -/
def readBundle (t : Text) : Except Fault Bundle := readAll bundleShape.read t

end Wikidown.Json
