/-
# Wikidown.Json.Value -- writing JSON

A `Value` is written over several lines, with two spaces for each record around it.
Strings keep their characters but for quotes, backslashes and controls.
-/
import Wikidown.Page.Record

namespace Wikidown.Json

set_option autoImplicit false

/-- A value to be written. -/
inductive Value where
  | natural (value : Nat)
  | string (value : Text)
  | record (members : List (Text × Value))

/-! ## Strings -/

/-- A character inside a string. -/
def writtenChar (c : Char) : Text :=
  match c with
  | '"' => ['\\', '"']
  | '\\' => ['\\', '\\']
  | '\x08' => ['\\', 'b']
  | '\x0c' => ['\\', 'f']
  | '\n' => ['\\', 'n']
  | '\r' => ['\\', 'r']
  | '\t' => ['\\', 't']
  | _ =>
      if c.toNat < 0x20 then
        ['\\', 'u', '0', '0', Nat.digitChar (c.toNat / 16), Nat.digitChar (c.toNat % 16)]
      else [c]

/-- A string in quotes. -/
def writtenString (t : Text) : Text := '"' :: (t.flatMap writtenChar ++ ['"'])

/-! ## Values -/

/-- The start of a line inside some records. -/
def newLine (depth : Nat) : Text := '\n' :: List.replicate (2 * depth) ' '

mutual

/-- A value inside some records. -/
def Value.written (depth : Nat) : Value → Text
  | .natural n => Nat.toDigits 10 n
  | .string t => writtenString t
  | .record [] => ['{', '}']
  | .record (m :: ms) =>
      '{' :: (newLine (depth + 1) ++ memberWritten depth m ++ membersWritten depth ms
        ++ newLine depth ++ ['}'])

/-- A member of a record. -/
def memberWritten (depth : Nat) : Text × Value → Text
  | (name, value) => writtenString name ++ ':' :: ' ' :: value.written (depth + 1)

/-- The members behind the first, each on a line of its own. -/
def membersWritten (depth : Nat) : List (Text × Value) → Text
  | [] => []
  | m :: ms =>
      ',' :: (newLine (depth + 1) ++ memberWritten depth m ++ membersWritten depth ms)

end

/-! ## Results -/

open Page (Metadata Conversion)

/-- A member with a string, left out if there is none. -/
def optionalMember (name : Text) (value? : Option Text) : List (Text × Value) :=
  (value?.map fun value => (name, Value.string value)).toList

/-- The metadata of a page as a value. -/
def metadataValue (m : Metadata) : Value :=
  let page : List (Text × Value) :=
    [("id", .string m.id), ("title", .string m.title), ("space_key", .string m.spaceKey),
      ("space_name", .string m.spaceName), ("version", .natural m.version.toNat)]
  .record (page ++ optionalMember "last_updated" m.lastUpdated?
    ++ optionalMember "updated_by" m.updatedBy? ++ optionalMember "web_url" (some m.webUrl))

/-- A conversion as a value. -/
def conversionValue (c : Conversion) : Value :=
  .record [("metadata", metadataValue c.metadata), ("content", .string c.content)]

/-- A conversion as a JSON text. -/
def writeConversion (c : Conversion) : Text := (conversionValue c).written 0

end Wikidown.Json
