/-
# Wikidown.Json.Record -- records with named fields

A record is written as an object, with its fields under their names in any order, or as
an array of its fields in their order.  A `Shape` says which fields a record has and how
each is read; `Shape.read` reads both ways of writing it.  Fields that the shape does not
know are skipped, and a known one may stand only once.
-/
import Wikidown.Json.Number
import Wikidown.Json.Skip

namespace Wikidown.Json

set_option autoImplicit false

/-- A reader of values that are told apart by their first character: it is read from there,
behind the white space before it. -/
def behindGap {α : Type}
    (read : (c : Char) → (rest : Text) → Except Fault (Step (c :: rest) α)) : Reader α :=
  fun t =>
    match h : dropGap t with
    | [] => .error .truncated
    | c :: rest => (read c rest).map (Step.widen (h ▸ length_dropGap_le t))

/-! ## Values of the wrong type -/

/-- A fault of type, unless the value that was found cannot be read to its end. -/
def wrongType {α : Type} (expected : Text) (found : Except Fault Found) : Except Fault α :=
  match found with
  | .ok found => .error (.shape (.wrongType found expected))
  | .error fault => .error fault

/-- What the value that starts with `c` is.  A list or a record is known by its bracket. -/
def foundAt (c : Char) (rest : Text) : Except Fault Found :=
  match c with
  | 'n' => (word "ull" rest).map fun _ => .null
  | 't' => (word "rue" rest).map fun _ => .boolean true
  | 'f' => (word "alse" rest).map fun _ => .boolean false
  | '"' => (stringBody rest).map fun step => .string step.value
  | '[' => .ok .list
  | '{' => .ok .record
  | _ =>
      if c = '-' ∨ c.isDigit then (number (c :: rest)).map fun read => read.1.found
      else .error .malformed

/-! ## Strings, numbers and options -/

/-- A string. -/
def string : Reader Text := behindGap fun c rest =>
  if c = '"' then (stringBody rest).map (Step.widen (by simp))
  else wrongType "a string" (foundAt c rest)

/-- A number, in a step. -/
def numeral (t : Text) : Except Fault (Step t Numeral) :=
  match h : number t with
  | .ok (n, rest) => .ok ⟨n, rest, length_of_number h⟩
  | .error fault => .error fault

/-- An unsigned integer of 32 bits. -/
def word32 : Reader UInt32 := behindGap fun c rest =>
  if c = '-' ∨ c.isDigit then do
    let read ← numeral (c :: rest)
    match read.value with
    | .integer n =>
        if 0 ≤ n ∧ n < 0x100000000 then .ok (read.map fun _ => UInt32.ofNat n.toNat)
        else .error (.shape (.outOfRange n "u32"))
    | .float x => wrongType "u32" (.ok (.float x))
  else wrongType "u32" (foundAt c rest)

/-- A value that may be `null`. -/
def nullable {α : Type} (read : Reader α) : Reader (Option α) := behindGap fun c rest =>
  if c = 'n' then
    match h : word "ull" rest with
    | .ok after => .ok ⟨none, after, Nat.lt_succ_of_le (length_of_word h)⟩
    | .error fault => .error fault
  else (read (c :: rest)).map (Step.map some)

/-! ## Lists -/

/-- What stands at the place of a list element: nothing, where the list ends, or the text
from the element on.  The closing bracket is left to be read. -/
def element? (isFirst : Bool) (t : Text) : Except Fault (Option Text) :=
  match dropGap t with
  | [] => .error .truncated
  | c :: rest =>
      if c = ']' then .ok none
      else if isFirst then .ok (some (c :: rest))
      else if c = ',' then
        match dropGap rest with
        | [] => .error .truncated
        | d :: after => if d = ']' then .error .malformed else .ok (some (d :: after))
      else .error .malformed

theorem length_of_element? {isFirst : Bool} {t rest : Text}
    (h : element? isFirst t = .ok (some rest)) : rest.length ≤ t.length := by
  have gap := length_dropGap_le t
  simp only [element?] at h
  split at h
  · simp at h
  · next c after eq =>
    rw [eq, List.length_cons] at gap
    split at h
    · simp at h
    · split at h
      · simp only [Except.ok.injEq, Option.some.injEq] at h
        rw [← h, List.length_cons]
        exact gap
      · split at h
        · have gap' := length_dropGap_le after
          split at h
          · simp at h
          · next d after' eq' =>
            rw [eq'] at gap'
            split at h
            · simp at h
            · simp only [Except.ok.injEq, Option.some.injEq] at h
              rw [← h]
              omega
        · simp at h

/-- The closing bracket of a list. -/
def listEnd : Reader Unit := behindGap fun c rest =>
  if c = ']' then .ok ⟨(), rest, by simp⟩ else .error .malformed

/-- The elements of a list and its closing bracket. -/
def elements {α : Type} (read : Reader α) (isFirst : Bool) (t : Text) :
    Except Fault (Step t (List α)) :=
  match h : element? isFirst t with
  | .error fault => .error fault
  | .ok none => (listEnd t).map (Step.map fun _ => [])
  | .ok (some rest) =>
      match read rest with
      | .error fault => .error fault
      | .ok step =>
          (elements read false step.rest).map fun more =>
            (more.map (step.value :: ·)).widen
              (Nat.le_of_lt (Nat.lt_of_lt_of_le step.shorter (length_of_element? h)))
termination_by t.length
decreasing_by exact Nat.lt_of_lt_of_le step.shorter (length_of_element? h)

/-- A list. -/
def list {α : Type} (read : Reader α) : Reader (List α) := behindGap fun c rest =>
  if c = '[' then (elements read true rest).map (Step.widen (by simp))
  else wrongType "a sequence" (foundAt c rest)

/-! ## Records -/

/-- A field of a record under construction, which is a `σ`. -/
structure Field (σ : Type) where
  name : Text
  /-- Whether the field is there already. -/
  isSet : σ → Bool
  /-- Reads the field's value and puts it in. -/
  read : σ → Reader σ

/-- The fields of a record `α`, and how it is made from what was read of them. -/
structure Shape (σ α : Type) where
  name : Text
  /-- The fields in the order that an array has them in; those that are required come
  first. -/
  fields : List (Field σ)
  start : σ
  /-- The record, or the name of a required field that is missing. -/
  finish : σ → Except Text α

/-- The colon behind a key. -/
def colon : Reader Unit := behindGap fun c rest =>
  if c = ':' then .ok ⟨(), rest, by simp⟩ else .error .malformed

/-- A key whose opening quote is read, and its value. -/
def member {σ : Type} (fields : List (Field σ)) (state : σ) : Reader σ := fun t => do
  let key ← stringBody t
  match fields.find? (·.name == key.value) with
  | some field =>
      if field.isSet state then .error (.shape (.duplicateField field.name))
      else
        let colon ← colon key.rest
        let value ← field.read state colon.rest
        .ok (value.widen (Nat.le_of_lt (Nat.lt_trans colon.shorter key.shorter)))
  | none =>
      let colon ← colon key.rest
      match h : skipValue colon.rest with
      | .error fault => .error fault
      | .ok rest =>
          .ok ⟨state, rest, Nat.lt_of_le_of_lt (length_of_skip h)
            (Nat.lt_trans colon.shorter key.shorter)⟩

/-- The opening quote of a key. -/
def keyStart : Reader Unit := behindGap fun c rest =>
  if c = '"' then .ok ⟨(), rest, by simp⟩ else .error .malformed

/-- What stands at the place of a member: nothing, at the closing brace, or a key. -/
def memberStart (isFirst : Bool) : Reader Bool := behindGap fun c rest =>
  if c = '}' then .ok ⟨false, rest, by simp⟩
  else if isFirst then
    if c = '"' then .ok ⟨true, rest, by simp⟩ else .error .malformed
  else if c = ',' then (keyStart rest).map fun step => (step.map fun _ => true).widen (by simp)
  else .error .malformed

/-- The members of an object and its closing brace. -/
def members {σ : Type} (fields : List (Field σ)) (isFirst : Bool) (state : σ) (t : Text) :
    Except Fault (Step t σ) :=
  match memberStart isFirst t with
  | .error fault => .error fault
  | .ok start =>
      if start.value then
        match member fields state start.rest with
        | .error fault => .error fault
        | .ok step =>
            (members fields false step.value step.rest).map
              (Step.widen (Nat.le_of_lt (Nat.lt_trans step.shorter start.shorter)))
      else .ok (start.map fun _ => state)
termination_by t.length
decreasing_by exact Nat.lt_trans step.shorter start.shorter

/-- The fields of a record that is written as an array, as far as they are there, with their
number; `count` of them are read already. -/
def fieldElements {σ : Type} (isFirst : Bool) (count : Nat) (state : σ) :
    List (Field σ) → (t : Text) → Except Fault ({ r : Text // r.length ≤ t.length } × σ × Nat)
  | [], t => .ok (⟨t, Nat.le_refl _⟩, state, count)
  | field :: fields, t =>
      match h : element? isFirst t with
      | .error fault => .error fault
      | .ok none => .ok (⟨t, Nat.le_refl _⟩, state, count)
      | .ok (some rest) => do
          let step ← field.read state rest
          let (⟨after, le⟩, state, count) ←
            fieldElements false (count + 1) step.value fields step.rest
          .ok (⟨after, Nat.le_trans le (Nat.le_of_lt
            (Nat.lt_of_lt_of_le step.shorter (length_of_element? h)))⟩, state, count)

namespace Shape

variable {σ α : Type} (shape : Shape σ α)

/-- How an array that is too short for the record is told what was asked for. -/
def arrayName : Text :=
  shape.name ++ " with " ++ Nat.toDigits 10 shape.fields.length ++ " elements"

/-- A record that is written as an object whose opening brace is read. -/
def readObject : Reader α := fun t => do
  let step ← members shape.fields true shape.start t
  match shape.finish step.value with
  | .ok record => .ok (step.map fun _ => record)
  | .error name => .error (.shape (.missingField name))

/-- A record that is written as an array whose opening bracket is read. -/
def readArray : Reader α := fun t => do
  let (⟨after, le⟩, state, count) ← fieldElements true 0 shape.start shape.fields t
  match shape.finish state with
  | .ok record =>
      let step ← listEnd after
      .ok ((step.map fun _ => record).widen le)
  | .error _ => .error (.shape (.tooShort count shape.arrayName))

/-- A record. -/
def read : Reader α := behindGap fun c rest =>
  if c = '{' then (shape.readObject rest).map (Step.widen (by simp))
  else if c = '[' then (shape.readArray rest).map (Step.widen (by simp))
  else wrongType shape.name (foundAt c rest)

end Shape

/-- A value that is all of a text but for white space. -/
def readAll {α : Type} (read : Reader α) (t : Text) : Except Fault α := do
  let step ← read t
  if (dropGap step.rest).isEmpty then .ok step.value else .error .malformed

end Wikidown.Json
