/-
# Wikidown.Timestamp -- reading and showing timestamps

A timestamp is read in the first of four forms that takes all of its text (`read?`):

1. the Internet form, every field in its full width, with a zone:
   `2024-01-02T03:04:05.000Z`, with `T`, `t` or a space and a colon in the offset;
2. the loose form with an offset: `2024-1-2T3:4:5.5 +0800`;
3. the loose form without a zone, which is UTC: `2024-01-02T03:04:05`;
4. date and time of day with white space or nothing between them, which is UTC.

In the loose forms white space may stand before each number.  A moment is shown in UTC,
to the second (`format?`); fractions of a second are dropped.
-/
import Wikidown.Calendar
import Wikidown.Text

namespace Wikidown.Timestamp

set_option autoImplicit false

open Calendar (Date Moment)

/-! ## Numbers and marks -/

/-- The value of a run of decimal digits. -/
def digitsValue (digits : Text) : Nat :=
  digits.foldl (fun value c => value * 10 + (c.toNat - '0'.toNat)) 0

/-- Exactly the given number of digits. -/
def fixed? (width : Nat) (t : Text) : Option (Nat × Text) :=
  let digits := t.take width
  if digits.length = width ∧ digits.all Char.isDigit then
    some (digitsValue digits, t.drop width)
  else none

/-- One digit up to the given number of them, as many as there are. -/
def upTo? (width : Nat) (t : Text) : Option (Nat × Text) :=
  let digits := (t.take width).takeWhile Char.isDigit
  if digits.isEmpty then none else some (digitsValue digits, t.drop digits.length)

/-- One or two digits behind white space. -/
def short? (t : Text) : Option (Nat × Text) := upTo? 2 (Text.trimStart t)

/-- A year behind white space: one to four digits, or any number behind a sign. -/
def year? (t : Text) : Option (Int × Text) :=
  match Text.trimStart t with
  | '-' :: rest => (upTo? rest.length rest).map fun (n, after) => (-(n : Int), after)
  | '+' :: rest => (upTo? rest.length rest).map fun (n, after) => ((n : Int), after)
  | rest => (upTo? 4 rest).map fun (n, after) => ((n : Int), after)

/-- A given character. -/
def mark? (c : Char) (t : Text) : Option Text :=
  match t with
  | d :: rest => if d = c then some rest else none
  | [] => none

/-- A fraction of a second, if there is one: a point and at least one digit. -/
def fraction? (t : Text) : Option Text :=
  match t with
  | '.' :: rest =>
      match rest with
      | c :: _ => if c.isDigit then some (rest.dropWhile Char.isDigit) else none
      | [] => none
  | _ => some t

/-! ## Offsets from UTC -/

/-- The sign of an offset, also as the mathematical minus sign. -/
def sign? (t : Text) : Option (Int × Text) :=
  match t with
  | c :: rest =>
      if c = '+' then some (1, rest)
      else if c = '-' ∨ c = '\u2212' then some (-1, rest)
      else none
  | [] => none

/-- Hours and minutes of an offset, in minutes; less than a day. -/
def offset (sign : Int) (hours minutes : Nat) : Option Int :=
  if hours < 24 ∧ minutes < 60 then some (sign * (hours * 60 + minutes : Nat)) else none

/-- A zone of the Internet form, `Z` or an offset with a colon, up to the end. -/
def zone? (t : Text) : Option Int :=
  match t with
  | ['Z'] | ['z'] => some 0
  | _ => do
      let (sign, t) ← sign? t
      let (hours, t) ← fixed? 2 t
      let t ← mark? ':' t
      let (minutes, t) ← fixed? 2 t
      if t.isEmpty then offset sign hours minutes else none

/-- An offset of the loose form, up to the end: colons and white space may stand between
hours and minutes. -/
def looseOffset? (t : Text) : Option Int := do
  let (sign, t) ← sign? (Text.trimStart t)
  let (hours, t) ← fixed? 2 t
  let (minutes, t) ← fixed? 2 (t.dropWhile fun c => c == ':' || isSpace c)
  if t.isEmpty then offset sign hours minutes else none

/-! ## The four forms -/

/-- A moment that exists. -/
def existing? (m : Moment) : Option Moment := if m.isValid then some m else none

/-- The date and time of day of the Internet form. -/
def fullMoment? (t : Text) : Option (Moment × Text) := do
  let (year, t) ← fixed? 4 t
  let t ← mark? '-' t
  let (month, t) ← fixed? 2 t
  let t ← mark? '-' t
  let (day, t) ← fixed? 2 t
  let t ← mark? 'T' t <|> mark? 't' t <|> mark? ' ' t
  let (hour, t) ← fixed? 2 t
  let t ← mark? ':' t
  let (minute, t) ← fixed? 2 t
  let t ← mark? ':' t
  let (second, t) ← fixed? 2 t
  let m ← existing? ⟨⟨year, month, day⟩, hour, minute, second⟩
  some (m, t)

/-- A date of the loose forms. -/
def looseDate? (t : Text) : Option (Date × Text) := do
  let (year, t) ← year? t
  let t ← mark? '-' t
  let (month, t) ← short? t
  let t ← mark? '-' t
  let (day, t) ← short? t
  some (⟨year, month, day⟩, t)

/-- A date of the loose forms and the time of day behind it. -/
def looseTime? (date : Date) (t : Text) : Option (Moment × Text) := do
  let (hour, t) ← short? t
  let t ← mark? ':' t
  let (minute, t) ← short? t
  let t ← mark? ':' t
  let (second, t) ← short? t
  let m ← existing? ⟨date, hour, minute, second⟩
  some (m, t)

/-- Form 1, in UTC. -/
def internet? (t : Text) : Option Moment := do
  let (m, t) ← fullMoment? t
  let t ← fraction? t
  let offset ← zone? t
  m.later? (-offset)

/-- The date, the time of day and the fraction that forms 2 and 3 start with. -/
def looseMoment? (t : Text) : Option (Moment × Text) := do
  let (date, t) ← looseDate? t
  let t ← mark? 'T' t
  let (m, t) ← looseTime? date t
  let t ← fraction? t
  some (m, t)

/-- Form 2, in UTC. -/
def withOffset? (t : Text) : Option Moment := do
  let (m, t) ← looseMoment? t
  let offset ← looseOffset? t
  m.later? (-offset)

/-- Form 3. -/
def withoutZone? (t : Text) : Option Moment := do
  let (m, t) ← looseMoment? t
  if t.isEmpty then some m else none

/-- Form 4. -/
def spaced? (t : Text) : Option Moment := do
  let (date, t) ← looseDate? t
  let (m, t) ← looseTime? date (Text.trimStart t)
  if t.isEmpty then some m else none

/-- The moment that a timestamp denotes, in UTC. -/
def read? (t : Text) : Option Moment :=
  let t := Text.trim t
  internet? t <|> withOffset? t <|> withoutZone? t <|> spaced? t

/-! ## Showing a moment -/

/-- A number in at least the given number of digits. -/
def padded (width n : Nat) : Text :=
  let digits := Nat.toDigits 10 n
  List.replicate (width - digits.length) '0' ++ digits

/-- A year in at least four digits; one outside the years 0 to 9999 has its sign. -/
def showYear (year : Int) : Text :=
  if year < 0 then '-' :: padded 4 year.natAbs
  else if year ≤ 9999 then padded 4 year.natAbs
  else '+' :: padded 4 year.natAbs

/-- A date. -/
def showDate (d : Date) : Text :=
  showYear d.year ++ '-' :: padded 2 d.month ++ '-' :: padded 2 d.day

/-- A moment in UTC, to the second, without its zone. -/
def showMoment (m : Moment) : Text :=
  showDate m.date ++ ' ' :: padded 2 m.hour ++ ':' :: padded 2 m.minute ++ ':' :: padded 2 m.second

/-- A timestamp as it is shown: in UTC, or not at all if it cannot be read. -/
def format? (t : Text) : Option Text := (read? t).map fun m => showMoment m ++ " UTC"

end Wikidown.Timestamp
