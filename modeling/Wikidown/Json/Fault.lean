/-
# Wikidown.Json.Fault -- why a text is not the record that was asked for

A text can fail to be JSON, end too early, or be JSON of the wrong shape.  The first fault
in the order of the text is the one that is reported, and a fault of shape says in words
what was found and what was asked for.
-/
import Wikidown.Decimal.Shortest
import Wikidown.Text.Quoted

namespace Wikidown.Json

set_option autoImplicit false

/-- A value that stands where another kind of value was asked for. -/
inductive Found where
  | null
  | boolean (value : Bool)
  | integer (value : Int)
  | float (value : Float)
  | string (value : Text)
  | list
  | record

/-- How the shape of a value fails the record that was asked for. -/
inductive ShapeFault where
  | missingField (name : Text)
  | duplicateField (name : Text)
  | wrongType (found : Found) (expected : Text)
  | outOfRange (value : Int) (expected : Text)
  | tooShort (length : Nat) (expected : Text)

/-- Why a text cannot be read. -/
inductive Fault where
  /-- A character stands where JSON allows none like it. -/
  | malformed
  /-- The text ends inside a value. -/
  | truncated
  /-- The text is JSON up to here, but not of the shape that was asked for. -/
  | shape (fault : ShapeFault)

/-! ## Numbers in messages -/

/-- An integer in decimal digits. -/
def integerText (n : Int) : Text :=
  if n < 0 then '-' :: Nat.toDigits 10 n.natAbs else Nat.toDigits 10 n.natAbs

/-- A decimal with its point among or beside its digits, with at least one digit on each
side of the point. -/
def positional (digits : Text) (exponent : Int) : Text :=
  if 0 ≤ exponent then digits ++ List.replicate exponent.toNat '0' ++ ".0"
  else
    let places := (-exponent).toNat
    if places < digits.length then
      digits.take (digits.length - places) ++ '.' :: digits.drop (digits.length - places)
    else "0." ++ List.replicate (places - digits.length) '0' ++ digits

/-- A decimal with one digit before the point and a power of ten, whose exponent always has
its sign. -/
def scientific (digits : Text) (power : Int) : Text :=
  let fraction : Text := if digits.length ≤ 1 then [] else '.' :: digits.drop 1
  digits.take 1 ++ fraction ++ ['e', if power < 0 then '-' else '+']
    ++ Nat.toDigits 10 power.natAbs

/-- A floating-point number in the fewest digits: with a point from the fifth place behind
it to sixteen digits before it, with a power of ten beyond. -/
def floatText (x : Float) : Text :=
  let bits := x.toBits.toNat
  let sign : Text := if bits < 0x8000000000000000 then [] else ['-']
  let shortest := (Decimal.Binary.ofBits bits).shortest
  let digits := Nat.toDigits 10 shortest.digits
  let power := shortest.exponent + digits.length - 1
  sign ++
    if -5 ≤ power ∧ power ≤ 15 then positional digits shortest.exponent
    else scientific digits power

/-! ## Messages -/

/-- What was found, in words. -/
def Found.message : Found → Text
  | null => "null"
  | boolean value => "boolean `" ++ (if value then "true" else "false") ++ "`"
  | integer value => "integer `" ++ integerText value ++ "`"
  | float value => "floating point `" ++ floatText value ++ "`"
  | string value => "string " ++ Text.quoted value
  | list => "sequence"
  | record => "map"

/-- What is wrong with the shape, in words. -/
def ShapeFault.message : ShapeFault → Text
  | missingField name => "missing field `" ++ name ++ "`"
  | duplicateField name => "duplicate field `" ++ name ++ "`"
  | wrongType found expected => "invalid type: " ++ found.message ++ ", expected " ++ expected
  | outOfRange value expected =>
      "invalid value: integer `" ++ integerText value ++ "`, expected " ++ expected
  | tooShort length expected =>
      "invalid length " ++ Nat.toDigits 10 length ++ ", expected " ++ expected

/-- What is wrong with the text, in words. -/
def Fault.message : Fault → Text
  | malformed => "JSON error: the text is not well-formed"
  | truncated => "JSON error: the text ends too early"
  | shape fault => "JSON error: " ++ fault.message

end Wikidown.Json
