/-
# Wikidown.Markup.Reference -- character references

A character reference stands for one character: `&`, a name or a number, `;`.
Storage markup uses six names, and the decimal and hexadecimal numbers.  `decode`
replaces the references of a text in one pass from left to right; what is no
reference is kept, the ampersand included, and a replaced character takes no part in
another reference.
-/
import Wikidown.Text

namespace Wikidown.Markup

set_option autoImplicit false

/-! ## Numbers in references -/

/-- The value of a digit in a base of at most sixteen. -/
def digitValue? (base : Nat) (c : Char) : Option Nat :=
  let value :=
    if '0' ≤ c && c ≤ '9' then c.toNat - '0'.toNat
    else if 'a' ≤ c && c ≤ 'f' then c.toNat - 'a'.toNat + 10
    else if 'A' ≤ c && c ≤ 'F' then c.toNat - 'A'.toNat + 10
    else base
  if value < base then some value else none

/-- The value of further digits behind a number that is already read. -/
def digitsFrom? (base value : Nat) : Text → Option Nat
  | [] => some value
  | c :: rest => (digitValue? base c).bind fun d => digitsFrom? base (value * base + d) rest

/-- A number: at least one digit, with at most one plus sign before it. -/
def number? (base : Nat) (t : Text) : Option Nat :=
  let digits := match t with
    | '+' :: rest => rest
    | _ => t
  if digits.isEmpty then none else digitsFrom? base 0 digits

/-- The character with a given number, if a character has it. -/
def character? (code : Nat) : Option Char :=
  if h : code.isValidChar then some (Char.ofNatAux code h) else none

/-! ## References -/

/-- The characters that have a name in storage markup. -/
def namedCharacters : List (Text × Char) :=
  [("amp", '&'), ("lt", '<'), ("gt", '>'), ("quot", '"'), ("apos", '\''), ("nbsp", '\u00a0')]

/-- The character that stands between `&` and `;` by its name or its number. -/
def referenced? (name : Text) : Option Char :=
  match name with
  | '#' :: 'x' :: digits => (number? 16 digits).bind character?
  | '#' :: 'X' :: digits => (number? 16 digits).bind character?
  | '#' :: digits => (number? 10 digits).bind character?
  | _ => namedCharacters.lookup name

/-- A reference whose ampersand is already read: its character and the text behind it.
What stands between `&` and `;` is at most eleven bytes long. -/
def reference? (t : Text) : Option (Char × Text) :=
  let name := (t.take 12).takeWhile (· != ';')
  match t.drop name.length with
  | ';' :: rest =>
      if Text.byteLength name ≤ 11 then (referenced? name).map fun c => (c, rest) else none
  | _ => none

theorem length_of_reference? {t rest : Text} {c : Char} (h : reference? t = some (c, rest)) :
    rest.length < t.length := by
  simp only [reference?] at h
  split at h
  · next after eq =>
    split at h
    · simp only [Option.map_eq_some_iff, Prod.mk.injEq] at h
      obtain ⟨_, _, _, rfl⟩ := h
      have := congrArg List.length eq
      simp only [List.length_drop, List.length_cons] at this
      omega
    · simp at h
  · simp at h

/-- The text with every reference replaced by its character. -/
def decode : Text → Text
  | [] => []
  | c :: rest =>
      if c = '&' then
        match _h : reference? rest with
        | some (character, after) => character :: decode after
        | none => '&' :: decode rest
      else c :: decode rest
termination_by t => t.length
decreasing_by
  · have := length_of_reference? _h; simp only [List.length_cons]; omega
  · simp
  · simp

end Wikidown.Markup
