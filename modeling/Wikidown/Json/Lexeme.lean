/-
# Wikidown.Json.Lexeme -- the words of JSON

Readers for what a JSON text is made of: white space, literals, strings and numbers.  A
reader takes its word off the front of a text, and what it leaves is shorter (`Step`),
which is why every loop over them ends.

A string or a number is read more strictly when its value is kept than when it is
skipped: a skipped string may hold half of a surrogate pair, and a skipped number may
be too large for a double.
-/
import Wikidown.Json.Fault
import Wikidown.Markup.Reference

namespace Wikidown.Json

set_option autoImplicit false

open Wikidown.Markup (digitValue?)

/-- What a reader takes off the front of `t` and what it leaves, which is shorter. -/
structure Step (t : Text) (α : Type) where
  value : α
  rest : Text
  shorter : rest.length < t.length

/-- A reader of values. -/
abbrev Reader (α : Type) := (t : Text) → Except Fault (Step t α)

namespace Step

/-- A step from a part of the text is a step from the text. -/
def widen {s t : Text} {α : Type} (le : s.length ≤ t.length) (step : Step s α) : Step t α :=
  ⟨step.value, step.rest, Nat.lt_of_lt_of_le step.shorter le⟩

/-- The same step with another value. -/
def map {t : Text} {α β : Type} (f : α → β) (step : Step t α) : Step t β :=
  ⟨f step.value, step.rest, step.shorter⟩

end Step

/-! ## White space and literals -/

/-- White space between words. -/
def isGap (c : Char) : Bool := c == ' ' || c == '\t' || c == '\n' || c == '\r'

/-- The text behind the white space at its start. -/
def dropGap (t : Text) : Text := t.dropWhile isGap

theorem length_dropGap_le (t : Text) : (dropGap t).length ≤ t.length := length_dropWhile_le _ t

/-- The text behind a literal word. -/
def word (w : Text) (t : Text) : Except Fault Text :=
  match w, t with
  | [], rest => .ok rest
  | _ :: _, [] => .error .truncated
  | c :: w, d :: rest => if c = d then word w rest else .error .malformed

/-! ## Strings -/

/-- Four hexadecimal digits. -/
def hex4 : Reader Nat := fun t =>
  match t with
  | a :: b :: c :: d :: rest =>
      match digitValue? 16 a, digitValue? 16 b, digitValue? 16 c, digitValue? 16 d with
      | some a, some b, some c, some d =>
          .ok ⟨((a * 16 + b) * 16 + c) * 16 + d, rest, by simp only [List.length_cons]; omega⟩
      | _, _, _, _ => .error .malformed
  | _ => .error (if Text.byteLength t < 4 then .truncated else .malformed)

/-- The character of a surrogate pair. -/
def pairedChar (high low : Nat) : Char :=
  Char.ofNat ((high - 0xD800) * 0x400 + (low - 0xDC00) + 0x10000)

/-- The second half of a surrogate pair whose first half is read. -/
def lowSurrogate (high : Nat) : Reader Char := fun t =>
  match t with
  | '\\' :: 'u' :: rest => do
      let low ← hex4 rest
      if 0xDC00 ≤ low.value ∧ low.value ≤ 0xDFFF then
        .ok ⟨pairedChar high low.value, low.rest, by
          have := low.shorter; simp only [List.length_cons]; omega⟩
      else .error .malformed
  | [] | ['\\'] => .error .truncated
  | _ => .error .malformed

/-- A character by its code in UTF-16, whose `\u` is read. -/
def unicodeEscape : Reader Char := fun t => do
  let unit ← hex4 t
  if 0xDC00 ≤ unit.value ∧ unit.value ≤ 0xDFFF then .error .malformed
  else if 0xD800 ≤ unit.value ∧ unit.value ≤ 0xDBFF then
    let low ← lowSurrogate unit.value unit.rest
    .ok (low.widen (Nat.le_of_lt unit.shorter))
  else .ok (unit.map Char.ofNat)

/-- The character that a letter stands for behind a backslash. -/
def simpleEscape? (c : Char) : Option Char :=
  match c with
  | '"' => some '"'
  | '\\' => some '\\'
  | '/' => some '/'
  | 'b' => some '\x08'
  | 'f' => some '\x0c'
  | 'n' => some '\n'
  | 'r' => some '\r'
  | 't' => some '\t'
  | _ => none

/-- An escaped character whose backslash is read. -/
def escapedChar : Reader Char := fun t =>
  match t with
  | [] => .error .truncated
  | c :: rest =>
      match simpleEscape? c with
      | some character => .ok ⟨character, rest, by simp⟩
      | none =>
          if c = 'u' then (unicodeEscape rest).map (Step.widen (by simp))
          else .error .malformed

/-- A string whose opening quote is read. -/
def stringBody (t : Text) : Except Fault (Step t Text) :=
  match t with
  | [] => .error .truncated
  | c :: rest =>
      if c = '"' then .ok ⟨[], rest, by simp⟩
      else if c = '\\' then
        match escapedChar rest with
        | .error fault => .error fault
        | .ok character =>
            (stringBody character.rest).map fun step =>
              (step.map (character.value :: ·)).widen
                (Nat.le_of_lt (Nat.lt_succ_of_lt character.shorter))
      else if c.toNat < 0x20 then .error .malformed
      else
        (stringBody rest).map fun step => (step.map (c :: ·)).widen (by simp)
termination_by t.length
decreasing_by
  · have := character.shorter; simp only [List.length_cons]; omega
  · simp

/-- The text behind a string whose opening quote is read; its value is not looked at. -/
def skipString (t : Text) : Except Fault (Step t Unit) :=
  match t with
  | [] => .error .truncated
  | c :: rest =>
      if c = '"' then .ok ⟨(), rest, by simp⟩
      else if c = '\\' then
        match rest with
        | [] => .error .truncated
        | e :: rest =>
            if (simpleEscape? e).isSome then
              (skipString rest).map (Step.widen (Nat.le_succ_of_le (Nat.le_succ _)))
            else if e = 'u' then
              match hex4 rest with
              | .error fault => .error fault
              | .ok code =>
                  (skipString code.rest).map (Step.widen
                    (Nat.le_succ_of_le (Nat.le_succ_of_le (Nat.le_of_lt code.shorter))))
            else .error .malformed
      else if c.toNat < 0x20 then .error .malformed
      else (skipString rest).map (Step.widen (Nat.le_succ _))
termination_by t.length
decreasing_by
  · simp only [List.length_cons]; omega
  · have := code.shorter; simp only [List.length_cons]; omega
  · simp

/-! ## Numbers that are skipped -/

/-- Behind the digits of a skipped number: the digits of its exponent, if it has one. -/
def skipExponent (t : Text) : Except Fault Text :=
  match t with
  | c :: rest =>
      if c = 'e' ∨ c = 'E' then
        let digits := match rest with
          | '+' :: after | '-' :: after => after
          | _ => rest
        match digits with
        | d :: after =>
            if d.isDigit then .ok (after.dropWhile Char.isDigit) else .error .malformed
        | [] => .error .malformed
      else .ok t
  | [] => .ok []

/-- Behind the integer part of a skipped number. -/
def skipFraction (t : Text) : Except Fault Text :=
  match t with
  | '.' :: d :: rest =>
      if d.isDigit then skipExponent (rest.dropWhile Char.isDigit) else .error .malformed
  | ['.'] => .error .malformed
  | _ => skipExponent t

/-- Behind the sign of a skipped number. -/
def skipNumber (t : Text) : Except Fault Text :=
  match t with
  | '0' :: rest =>
      match rest with
      | d :: _ => if d.isDigit then .error .malformed else skipFraction rest
      | [] => .ok []
  | d :: rest =>
      if d.isDigit then skipFraction (rest.dropWhile Char.isDigit) else .error .malformed
  | [] => .error .malformed

end Wikidown.Json
