/-
# Wikidown.Json.Number -- numbers whose value is kept

A number is an integer while it has neither point nor exponent and fits 64 bits, with or
without a sign; any other is a double.  A double is computed from the digits that fit 64
bits and a power of ten, and a number too large for a double is refused.
-/
import Wikidown.Json.Lexeme

namespace Wikidown.Json

set_option autoImplicit false

/-- A number: an integer of at most 64 bits, or a double. -/
inductive Numeral where
  | integer (value : Int)
  | float (value : Float)

/-- A number as something found where another kind of value was asked for. -/
def Numeral.found : Numeral → Found
  | integer value => .integer value
  | float value => .float value

/-! ## Digits -/

/-- The largest number of 64 bits. -/
def maxWord : Nat := 0xFFFFFFFFFFFFFFFF

/-- The value of further digits behind a value, as long as it fits 64 bits, and the number
of digits from the first that does not fit. -/
def appendDigits (value : Nat) : Text → Nat × Nat
  | [] => (value, 0)
  | c :: rest =>
      let more := value * 10 + (c.toNat - '0'.toNat)
      if maxWord < more then (value, rest.length + 1) else appendDigits more rest

/-- The digits at the start of a text and the rest. -/
def splitDigits (t : Text) : Text × Text :=
  (t.takeWhile Char.isDigit, t.dropWhile Char.isDigit)

theorem length_splitDigits (t : Text) :
    (splitDigits t).1.length + (splitDigits t).2.length = t.length := by
  have whole : t.takeWhile Char.isDigit ++ t.dropWhile Char.isDigit = t :=
    List.takeWhile_append_dropWhile
  have total := congrArg List.length whole
  rwa [List.length_append] at total

/-- A sign before digits, as a factor, and the rest; no sign is a plus. -/
def splitSign (t : Text) : Int × Text :=
  match t with
  | '+' :: rest => (1, rest)
  | '-' :: rest => (-1, rest)
  | _ => (1, t)

/-- An exponent whose `e` is read: its value. -/
def exponent (t : Text) : Except Fault (Int × Text) :=
  let (sign, t) := splitSign t
  let (digits, rest) := splitDigits t
  if digits.isEmpty then .error (if rest.isEmpty then .truncated else .malformed)
  else
    let size := digits.foldl (fun n c => n * 10 + (c.toNat - '0'.toNat)) 0
    .ok (sign * (size : Int), rest)

/-! ## Doubles -/

/-- A power of ten up to the 308th. -/
def powerOfTen (n : Nat) : Float := Float.ofScientific 1 false n

/-- A double divided by a power of ten, in steps that a double can hold. -/
def scaleDown (x : Float) (n : Nat) : Float :=
  if n ≤ 308 then x / powerOfTen n
  else if x == 0 then x
  else scaleDown (x / powerOfTen 308) (n - 308)
termination_by n

/-- The double for a number of 64 bits times a power of ten. -/
def double (value : Nat) (exponent : Int) : Except Fault Float :=
  let x := value.toUInt64.toFloat
  if exponent < 0 then .ok (scaleDown x exponent.natAbs)
  else if exponent ≤ 308 then
    let scaled := x * powerOfTen exponent.toNat
    if scaled.isInf then .error .malformed else .ok scaled
  else if x == 0 then .ok x
  else .error .malformed

/-! ## Numbers -/

/-- The parts of a number: the value of its digits, the power of ten that it is multiplied
by, and whether it is written without point and exponent. -/
structure Parts where
  value : Nat
  exponent : Int
  isWhole : Bool

/-- Behind the digits of a number: its exponent, if it has one. -/
def withExponent (p : Parts) (t : Text) : Except Fault (Parts × Text) :=
  match t with
  | c :: rest =>
      if c = 'e' ∨ c = 'E' then do
        let (e, rest) ← exponent rest
        .ok (⟨p.value, p.exponent + e, false⟩, rest)
      else .ok (p, t)
  | [] => .ok (p, t)

/-- Behind the integer part of a number: its fraction, if it has one. -/
def withFraction (p : Parts) (t : Text) : Except Fault (Parts × Text) :=
  match t with
  | '.' :: rest =>
      let (digits, rest) := splitDigits rest
      if digits.isEmpty then .error (if rest.isEmpty then .truncated else .malformed)
      else
        let (value, dropped) := appendDigits p.value digits
        withExponent ⟨value, p.exponent - (digits.length - dropped : Nat), false⟩ rest
  | _ => withExponent p t

/-- The parts of a number without its sign.  It starts with a digit, and with a zero only
if that is its whole integer part. -/
def parts (t : Text) : Except Fault (Parts × Text) :=
  let (digits, rest) := splitDigits t
  match digits with
  | [] => .error (if rest.isEmpty then .truncated else .malformed)
  | '0' :: _ :: _ => .error .malformed
  | _ =>
      let (value, dropped) := appendDigits 0 digits
      withFraction ⟨value, dropped, dropped = 0⟩ rest

/-- The number that the parts make.  Zero with a sign, and an integer too small for 64 bits,
are doubles. -/
def Parts.numeral (p : Parts) (isNegative : Bool) : Except Fault Numeral :=
  if p.isWhole ∧ ¬ isNegative then .ok (.integer p.value)
  else if p.isWhole ∧ 0 < p.value ∧ p.value ≤ 0x8000000000000000 then .ok (.integer (-(p.value : Int)))
  else (double p.value p.exponent).map fun x => .float (if isNegative then -x else x)

theorem length_splitSign_le (t : Text) : (splitSign t).2.length ≤ t.length := by
  simp only [splitSign]
  split <;> simp

theorem length_of_exponent {t rest : Text} {e : Int} (h : exponent t = .ok (e, rest)) :
    rest.length ≤ t.length := by
  have le := length_splitSign_le t
  have total := length_splitDigits (splitSign t).2
  simp only [exponent] at h
  split at h
  · simp at h
  · simp only [Except.ok.injEq, Prod.mk.injEq] at h
    rw [h.2] at total
    omega

theorem length_of_withExponent {p q : Parts} {t rest : Text}
    (h : withExponent p t = .ok (q, rest)) : rest.length ≤ t.length := by
  simp only [withExponent] at h
  split at h
  · next c after =>
    split at h
    · cases read : exponent after with
      | error fault => simp [read, bind, Except.bind] at h
      | ok e =>
          have := length_of_exponent read
          simp only [read, bind, Except.bind, Except.ok.injEq, Prod.mk.injEq] at h
          rw [← h.2, List.length_cons]
          omega
    · simp only [Except.ok.injEq, Prod.mk.injEq] at h
      exact h.2 ▸ Nat.le_refl _
  · simp only [Except.ok.injEq, Prod.mk.injEq] at h
    exact h.2 ▸ Nat.le_refl _

theorem length_of_withFraction {p q : Parts} {t rest : Text}
    (h : withFraction p t = .ok (q, rest)) : rest.length ≤ t.length := by
  simp only [withFraction] at h
  split at h
  · next after =>
    have total := length_splitDigits after
    split at h
    · simp at h
    · have := length_of_withExponent h
      simp only [List.length_cons]
      omega
  · exact length_of_withExponent h

theorem length_of_parts {p : Parts} {t rest : Text} (h : parts t = .ok (p, rest)) :
    rest.length < t.length := by
  have total := length_splitDigits t
  simp only [parts] at h
  split at h
  · simp at h
  · simp at h
  · next nonempty _ =>
    have := length_of_withFraction h
    have := List.length_pos_iff.2 nonempty
    omega

/-- Whether a number has a minus sign, and the number behind it. -/
def splitMinus (t : Text) : Bool × Text :=
  match t with
  | '-' :: rest => (true, rest)
  | _ => (false, t)

theorem length_splitMinus_le (t : Text) : (splitMinus t).2.length ≤ t.length := by
  simp only [splitMinus]
  split <;> simp

/-- A number. -/
def number (t : Text) : Except Fault (Numeral × Text) := do
  let (p, rest) ← parts (splitMinus t).2
  let n ← p.numeral (splitMinus t).1
  .ok (n, rest)

theorem length_of_number {n : Numeral} {t rest : Text} (h : number t = .ok (n, rest)) :
    rest.length < t.length := by
  have le := length_splitMinus_le t
  simp only [number] at h
  cases read : parts (splitMinus t).2 with
  | error fault => simp [read, bind, Except.bind] at h
  | ok p =>
      have := length_of_parts read
      cases value : p.1.numeral (splitMinus t).1 with
      | error fault => simp [read, value, bind, Except.bind] at h
      | ok m =>
          simp only [read, value, bind, Except.bind, Except.ok.injEq, Prod.mk.injEq] at h
          rw [← h.2]
          omega

end Wikidown.Json
