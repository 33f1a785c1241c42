/-
# Wikidown.Decimal.Shortest -- the fewest digits that read back

A binary floating-point number stands for all real numbers that round to it.  Its
shortest decimal is the one with the fewest digits among them, and of several such
the nearest to the number.

The search goes over the grids of multiples of a power of ten, from coarse to fine.  On
each grid only the two neighbours of the number need a look, in exact arithmetic on
natural numbers: the first grid with a neighbour in the interval has the answer.
-/

namespace Wikidown.Decimal

set_option autoImplicit false

/-- A positive number `mantissa * 2 ^ exponent`. -/
structure Binary where
  mantissa : Nat
  exponent : Int
  /-- Whether the next smaller number is only half as far away as the next larger one. -/
  atPower : Bool

/-- The number of fractions that a double can have, in 52 bits. -/
def fractionCount : Nat := 0x10000000000000

/-- The number that the lower 63 bits of a finite double stand for. -/
def Binary.ofBits (bits : Nat) : Binary :=
  let fraction := bits % fractionCount
  let scale := bits / fractionCount % 2048
  if scale = 0 then ⟨fraction, -1074, false⟩
  else ⟨fractionCount + fraction, (scale : Int) - 1075, fraction == 0 && 1 < scale⟩

/-- A decimal number `digits * 10 ^ exponent`. -/
structure Scientific where
  digits : Nat
  exponent : Int
  deriving DecidableEq

namespace Binary

/-- What a grid of multiples of `10 ^ exponent` is compared by: multiples are multiplied by
the first number, and quarters of the mantissa's unit by the second. -/
def scales (b : Binary) (exponent : Int) : Nat × Nat :=
  let quarter := b.exponent - 2
  (Nat.pow 10 exponent.toNat * Nat.pow 2 (-quarter).toNat,
    Nat.pow 10 (-exponent).toNat * Nat.pow 2 quarter.toNat)

/-- Whether a multiple of the grid rounds to the number.  The ends of the interval belong
to it when the mantissa is even. -/
def admits (b : Binary) (exponent : Int) (n : Nat) : Bool :=
  let (grid, quarter) := b.scales exponent
  let low := (4 * b.mantissa - if b.atPower then 1 else 2) * quarter
  let high := (4 * b.mantissa + 2) * quarter
  if b.mantissa % 2 = 0 then low ≤ n * grid && n * grid ≤ high
  else low < n * grid && n * grid < high

/-- The nearest multiple of the grid that rounds to the number, if one does. -/
def onGrid? (b : Binary) (exponent : Int) : Option Nat :=
  let (grid, quarter) := b.scales exponent
  let exact := 4 * b.mantissa * quarter
  let below := exact / grid
  let above := below + 1
  match b.admits exponent below, b.admits exponent above with
  | true, true =>
      if exact - below * grid < above * grid - exact then some below
      else if above * grid - exact < exact - below * grid then some above
      else some (if below % 2 = 0 then below else above)
  | true, false => some below
  | false, true => some above
  | false, false => none

/-- The coarsest grid from `10 ^ (steps - 325)` down that has a multiple which rounds to the
number. -/
def search (b : Binary) : Nat → Option Scientific
  | 0 => none
  | steps + 1 =>
      let exponent := (steps : Int) - 324
      match b.onGrid? exponent with
      | some digits => some ⟨digits, exponent⟩
      | none => b.search steps

/-- The shortest decimal that rounds to the number; zero is its own. -/
def shortest (b : Binary) : Scientific :=
  if b.mantissa = 0 then ⟨0, 0⟩ else (b.search 634).getD ⟨0, 0⟩

end Binary

end Wikidown.Decimal
