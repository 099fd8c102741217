/-!
# Shortest decimals

A binary floating-point number is the real `significand · 2 ^ exponent`, and every real in a small
interval around it rounds to it. Its shortest decimal is the one with the fewest digits in that
interval, and among those the one nearest to the number. All arithmetic is exact.
-/

namespace JvmClass.Decimal

/-- A binary interchange format: bits of the significand, the leading one included, and bits of the
exponent field. -/
structure BinaryFormat where
  precision : Nat
  exponentBits : Nat
deriving DecidableEq, Repr

/-- The number a bit pattern stands for. -/
inductive Binary where
  | finite (negative : Bool) (significand : Nat) (exponent : Int)
  | infinite (negative : Bool)
  | nan
deriving DecidableEq, Repr

namespace BinaryFormat

def binary32 : BinaryFormat := ⟨24, 8⟩

def binary64 : BinaryFormat := ⟨53, 11⟩

/-- Width of the stored fraction, which leaves the leading one out. -/
def fractionBits (f : BinaryFormat) : Nat :=
  f.precision - 1

/-- Exponent of the subnormal numbers and of the smallest normal ones. -/
def leastExponent (f : BinaryFormat) : Int :=
  2 - (Nat.pow 2 (f.exponentBits - 1) : Int) - f.fractionBits

def ofBits (f : BinaryFormat) (bits : Nat) : Binary :=
  let fraction := bits % Nat.pow 2 f.fractionBits
  let biased := bits / Nat.pow 2 f.fractionBits % Nat.pow 2 f.exponentBits
  let negative := bits / Nat.pow 2 (f.fractionBits + f.exponentBits) % 2 == 1
  if biased = Nat.pow 2 f.exponentBits - 1 then
    if fraction = 0 then .infinite negative else .nan
  else if biased = 0 then .finite negative fraction f.leastExponent
  else .finite negative (Nat.pow 2 f.fractionBits + fraction) (f.leastExponent + biased - 1)

end BinaryFormat

/-- The reals that round to one number, in units of `2 ^ exponent`. The ends belong to it when it is
closed. -/
structure Interval where
  low : Nat
  center : Nat
  high : Nat
  closed : Bool
  exponent : Int
deriving DecidableEq, Repr

/-- Halfway to either neighbour of `significand · 2 ^ exponent`. Below a power of two the neighbour
is half as far away as above it, unless the numbers are already at their closest there. Halfway
points round to the even significand. -/
def BinaryFormat.interval (f : BinaryFormat) (significand : Nat) (exponent : Int) : Interval where
  low :=
    if significand = Nat.pow 2 f.fractionBits ∧ f.leastExponent < exponent then
      4 * significand - 1
    else 4 * significand - 2
  center := 4 * significand
  high := 4 * significand + 2
  closed := significand % 2 == 0
  exponent := exponent - 2

/-- The decimal `coefficient · 10 ^ exponent`. -/
structure Scaled where
  coefficient : Nat
  exponent : Int
deriving DecidableEq, Repr

def digitCount (n : Nat) : Nat :=
  (Nat.toDigits 10 n).length

/-- The exponent `k` with `10 ^ k ≤ num / den < 10 ^ (k + 1)`. -/
def decade (num den : Nat) : Int :=
  if den ≤ num then (digitCount (num / den) : Int) - 1
  else -(digitCount ((den - 1) / num) : Int)

namespace Interval

/-- The point of the grid of multiples of `10 ^ gridExponent` that lies in the interval, if there is
one next to its centre. Of two such points the nearer wins, and the upper one at equal distance. -/
def onGrid? (i : Interval) (gridExponent : Int) : Option Scaled :=
  let unit := Nat.pow 2 i.exponent.toNat * Nat.pow 10 (-gridExponent).toNat
  let step := Nat.pow 2 (-i.exponent).toNat * Nat.pow 10 gridExponent.toNat
  let holds (c : Nat) : Bool :=
    if i.closed then i.low * unit ≤ c * step && c * step ≤ i.high * unit
    else i.low * unit < c * step && c * step < i.high * unit
  let below := i.center * unit / step
  let above := below + 1
  let aboveIsNearer : Bool :=
    above * step - i.center * unit ≤ i.center * unit - below * step
  if holds above && (aboveIsNearer || !holds below) then some ⟨above, gridExponent⟩
  else if holds below then some ⟨below, gridExponent⟩
  else none

/-- The shortest decimal in the interval: grids are tried from one digit upward. Seventeen digits
tell any two numbers of either format apart. -/
def shortest (i : Interval) : Scaled :=
  let num := i.center * Nat.pow 2 i.exponent.toNat
  let den := Nat.pow 2 (-i.exponent).toNat
  let lead := decade num den
  ((List.range 17).findSome? fun (extra : Nat) => i.onGrid? (lead - extra)).getD
    ⟨num / den, 0⟩

end Interval

end JvmClass.Decimal
