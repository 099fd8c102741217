import JvmClass.Decimal.Shortest

/-!
# Layout of decimals

Where the point goes: numbers of ordinary size are written positionally, very large and very small
ones with an exponent.
-/

namespace JvmClass.Decimal

/-- How a format writes its numbers. A number is positional when the exponent of its first digit
lies between `leastPositional` and `greatestPositional`. -/
structure Layout where
  leastPositional : Int
  greatestPositional : Int
  wholeSuffix : String
  exponentMark : String
  zero : String
  infinity : String
  notANumber : String
deriving DecidableEq, Repr

/-- Significant digits without trailing zeros. -/
def significantDigits (n : Nat) : List Char :=
  ((Nat.toDigits 10 n).reverse.dropWhile (· == '0')).reverse

namespace Layout

/-- Digits with the point after the place of `10 ^ 0`; `lead` is the place of the first digit. -/
def positional (l : Layout) (digits : List Char) (lead : Int) : String :=
  if lead < 0 then
    "0." ++ String.ofList (List.replicate (-lead - 1).toNat '0' ++ digits)
  else
    let whole := lead.toNat + 1
    if digits.length ≤ whole then
      String.ofList (digits ++ List.replicate (whole - digits.length) '0') ++ l.wholeSuffix
    else
      String.ofList (digits.take whole) ++ "." ++ String.ofList (digits.drop whole)

/-- One digit before the point, and the exponent after a mark. -/
def scientific (l : Layout) (digits : List Char) (lead : Int) : String :=
  let fraction := if digits.length ≤ 1 then "" else "." ++ String.ofList (digits.drop 1)
  String.ofList (digits.take 1) ++ fraction ++ l.exponentMark ++ toString lead

def scaled (l : Layout) (d : Scaled) : String :=
  let lead := d.exponent + digitCount d.coefficient - 1
  let digits := significantDigits d.coefficient
  if l.leastPositional ≤ lead ∧ lead ≤ l.greatestPositional then l.positional digits lead
  else l.scientific digits lead

/-- The text of the number with the given bit pattern. -/
def text (l : Layout) (f : BinaryFormat) (bits : Nat) : String :=
  let signed (negative : Bool) (body : String) : String := if negative then "-" ++ body else body
  match f.ofBits bits with
  | .nan => l.notANumber
  | .infinite negative => signed negative l.infinity
  | .finite negative 0 _ => signed negative l.zero
  | .finite negative m q => signed negative (l.scaled (f.interval m q).shortest)

end Layout

end JvmClass.Decimal
