import LuaLift.Number.Decimal
import LuaLift.Number.Double
import LuaLift.Text.Numeral

/-! Numbers as text: positional while the exponent of the first digit is from -4 to 15, and with
an exponent of at least two digits outside. -/
namespace LuaLift

namespace Decimal

/-- The exponent after an `e`, signed, in two digits or more. -/
def exponentMark (exponent : Int) : List Char :=
  let written := Nat.toDigits 10 exponent.natAbs
  'e' :: (if exponent < 0 then '-' else '+') :: (List.replicate (2 - written.length) '0' ++ written)

def withPoint (whole part : List Char) : List Char :=
  if part.isEmpty then whole else whole ++ '.' :: part

/-- All digits in their places, zeros filling the gap to the point. -/
def positional (number : Decimal) : List Char :=
  if number.exponent < 0 then
    withPoint ['0'] (List.replicate (number.exponent.natAbs - 1) '0' ++ number.digits)
  else
    let size := number.exponent.toNat + 1
    withPoint (number.digits.take size ++ List.replicate (size - number.digits.length) '0')
      (number.digits.drop size)

def scientific (number : Decimal) : List Char :=
  withPoint (number.digits.take 1) (number.digits.drop 1) ++ exponentMark number.exponent

def isPositional (number : Decimal) : Bool := -4 ≤ number.exponent && number.exponent < 16

def written (number : Decimal) : List Char :=
  if number.isPositional then number.positional else number.scientific

end Decimal

namespace Double

def signMark (number : Double) : Text := if number.negative then "-" else ""

/-- The text of a number by the digits chosen for its absolute value. -/
def written (digits : Double → List Char) (number : Double) : Text :=
  if number.isNaN then "nan"
  else if number.isInfinite then number.signMark ++ "inf"
  else number.signMark ++ Text.ofChars (digits number)

/-- Sixteen significant digits, without zeros at the end. -/
def general (number : Double) : Text :=
  number.written fun number =>
    (if number.significand = 0 then Decimal.zero else Decimal.round 16 number.magnitude).written

end Double

end LuaLift
