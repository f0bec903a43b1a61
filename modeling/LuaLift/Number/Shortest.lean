import LuaLift.Number.Notation

/-! The fewest digits that read back as the same double. -/
namespace LuaLift

namespace Double

/-- The values nearer to this one than to any other double, as a lower and an upper end. The
spacing below a power of two is half of the spacing above it. -/
def lowerEnd (number : Double) : Rat :=
  let gap : Rat := if number.fraction.val = 0 ∧ 1 < number.exponent.val then 1 / 4 else 1 / 2
  (number.significand - gap) * 2 ^ number.scale

def upperEnd (number : Double) : Rat :=
  ((number.significand : Rat) + 1 / 2) * 2 ^ number.scale

/-- Whether a number rounds to the double: the ends do exactly if the significand is even. -/
def catches (number : Double) (value : Rat) : Bool :=
  if number.significand % 2 = 0 then number.lowerEnd ≤ value && value ≤ number.upperEnd
  else number.lowerEnd < value && value < number.upperEnd

/-- The nearer of the two neighbours with so many digits that read back. -/
def tryDigits? (number : Double) (count : Nat) : Option Decimal :=
  let place := decimalExponent number.magnitude - count + 1
  let exact := number.magnitude / 10 ^ place
  let nearest : Int := roundEven exact
  let other : Int := if nearest = exact.floor then nearest + 1 else nearest - 1
  let reads (coefficient : Int) : Bool := number.catches (coefficient * 10 ^ place)
  ([nearest, other].find? reads).map fun coefficient =>
    Decimal.ofCoefficient coefficient.toNat place

/-- Seventeen digits always read back, so the search for fewer ends there. -/
def fewestDigits (number : Double) : Decimal :=
  ((List.range' 1 16).findSome? number.tryDigits?).getD (Decimal.round 17 number.magnitude)

/-- The shortest text that reads back, with a point or an exponent in every case. -/
def shortest (number : Double) : Text :=
  number.written fun number =>
    let digits := if number.significand = 0 then Decimal.zero else number.fewestDigits
    let text := digits.written
    if digits.isPositional && !text.contains '.' then text ++ ['.', '0'] else text

end Double

end LuaLift
