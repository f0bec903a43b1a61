/-! Decimal digits of positive rationals: where the first digit stands, and the digits after
rounding to a given count, ties going to the even last digit. -/
namespace LuaLift

/-- The nearest integer, the even one where two are equally near. -/
def roundEven (value : Rat) : Int :=
  let below := value.floor
  let rest := value - below
  if rest < 1 / 2 then below
  else if 1 / 2 < rest then below + 1
  else if below % 2 = 0 then below
  else below + 1

/-- The exponent of the power of ten at or below a positive number, that is the place of its
first digit. -/
def decimalExponent (value : Rat) : Int :=
  if 1 ≤ value then (Nat.toDigits 10 value.floor.toNat).length - 1
  else -((Nat.toDigits 10 (value⁻¹.ceil.toNat - 1)).length : Int)

/-- Digits with the point after the first of them, times a power of ten. -/
structure Decimal where
  digits : List Char
  exponent : Int
deriving DecidableEq, Repr, Inhabited

namespace Decimal

def zero : Decimal := ⟨['0'], 0⟩

def dropZeros (digits : List Char) : List Char :=
  match (digits.reverse.dropWhile (· = '0')).reverse with
  | [] => ['0']
  | kept => kept

/-- A count of some power of ten, without zeros at the end. -/
def ofCoefficient (coefficient : Nat) (place : Int) : Decimal :=
  let written := Nat.toDigits 10 coefficient
  ⟨dropZeros written, place + written.length - 1⟩

/-- A positive number rounded to a count of significant digits. -/
def round (count : Nat) (value : Rat) : Decimal :=
  let place := decimalExponent value - count + 1
  ofCoefficient (roundEven (value / 10 ^ place)).toNat place

end Decimal

end LuaLift
