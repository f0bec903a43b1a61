import LuaLift.Number.Power

/-! Doubles by their three fields. The fields decide everything a chunk or its text can show:
the bit pattern, the sign, and the exact value. -/
namespace LuaLift

/-- A 64-bit floating point number. The widest exponent marks infinities and the values that
are not numbers. -/
structure Double where
  negative : Bool
  exponent : Fin (2 ^ 11)
  fraction : Fin (2 ^ 52)
deriving DecidableEq, Repr, Inhabited

namespace Double

/-- The double with the low bits of two numbers in its fields. -/
def ofFields (negative : Bool) (exponent fraction : Nat) : Double :=
  ⟨negative, Fin.ofNat _ exponent, Fin.ofNat _ fraction⟩

def ofBits (bits : Nat) : Double where
  negative := bits / 2 ^ 63 % 2 = 1
  exponent := Fin.ofNat (2 ^ 11) (bits / 2 ^ 52)
  fraction := Fin.ofNat (2 ^ 52) bits

def bits (number : Double) : Nat :=
  (if number.negative then 2 ^ 63 else 0) + number.exponent * 2 ^ 52 + number.fraction

def neg (number : Double) : Double := { number with negative := !number.negative }

def isFinite (number : Double) : Bool := number.exponent.val < 2047

def isNaN (number : Double) : Bool := !number.isFinite && number.fraction.val ≠ 0

def isInfinite (number : Double) : Bool := !number.isFinite && number.fraction.val = 0

/-- The fraction with the leading bit that only the smallest numbers lack. -/
def significand (number : Double) : Nat :=
  if number.exponent.val = 0 then number.fraction else 2 ^ 52 + number.fraction

/-- The power of two that the significand counts. -/
def scale (number : Double) : Int := max number.exponent.val 1 - 1075

/-- The exact absolute value of a finite number. -/
def magnitude (number : Double) : Rat := number.significand * 2 ^ number.scale

/-- The exact value of a finite number. -/
def value (number : Double) : Rat :=
  if number.negative then -number.magnitude else number.magnitude

@[simp] theorem ofBits_bits (number : Double) : ofBits number.bits = number := by
  obtain ⟨sign, ⟨exponent, low⟩, ⟨fraction, small⟩⟩ := number
  cases sign <;> simp [ofBits, bits, Fin.ofNat] <;> omega

theorem bits_ofBits (bits : Nat) (fits : bits < 2 ^ 64) : (ofBits bits).bits = bits := by
  simp only [ofBits, Double.bits, Fin.ofNat, decide_eq_true_eq]
  split <;> omega

end Double

end LuaLift
