import LuaLift.ByteOrder
import LuaLift.Number.Double

/-! Numbers in a chunk's bytes: eight bytes hold a double as it is, four a single that is
widened without rounding. -/
namespace LuaLift

/-- The double with the value of a 32-bit pattern. The smallest singles have no leading bit and
get one, as every one of them is in the ordinary range of doubles. -/
def Double.ofSingleBits (bits : Nat) : Double :=
  let negative := decide (bits / 2 ^ 31 % 2 = 1)
  let exponent := bits / 2 ^ 23 % 2 ^ 8
  let fraction := bits % 2 ^ 23
  if exponent = 255 then ofFields negative 2047 (fraction * 2 ^ 29)
  else if exponent ≠ 0 then ofFields negative (exponent + 896) (fraction * 2 ^ 29)
  else if fraction = 0 then ofFields negative 0 0
  else
    let top := fraction.log2
    ofFields negative (top + 874) (fraction * 2 ^ (52 - top))

/-- The 32-bit pattern of a double that a single can hold. It is meant for no other double: digits
that a single has no room for would be cut off here and not rounded. -/
def Double.singleBits (number : Double) : Nat :=
  let exponent := number.exponent.val
  let upper :=
    if exponent = 2047 then 255 * 2 ^ 23 + number.fraction.val / 2 ^ 29
    else if 897 ≤ exponent then (exponent - 896) * 2 ^ 23 + number.fraction.val / 2 ^ 29
    else if exponent = 0 then 0
    else (2 ^ 52 + number.fraction.val) / 2 ^ (926 - exponent)
  (if number.negative then 2 ^ 31 else 0) + upper

inductive NumberFormat where
  | single
  | double
deriving DecidableEq, Repr, Inhabited

namespace NumberFormat

def size : NumberFormat → Nat
  | single => 4
  | double => 8

def ofSize? (size : Int) : Option NumberFormat :=
  if size = 4 then some single else if size = 8 then some double else none

def decode (format : NumberFormat) (order : ByteOrder) (bytes : List UInt8) : Double :=
  match format with
  | single => .ofSingleBits (order.natOf bytes)
  | double => .ofBits (order.natOf bytes)

def encode (format : NumberFormat) (order : ByteOrder) (number : Double) : List UInt8 :=
  match format with
  | single => order.bytesOfNat 4 number.singleBits
  | double => order.bytesOfNat 8 number.bits

theorem ofSize?_eq_some_iff {size : Int} {format : NumberFormat} :
    ofSize? size = some format ↔ size = format.size := by
  cases format <;> simp only [ofSize?, NumberFormat.size] <;> split <;> simp_all

end NumberFormat

end LuaLift
