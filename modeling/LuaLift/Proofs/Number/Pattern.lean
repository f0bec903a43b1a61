import LuaLift.Number.Bytes

/-! Numbers by their bit patterns. Every pattern of a format stands for a double, and the double
gives the pattern back, also where it is no number. -/
namespace LuaLift

namespace Double

private theorem singleBits_ofFields (negative : Bool) (exponent fraction : Nat)
    (small : exponent < 2 ^ 11) :
    (ofFields negative exponent fraction).singleBits =
      (if negative then 2 ^ 31 else 0) +
        (if exponent = 2047 then 255 * 2 ^ 23 + fraction % 2 ^ 52 / 2 ^ 29
        else if 897 ≤ exponent then (exponent - 896) * 2 ^ 23 + fraction % 2 ^ 52 / 2 ^ 29
        else if exponent = 0 then 0
        else (2 ^ 52 + fraction % 2 ^ 52) / 2 ^ (926 - exponent)) := by
  simp only [singleBits, ofFields, Fin.ofNat, Nat.mod_eq_of_lt small]

/-- Below the ordinary singles, the leading bit moves to where doubles leave it out. -/
theorem leading_of_small {fraction : Nat} (present : fraction ≠ 0) (small : fraction < 2 ^ 23) :
    2 ^ 52 + fraction * 2 ^ (52 - fraction.log2) % 2 ^ 52 = fraction * 2 ^ (52 - fraction.log2) := by
  have most : fraction.log2 < 23 := (Nat.log2_lt present).mpr small
  have low : 2 ^ fraction.log2 ≤ fraction := Nat.log2_self_le present
  have high : fraction < 2 ^ (fraction.log2 + 1) := Nat.lt_log2_self
  generalize fraction.log2 = top at *
  have whole : 2 ^ 52 = 2 ^ top * 2 ^ (52 - top) := by
    rw [← Nat.pow_add]
    congr 1
    omega
  have least : 2 ^ 52 ≤ fraction * 2 ^ (52 - top) := by
    rw [whole]
    exact Nat.mul_le_mul_right _ low
  have below : fraction * 2 ^ (52 - top) < 2 ^ 52 + 2 ^ 52 := by
    calc fraction * 2 ^ (52 - top) < 2 ^ (top + 1) * 2 ^ (52 - top) :=
          Nat.mul_lt_mul_of_pos_right high (Nat.pow_pos (by decide))
      _ = 2 ^ 52 + 2 ^ 52 := by rw [Nat.pow_succ, Nat.mul_right_comm, ← whole]; omega
  rw [Nat.mod_eq_sub_mod least, Nat.mod_eq_of_lt (by omega), Nat.add_sub_cancel' least]

private theorem fraction_of_small {fraction : Nat} (present : fraction ≠ 0)
    (small : fraction < 2 ^ 23) :
    (2 ^ 52 + fraction * 2 ^ (52 - fraction.log2) % 2 ^ 52) / 2 ^ (52 - fraction.log2) = fraction := by
  rw [leading_of_small present small, Nat.mul_div_cancel _ (Nat.pow_pos (by decide))]

private theorem singleBits_ofSingleBits {bits : Nat} (fits : bits < 2 ^ 32) :
    (ofSingleBits bits).singleBits = bits := by
  have fraction : bits % 2 ^ 23 < 2 ^ 23 := Nat.mod_lt _ (by decide)
  have exponent : bits / 2 ^ 23 % 2 ^ 8 < 2 ^ 8 := Nat.mod_lt _ (by decide)
  have parts : bits = (if bits / 2 ^ 31 % 2 = 1 then 2 ^ 31 else 0) +
      (bits / 2 ^ 23 % 2 ^ 8 * 2 ^ 23 + bits % 2 ^ 23) := by
    split <;> omega
  simp only [ofSingleBits]
  split
  · rename_i infinite
    rw [singleBits_ofFields _ _ _ (by decide)]
    simp only [decide_eq_true_eq, ↓reduceIte]
    omega
  split
  · rename_i finite ordinary
    have notWide : ¬ bits / 2 ^ 23 % 2 ^ 8 + 896 = 2047 := by omega
    have large : 897 ≤ bits / 2 ^ 23 % 2 ^ 8 + 896 := by omega
    rw [singleBits_ofFields _ _ _ (by omega)]
    simp only [decide_eq_true_eq, notWide, large, ↓reduceIte]
    omega
  split
  · rename_i finite zero none
    rw [singleBits_ofFields _ _ _ (by decide)]
    simp only [decide_eq_true_eq, (by decide : ¬ 0 = 2047), (by decide : ¬ 897 ≤ 0), ↓reduceIte]
    omega
  · rename_i finite zero present
    have most : (bits % 2 ^ 23).log2 < 23 := (Nat.log2_lt present).mpr fraction
    have notWide : ¬ (bits % 2 ^ 23).log2 + 874 = 2047 := by omega
    have notLarge : ¬ 897 ≤ (bits % 2 ^ 23).log2 + 874 := by omega
    have notZero : ¬ (bits % 2 ^ 23).log2 + 874 = 0 := by omega
    have place : 926 - ((bits % 2 ^ 23).log2 + 874) = 52 - (bits % 2 ^ 23).log2 := by omega
    rw [singleBits_ofFields _ _ _ (by omega)]
    simp only [decide_eq_true_eq, notWide, notLarge, notZero, place, ↓reduceIte,
      fraction_of_small present fraction]
    omega

end Double

namespace NumberFormat

/-- The double that a bit pattern stands for. -/
def ofPattern (format : NumberFormat) (pattern : Nat) : Double :=
  match format with
  | single => .ofSingleBits pattern
  | double => .ofBits pattern

def pattern (format : NumberFormat) (number : Double) : Nat :=
  match format with
  | single => number.singleBits
  | double => number.bits

theorem pattern_ofPattern (format : NumberFormat) {pattern : Nat}
    (fits : pattern < 256 ^ format.size) : format.pattern (format.ofPattern pattern) = pattern := by
  cases format with
  | single => exact Double.singleBits_ofSingleBits fits
  | double => exact Double.bits_ofBits pattern fits

theorem decode_eq (format : NumberFormat) (order : ByteOrder) (bytes : List UInt8) :
    format.decode order bytes = format.ofPattern (order.natOf bytes) := by
  cases format <;> rfl

theorem encode_eq (format : NumberFormat) (order : ByteOrder) (number : Double) :
    format.encode order number = order.bytesOfNat format.size (format.pattern number) := by
  cases format <;> rfl

end NumberFormat

end LuaLift
