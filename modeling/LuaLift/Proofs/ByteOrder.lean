import LuaLift.ByteOrder

/-! Signed numbers in bytes. A width holds as many negative numbers as others, and each of them has
exactly one form of that width. -/
namespace LuaLift

/-- The signed numbers that a count of bytes holds. -/
def FitsInt (width : Nat) (value : Int) : Prop :=
  -256 ^ width ≤ 2 * value ∧ 2 * value < 256 ^ width

instance {width : Nat} : DecidablePred (FitsInt width) := fun _ =>
  inferInstanceAs (Decidable (_ ∧ _))

namespace ByteOrder

variable (order : ByteOrder)

private theorem natCast_modulus (width : Nat) : ((256 ^ width : Nat) : Int) = 256 ^ width :=
  Int.natCast_pow 256 width

theorem fitsInt_intOf (bytes : List UInt8) : FitsInt bytes.length (order.intOf bytes) := by
  have small := order.natOf_lt bytes
  have modulus := natCast_modulus bytes.length
  simp only [FitsInt, intOf]
  split <;> omega

/-- The form of a number stands for the number itself, or for the one that is a whole range above
a negative number. -/
theorem toNat_emod_modulus {width : Nat} {value : Int} (fits : FitsInt width value) :
    ((value % 256 ^ width).toNat : Int) = if 0 ≤ value then value else value + 256 ^ width := by
  obtain ⟨low, high⟩ := fits
  have positive : (0 : Int) < 256 ^ width := Int.pow_pos (by decide)
  rw [Int.toNat_of_nonneg (Int.emod_nonneg _ (by omega))]
  split
  · rw [Int.emod_eq_of_lt (by omega) (by omega)]
  · rw [← Int.add_emod_right, Int.emod_eq_of_lt (by omega) (by omega)]

theorem intOf_bytesOfInt {width : Nat} {value : Int} (fits : FitsInt width value) :
    order.intOf (order.bytesOfInt width value) = value := by
  have form := toNat_emod_modulus fits
  have modulus := natCast_modulus width
  obtain ⟨low, high⟩ := fits
  have small : (value % 256 ^ width).toNat < 256 ^ width := by
    split at form <;> omega
  simp only [intOf, bytesOfInt, natOf_bytesOfNat, length_bytesOfNat, Nat.mod_eq_of_lt small]
  split <;> split at form <;> omega

theorem bytesOfInt_intOf (bytes : List UInt8) :
    order.bytesOfInt bytes.length (order.intOf bytes) = bytes := by
  have form := toNat_emod_modulus (order.fitsInt_intOf bytes)
  have small := order.natOf_lt bytes
  have modulus := natCast_modulus bytes.length
  have same : ((order.intOf bytes % 256 ^ bytes.length).toNat : Int) = order.natOf bytes := by
    rw [form]
    by_cases low : 2 * order.natOf bytes < 256 ^ bytes.length
    · simp only [intOf, low, ↓reduceIte]
      split <;> omega
    · simp only [intOf, low, ↓reduceIte]
      split <;> omega
  rw [bytesOfInt, Int.ofNat_inj.mp same, bytesOfNat_natOf]

end ByteOrder

end LuaLift
