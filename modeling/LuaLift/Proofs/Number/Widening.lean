import LuaLift.Preamble
import LuaLift.Proofs.Number.Pattern
import Mathlib.Algebra.Order.Field.Rat
import Mathlib.Data.Nat.Digits.Defs
import Mathlib.Tactic.Ring

/-! What the bytes of a number stand for. A pattern of either format is cut into a sign, an exponent
and a fraction, which stand for a number by one rule. The double that is read from the pattern stands
for the same number, so nothing is lost where four bytes are widened. -/
namespace LuaLift

namespace ByteOrder

/-- The bytes of a number with the least significant one first. -/
def ascending : ByteOrder → List UInt8 → List UInt8
  | big, bytes => bytes.reverse
  | little, bytes => bytes

def opposite : ByteOrder → ByteOrder
  | big => little
  | little => big

private theorem bigNat_eq_ofDigits (bytes : List UInt8) :
    bigNat bytes = Nat.ofDigits 256 (bytes.reverse.map UInt8.toNat) := by
  induction bytes with
  | nil => rfl
  | cons byte rest ih =>
    rw [bigNat, ih, List.reverse_cons, List.map_append, Nat.ofDigits_append, List.length_map,
      List.length_reverse, List.map_singleton, Nat.ofDigits_singleton]
    ring

/-- The bytes of a number are its digits in base 256. -/
theorem natOf_eq_ofDigits (order : ByteOrder) (bytes : List UInt8) :
    order.natOf bytes = Nat.ofDigits 256 ((order.ascending bytes).map UInt8.toNat) := by
  cases order with
  | big => exact bigNat_eq_ofDigits bytes
  | little =>
    unfold natOf arrange ascending
    rw [bigNat_eq_ofDigits, List.reverse_reverse]

private theorem natOf_opposite_reverse (order : ByteOrder) (bytes : List UInt8) :
    order.opposite.natOf bytes.reverse = order.natOf bytes := by
  cases order with
  | big =>
    change bigNat bytes.reverse.reverse = bigNat bytes
    rw [List.reverse_reverse]
  | little => rfl

end ByteOrder

namespace NumberFormat

def exponentBits : NumberFormat → Nat
  | single => 8
  | double => 11

def fractionBits : NumberFormat → Nat
  | single => 23
  | double => 52

/-- The highest bit of a pattern is its sign. -/
def isNegative (format : NumberFormat) (pattern : Nat) : Bool :=
  pattern / 2 ^ (format.fractionBits + format.exponentBits) % 2 = 1

def exponent (format : NumberFormat) (pattern : Nat) : Nat :=
  pattern / 2 ^ format.fractionBits % 2 ^ format.exponentBits

def fraction (format : NumberFormat) (pattern : Nat) : Nat := pattern % 2 ^ format.fractionBits

/-- The exponent of what is not finite, with all of its bits set. -/
def topExponent (format : NumberFormat) : Nat := 2 ^ format.exponentBits - 1

/-- The exponent that stands for the power zero. -/
def bias (format : NumberFormat) : Int := 2 ^ (format.exponentBits - 1) - 1

/-- The absolute value of a finite pattern. The fraction counts what is behind the point, with a one
before it unless the exponent is zero, and then the power is that of the exponent one. -/
def magnitude (format : NumberFormat) (pattern : Nat) : Rat :=
  if format.exponent pattern = 0 then
    format.fraction pattern / 2 ^ format.fractionBits * 2 ^ (1 - format.bias)
  else
    (1 + format.fraction pattern / 2 ^ format.fractionBits) *
      2 ^ (format.exponent pattern - format.bias)

def value (format : NumberFormat) (pattern : Nat) : Rat :=
  if format.isNegative pattern then -format.magnitude pattern else format.magnitude pattern

/-- The double stands for what the pattern stands for: a finite number of the same sign and exactly
the same value, an infinity of the same sign, or what is no number. -/
structure Represents (format : NumberFormat) (pattern : Nat) (number : Double) : Prop where
  finite : format.exponent pattern < format.topExponent → number.isFinite = true ∧
    number.negative = format.isNegative pattern ∧ number.value = format.value pattern
  infinite : format.exponent pattern = format.topExponent → format.fraction pattern = 0 →
    number.isInfinite = true ∧ number.negative = format.isNegative pattern
  noNumber : format.exponent pattern = format.topExponent → format.fraction pattern ≠ 0 →
    number.isNaN = true

end NumberFormat

namespace Double

private theorem two_zpow_sub (power : Int) (count : Nat) :
    (2 : Rat) ^ (power - count) = 2 ^ power / 2 ^ count := by
  rw [zpow_sub₀ two_ne_zero, zpow_natCast]

/-- The value of a finite number with the point behind the leading bit. -/
theorem magnitude_eq (number : Double) : number.magnitude =
    if number.exponent.val = 0 then (number.fraction.val : Rat) / 2 ^ 52 * 2 ^ (-1022 : Int)
    else (1 + (number.fraction.val : Rat) / 2 ^ 52) * 2 ^ ((number.exponent.val : Int) - 1023) := by
  unfold magnitude significand scale
  split
  · rename_i least
    have power : ((max number.exponent.val 1 : Nat) : Int) - 1075 = -1022 - (52 : Nat) := by omega
    rw [power, two_zpow_sub]
    ring
  · rename_i ordinary
    have power : ((max number.exponent.val 1 : Nat) : Int) - 1075 =
        number.exponent.val - 1023 - (52 : Nat) := by omega
    rw [power, two_zpow_sub]
    push_cast
    ring

end Double

namespace NumberFormat

variable {pattern : Nat} {number : Double}

private theorem value_eq (format : NumberFormat)
    (sign : number.negative = format.isNegative pattern)
    (size : number.magnitude = format.magnitude pattern) : number.value = format.value pattern := by
  rw [Double.value, value, sign, size]

private theorem represents_double (pattern : Nat) :
    double.Represents pattern (.ofBits pattern) := by
  have sign : (Double.ofBits pattern).negative = double.isNegative pattern := rfl
  have exponent : (Double.ofBits pattern).exponent.val = double.exponent pattern := rfl
  have fraction : (Double.ofBits pattern).fraction.val = double.fraction pattern := rfl
  refine ⟨fun finite => ⟨?_, sign, value_eq double sign ?_⟩, fun top empty => ⟨?_, sign⟩,
    fun top filled => ?_⟩
  · rw [Double.isFinite, exponent]
    exact decide_eq_true finite
  · rw [Double.magnitude_eq, exponent, fraction]
    rfl
  · simp only [Double.isInfinite, Double.isFinite, exponent, fraction, top, empty]
    rfl
  · simp only [Double.isNaN, Double.isFinite, exponent, fraction, top]
    simpa [topExponent, exponentBits] using filled

/-! ### Four bytes -/

private theorem magnitude_ordinary (negative : Bool) {exponent fraction : Nat}
    (finite : exponent < single.topExponent) (small : fraction < 2 ^ 23) :
    (Double.ofFields negative (exponent + 896) (fraction * 2 ^ 29)).magnitude =
      (1 + (fraction : Rat) / 2 ^ 23) * 2 ^ ((exponent : Int) - 127) := by
  have top : single.topExponent = 255 := rfl
  have exponentField : (exponent + 896) % 2 ^ 11 = exponent + 896 := Nat.mod_eq_of_lt (by omega)
  have fractionField : fraction * 2 ^ 29 % 2 ^ 52 = fraction * 2 ^ 29 := Nat.mod_eq_of_lt (by omega)
  have power : ((exponent + 896 : Nat) : Int) - 1023 = exponent - 127 := by omega
  have point : ((fraction * 2 ^ 29 : Nat) : Rat) / 2 ^ 52 = fraction / 2 ^ 23 := by
    push_cast
    ring
  rw [Double.magnitude_eq]
  simp only [Double.ofFields, Fin.ofNat, exponentField, fractionField, power, point]
  rw [if_neg (by omega)]

/-- The smallest numbers of four bytes have a leading bit among eight. -/
theorem magnitude_small (negative : Bool) {fraction : Nat} (present : fraction ≠ 0)
    (small : fraction < 2 ^ 23) :
    (Double.ofFields negative (fraction.log2 + 874) (fraction * 2 ^ (52 - fraction.log2))).magnitude =
      (fraction : Rat) / 2 ^ 23 * 2 ^ (-126 : Int) := by
  have most : fraction.log2 < 23 := (Nat.log2_lt present).mpr small
  have leading := congrArg (Nat.cast : Nat → Rat) (Double.leading_of_small present small)
  generalize fraction.log2 = top at *
  have exponentField : (top + 874) % 2 ^ 11 = top + 874 := Nat.mod_eq_of_lt (by omega)
  have power : ((top + 874 : Nat) : Int) - 1023 = -126 + 29 - (52 - top : Nat) := by omega
  have place : (2 : Rat) ^ (52 - top) ≠ 0 := pow_ne_zero _ two_ne_zero
  rw [Double.magnitude_eq]
  simp only [Double.ofFields, Fin.ofNat, exponentField]
  rw [if_neg (by omega), power, Double.two_zpow_sub, zpow_add₀ two_ne_zero]
  generalize fraction * 2 ^ (52 - top) % 2 ^ 52 = kept at leading ⊢
  simp only [Nat.cast_add, Nat.cast_mul, Nat.cast_pow, Nat.cast_ofNat] at leading
  calc (1 + (kept : Rat) / 2 ^ 52) * (2 ^ (-126 : Int) * 2 ^ (29 : Int) / 2 ^ (52 - top))
    _ = (2 ^ 52 + (kept : Rat)) / 2 ^ (52 - top) / 2 ^ 52 * (2 ^ (-126 : Int) * 2 ^ 29) := by ring
    _ = (fraction : Rat) / 2 ^ 23 * 2 ^ (-126 : Int) := by
      rw [leading, mul_div_cancel_right₀ _ place]
      ring

/-- A double with a small exponent and the right value is what a finite pattern stands for. -/
theorem finite_ofFields {pattern exponent fraction : Nat} (small : exponent < 2047)
    (size : (Double.ofFields (single.isNegative pattern) exponent fraction).magnitude =
      single.magnitude pattern) :
    let number := Double.ofFields (single.isNegative pattern) exponent fraction
    number.isFinite = true ∧ number.negative = single.isNegative pattern ∧
      number.value = single.value pattern := by
  have field : exponent % 2 ^ 11 = exponent := Nat.mod_eq_of_lt (by omega)
  refine ⟨?_, rfl, value_eq single rfl size⟩
  unfold Double.isFinite Double.ofFields Fin.ofNat
  simp only [field, small, decide_true]

private theorem ofSingleBits_eq (pattern : Nat) : Double.ofSingleBits pattern =
    if single.exponent pattern = single.topExponent then
      .ofFields (single.isNegative pattern) 2047 (single.fraction pattern * 2 ^ 29)
    else if single.exponent pattern ≠ 0 then
      .ofFields (single.isNegative pattern) (single.exponent pattern + 896)
        (single.fraction pattern * 2 ^ 29)
    else if single.fraction pattern = 0 then .ofFields (single.isNegative pattern) 0 0
    else .ofFields (single.isNegative pattern) ((single.fraction pattern).log2 + 874)
      (single.fraction pattern * 2 ^ (52 - (single.fraction pattern).log2)) := rfl

private theorem represents_single (pattern : Nat) :
    single.Represents pattern (.ofSingleBits pattern) := by
  have low : single.fraction pattern < 2 ^ 23 := Nat.mod_lt _ (by decide)
  rw [ofSingleBits_eq]
  refine ⟨fun finite => ?_, fun wide empty => ?_, fun wide filled => ?_⟩
  · rw [if_neg (Nat.ne_of_lt finite)]
    split
    · rename_i ordinary
      have small : single.exponent pattern < 255 := finite
      refine finite_ofFields (by omega) ?_
      rw [magnitude_ordinary _ finite low, magnitude, if_neg ordinary]
      rfl
    · rename_i least
      rw [not_not] at least
      split
      · rename_i zero
        refine finite_ofFields (by omega) ?_
        rw [Double.magnitude_eq, magnitude, if_pos least, zero]
        simp [Double.ofFields]
      · rename_i present
        have most : (single.fraction pattern).log2 < 23 := (Nat.log2_lt present).mpr low
        refine finite_ofFields (by omega) ?_
        rw [magnitude_small _ present low, magnitude, if_pos least]
        rfl
  · rw [if_pos wide, empty]
    exact ⟨rfl, rfl⟩
  · rw [if_pos wide]
    have kept : single.fraction pattern * 2 ^ 29 % 2 ^ 52 = single.fraction pattern * 2 ^ 29 :=
      Nat.mod_eq_of_lt (by omega)
    simp only [Double.isNaN, Double.isFinite, Double.ofFields, Fin.ofNat, kept]
    simpa using filled

private theorem represents_ofPattern (format : NumberFormat) (pattern : Nat) :
    format.Represents pattern (format.ofPattern pattern) := by
  cases format with
  | single => exact represents_single pattern
  | double => exact represents_double pattern

end NumberFormat

open NumberFormat in
/-- Numbers of four and of eight bytes are read exactly, whatever the order of their bytes. The
double stands for the same number as the pattern of the bytes, eight bytes are its bit pattern, and
the same bytes the other way round give the same double under the other order. -/
theorem decodeNumber_represents (format : NumberFormat) (order : ByteOrder) {bytes : List UInt8}
    (size : bytes.length = format.size) :
    let pattern := Nat.ofDigits 256 ((order.ascending bytes).map UInt8.toNat)
    ∃ number, decodeNumber bytes order.flag = .ok number ∧ format.Represents pattern number ∧
      (format = .double → number.bits = pattern) ∧
      decodeNumber bytes.reverse order.opposite.flag = .ok number := by
  intro pattern
  have told : order.natOf bytes = pattern := order.natOf_eq_ofDigits bytes
  have decoded {other : List UInt8} (long : other.length = format.size) (order : ByteOrder) :
      decodeNumber other order.flag = .ok (format.ofPattern (order.natOf other)) := by
    have known : ofSize? other.length = some format := ofSize?_eq_some_iff.mpr (by rw [long])
    rw [decodeNumber, ByteOrder.ofFlag?_flag, known, ← decode_eq]
  refine ⟨format.ofPattern pattern, ?_, represents_ofPattern format pattern, ?_, ?_⟩
  · rw [decoded size, told]
  · rintro rfl
    have fits : pattern < 2 ^ 64 := by
      have small := order.natOf_lt bytes
      rw [size] at small
      exact told ▸ small
    exact Double.bits_ofBits pattern fits
  · have reversed : bytes.reverse.length = format.size := by rw [List.length_reverse, size]
    rw [decoded reversed, ByteOrder.natOf_opposite_reverse, told]

/-- The smallest number of four bytes. -/
theorem decodeNumber_represents_of_least :
    let bytes : List UInt8 := [0, 0, 0, 1]
    bytes.length = NumberFormat.single.size ∧
      ∃ number, decodeNumber bytes ByteOrder.big.flag = .ok number ∧
        number.isFinite = true ∧ number.negative = false ∧ number.value = 2 ^ (-149 : Int) ∧
        decodeNumber [1, 0, 0, 0] ByteOrder.little.flag = .ok number := by
  intro bytes
  have size : bytes.length = NumberFormat.single.size := rfl
  obtain ⟨number, decoded, stands, _, reversed⟩ := decodeNumber_represents .single .big size
  have pattern : Nat.ofDigits 256 ((ByteOrder.big.ascending bytes).map UInt8.toNat) = 1 := by decide
  rw [pattern] at stands
  obtain ⟨finite, sign, value⟩ := stands.finite (by decide)
  have whole : NumberFormat.single.value 1 = ((1 : Nat) : Rat) / 2 ^ 23 * 2 ^ (-126 : Int) := by
    rw [NumberFormat.value, if_neg (by decide), NumberFormat.magnitude, if_pos (by decide)]
    rfl
  refine ⟨size, number, decoded, finite, sign, ?_, reversed⟩
  rw [value, whole]
  norm_num

end LuaLift
