import LuaLift.Proofs.Number.Notation
import LuaLift.Proofs.Number.Rounding
import Mathlib.Data.List.TakeWhile

/-! The digits of a rounded number. They stand for the number itself and have no zeros on either
side, and the exponent is that of the number they stand for, also where rounding has reached the
next power of ten. -/
namespace LuaLift

/-- The digits of a positive number do not begin with a zero. -/
theorem head?_toDigits {value : Nat} (present : value ≠ 0) :
    (Nat.toDigits 10 value).head? ≠ some '0' := by
  induction value using Nat.base_induction 10 (by decide) with
  | single value below =>
    have other : ∀ digit < 10, digit ≠ 0 → some (Nat.digitChar digit) ≠ some '0' := by decide
    rw [Nat.toDigits_of_lt_base below, List.head?_cons]
    exact other value below present
  | digit value last below positive ih =>
    rw [← Nat.toDigits_append_toDigits (by decide) positive below,
      List.head?_append_of_ne_nil _ Nat.toDigits_ne_nil]
    exact ih positive.ne'

namespace Decimal

/-- The number that the digits stand for. -/
def value (number : Decimal) : Rat :=
  Nat.ofDigitChars 10 number.digits 0 * 10 ^ (number.exponent + 1 - number.digits.length)

/-- There are digits, and they neither begin nor end with a zero. -/
structure Normal (number : Decimal) : Prop where
  known : ∀ digit ∈ number.digits, digit.isDigit = true
  present : number.digits ≠ []
  first : number.digits.head? ≠ some '0'
  last : number.digits.getLast? ≠ some '0'

variable {digits : List Char} {coefficient : Nat}

/-- Only zeros are dropped, and all of those at the end. -/
theorem exists_dropZeros (counts : ∃ digit ∈ digits, digit ≠ '0') :
    ∃ zeros, digits = dropZeros digits ++ List.replicate zeros '0' ∧ dropZeros digits ≠ [] ∧
      (dropZeros digits).getLast? ≠ some '0' := by
  have parts : digits.reverse.takeWhile (· = '0') ++ digits.reverse.dropWhile (· = '0') =
      digits.reverse := List.takeWhile_append_dropWhile
  have zeros : ∀ digit ∈ digits.reverse.takeWhile (· = '0'), digit = '0' := by
    intro digit member
    exact of_decide_eq_true (List.mem_takeWhile_imp (p := fun digit => decide (digit = '0')) member)
  have behind : (digits.reverse.dropWhile (· = '0')).head? ≠ some '0' := by
    intro zero
    have other := List.head?_dropWhile_not (fun digit => decide (digit = '0')) digits.reverse
    rw [zero] at other
    exact absurd other (by decide)
  rw [dropZeros]
  generalize digits.reverse.takeWhile (· = '0') = dropped at parts zeros
  generalize digits.reverse.dropWhile (· = '0') = kept at parts behind
  have same : digits = kept.reverse ++ List.replicate dropped.length '0' := by
    rw [← List.reverse_reverse digits, ← parts, List.reverse_append,
      List.eq_replicate_of_mem zeros, List.reverse_replicate, List.length_replicate]
  have present : kept.reverse ≠ [] := by
    intro empty
    obtain ⟨digit, member, other⟩ := counts
    rw [same, empty, List.nil_append] at member
    exact other (List.eq_of_mem_replicate member)
  split
  · rename_i empty
    exact absurd empty present
  · refine ⟨dropped.length, same, present, ?_⟩
    rwa [List.getLast?_reverse]

private theorem exists_dropZeros_toDigits (present : coefficient ≠ 0) :
    ∃ zeros, Nat.toDigits 10 coefficient =
        dropZeros (Nat.toDigits 10 coefficient) ++ List.replicate zeros '0' ∧
      dropZeros (Nat.toDigits 10 coefficient) ≠ [] ∧
      (dropZeros (Nat.toDigits 10 coefficient)).getLast? ≠ some '0' := by
  apply exists_dropZeros
  cases written : Nat.toDigits 10 coefficient with
  | nil => exact absurd written Nat.toDigits_ne_nil
  | cons digit rest =>
    have first := head?_toDigits present
    rw [written, List.head?_cons, Ne, Option.some.injEq] at first
    exact ⟨digit, List.mem_cons_self, first⟩

private theorem normal_ofCoefficient (present : coefficient ≠ 0) (place : Int) :
    (ofCoefficient coefficient place).Normal := by
  obtain ⟨zeros, written, kept, last⟩ := exists_dropZeros_toDigits present
  refine ⟨?_, kept, ?_, last⟩
  · intro digit member
    have among : digit ∈ Nat.toDigits 10 coefficient := by
      rw [written]
      exact List.mem_append_left _ member
    exact Nat.isDigit_of_mem_toDigits (by decide) (by decide) among
  · have first := head?_toDigits present
    rwa [written, List.head?_append_of_ne_nil _ kept] at first

private theorem value_ofCoefficient (present : coefficient ≠ 0) (place : Int) :
    (ofCoefficient coefficient place).value = coefficient * 10 ^ place := by
  obtain ⟨zeros, written, _, _⟩ := exists_dropZeros_toDigits present
  have whole : (coefficient : Rat) =
      10 ^ zeros * Nat.ofDigitChars 10 (dropZeros (Nat.toDigits 10 coefficient)) 0 := by
    have digits := Nat.ofDigitChars_ten_toDigits (n := coefficient)
    rw [written, Nat.ofDigitChars_append, Nat.ofDigitChars_replicate_zero] at digits
    exact_mod_cast digits.symm
  have size := congrArg List.length written
  rw [List.length_append, List.length_replicate] at size
  have shift : place + (Nat.toDigits 10 coefficient).length - 1 + 1 -
      (dropZeros (Nat.toDigits 10 coefficient)).length = zeros + place := by omega
  rw [value, ofCoefficient, shift, tenPow_add, zpow_natCast, whole]
  ring

private theorem exponent_ofCoefficient (present : coefficient ≠ 0) (place : Int) :
    (ofCoefficient coefficient place).exponent =
      Int.log 10 (ofCoefficient coefficient place).value := by
  have exponent : (ofCoefficient coefficient place).exponent = place + Nat.log 10 coefficient := by
    simp only [ofCoefficient, length_toDigits present]
    omega
  have unit := tenPow_pos place
  rw [value_ofCoefficient present, exponent]
  symm
  apply log_eq
  · rw [add_comm, tenPow_add, zpow_natCast]
    exact mul_le_mul_of_nonneg_right (by exact_mod_cast Nat.pow_log_le_self 10 present) unit.le
  · have high := Nat.lt_pow_succ_log_self (by decide : 1 < 10) coefficient
    rw [add_assoc, add_comm, tenPow_add, ← Nat.cast_succ, zpow_natCast]
    exact mul_lt_mul_of_pos_right (by exact_mod_cast high) unit

/-- A positive number is rounded to the digits that are asked for. -/
theorem exists_round {count : Nat} {value : Rat} (least : 0 < count) (positive : 0 < value) :
    (round count value).Normal ∧ RoundsTo count value (round count value).value ∧
      (round count value).exponent = Int.log 10 (round count value).value := by
  have place : decimalExponent value - count + 1 = lastPlace count value := by
    rw [decimalExponent_eq positive, lastPlace, abs_of_pos positive]
  have unit := tenPow_pos (lastPlace count value)
  have nearest : NearestEven (10 ^ lastPlace count value) value
      (roundEven (value / 10 ^ lastPlace count value)) :=
    (nearestEven_roundEven _).scale unit
  have rounds : RoundsTo count value
      (roundEven (value / 10 ^ lastPlace count value) * 10 ^ lastPlace count value) :=
    ⟨_, nearest, rfl⟩
  have counted : 0 < roundEven (value / 10 ^ lastPlace count value) := by
    have above := (tenPow_pos _).trans_le (rounds.bounds least positive).1
    exact_mod_cast pos_of_mul_pos_left above unit.le
  rw [round, place]
  obtain ⟨coefficient, same⟩ := Int.eq_ofNat_of_zero_le counted.le
  rw [same] at rounds counted ⊢
  have present : coefficient ≠ 0 := by omega
  rw [Int.toNat_natCast]
  refine ⟨normal_ofCoefficient present _, ?_, exponent_ofCoefficient present _⟩
  rw [value_ofCoefficient present]
  exact_mod_cast rounds

end Decimal

end LuaLift
