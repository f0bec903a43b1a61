import LuaLift.Proofs.Number.Numeral

/-! The text of a number. It can be read again, and what is read is the number rounded to sixteen
digits; so the text of a larger number never stands for a smaller one. -/
namespace LuaLift

namespace Double

variable {number : Double}

/-- The digits of the absolute value of a number. -/
def decimal (number : Double) : Decimal :=
  if number.significand = 0 then Decimal.zero else Decimal.round 16 number.magnitude

/-- The numeral that a number is written as. -/
def numeral (number : Double) : Numeral := number.decimal.numeral number.negative

private theorem magnitude_pos (present : number.significand ≠ 0) : 0 < number.magnitude := by
  have whole : (0 : Rat) < number.significand := by exact_mod_cast Nat.pos_of_ne_zero present
  exact mul_pos whole (zpow_pos two_pos _)

private theorem magnitude_of_zero (zero : number.significand = 0) : number.magnitude = 0 := by
  rw [magnitude, zero, Nat.cast_zero, zero_mul]

private theorem abs_value (number : Double) : |number.value| = number.magnitude := by
  have least : 0 ≤ number.magnitude := by
    by_cases zero : number.significand = 0
    · exact (magnitude_of_zero zero).ge
    · exact (magnitude_pos zero).le
  rw [value]
  split
  · rw [abs_neg, abs_of_nonneg least]
  · exact abs_of_nonneg least

private theorem value_ne_zero_iff : number.value ≠ 0 ↔ number.significand ≠ 0 := by
  rw [← abs_pos, abs_value]
  constructor
  · intro positive zero
    exact positive.ne' (magnitude_of_zero zero)
  · exact magnitude_pos

private theorem general_eq (finite : number.isFinite = true) :
    number.general = number.numeral.text := by
  rw [general, written, isNaN, isInfinite, finite, numeral, Numeral.text, Decimal.chars_numeral,
    Decimal.negative_numeral, signMark, decimal]
  cases number.negative <;> rfl

private theorem numeral_of_zero (zero : number.significand = 0) :
    number.numeral = ⟨number.negative, ['0'], [], none⟩ := by
  rw [numeral, decimal, if_pos zero]
  rfl

private theorem exists_decimal (present : number.significand ≠ 0) :
    number.decimal.Normal ∧ RoundsTo 16 number.magnitude number.decimal.value ∧
      number.decimal.exponent = Int.log 10 number.decimal.value := by
  rw [decimal, if_neg present]
  exact Decimal.exists_round (by decide) (magnitude_pos present)

/-- The text is read as the number rounded to sixteen digits. -/
theorem exists_read (finite : number.isFinite = true) :
    Numeral.read? number.general = some number.numeral ∧
      RoundsTo 16 number.value number.numeral.value := by
  rw [general_eq finite]
  by_cases zero : number.significand = 0
  · rw [numeral_of_zero zero]
    constructor
    · apply Numeral.read?_text
      exact ⟨List.cons_ne_nil _ _, List.forall_mem_singleton.mpr rfl, nofun, nofun⟩
    · have value : number.value = 0 := not_not.mp (mt value_ne_zero_iff.mp (not_not.mpr zero))
      have same : Numeral.value ⟨number.negative, ['0'], [], none⟩ = 0 := by
        simp [Numeral.value, Numeral.size, Nat.ofDigitChars]
      rw [value, same]
      exact .zero 16
  · obtain ⟨normal, rounds, _⟩ := exists_decimal zero
    refine ⟨Numeral.read?_text (Decimal.valid_numeral normal _), ?_⟩
    have size : number.numeral.size = number.decimal.value := Decimal.size_numeral normal _
    have sign : number.numeral.negative = number.negative := Decimal.negative_numeral _ _
    rw [Numeral.value, size, sign, value]
    cases number.negative with
    | true => exact rounds.neg
    | false => exact rounds

private theorem general_neg (known : number.isNaN = false) (plus : number.negative = false) :
    number.neg.general = "-" ++ number.general := by
  have also : number.neg.isNaN = false := known
  have wide : number.neg.isInfinite = number.isInfinite := rfl
  have digits : number.neg.decimal = number.decimal := rfl
  rw [general, general, written, written, also, known, wide, signMark, signMark, neg, plus]
  cases number.isInfinite <;> rfl

/-- The text of a number is the number rounded to sixteen digits, nearest and to even, as a numeral
that is positional for the exponents from -4 to 15; the opposite number has a minus sign in front,
and a larger number has no smaller text. -/
theorem general_rounded :
    (∀ number : Double, number.isFinite = true → number.value ≠ 0 →
      ∃ rounded, RoundsTo 16 |number.value| rounded ∧
        ∃ numeral, Numeral.read? number.general = some numeral ∧
          (∃ count : Int, NearestEven (10 ^ (Int.log 10 rounded - 15)) number.value count ∧
            numeral.value = count * 10 ^ (Int.log 10 rounded - 15)) ∧
          numeral.Trimmed (Int.log 10 rounded)) ∧
    (∀ number : Double, number.isNaN = false → number.negative = false →
      number.neg.general = "-" ++ number.general) ∧
    ∀ left right : Double, left.isFinite = true → right.isFinite = true → left.value < right.value →
      ∃ lower upper, Numeral.read? left.general = some lower ∧
        Numeral.read? right.general = some upper ∧ lower.value ≤ upper.value := by
  refine ⟨?_, fun number => general_neg, ?_⟩
  · intro number finite present
    obtain ⟨read, rounds⟩ := exists_read finite
    obtain ⟨normal, _, exponent⟩ := exists_decimal (value_ne_zero_iff.mp present)
    refine ⟨|number.numeral.value|, rounds.abs, number.numeral, read, ?_, ?_⟩
    · have place : lastPlace 16 number.numeral.value = Int.log 10 |number.numeral.value| - 15 := by
        rw [lastPlace]
        omega
      rw [← place]
      exact rounds.nearestEven (by decide) present
    · rw [Numeral.abs_value, numeral, Decimal.size_numeral normal, ← exponent]
      exact Decimal.trimmed_numeral normal _
  · intro left right first second smaller
    obtain ⟨read, rounds⟩ := exists_read first
    obtain ⟨also, reaches⟩ := exists_read second
    exact ⟨_, _, read, also, rounds.le (by decide) reaches smaller.le⟩

/-- The double below a ten-millionth whose sixteen digits are all carried away, and one above it. -/
theorem general_rounded_of_carry :
    let below := ofBits 0x3E7AD7F29ABCAF48
    let above := ofBits 0x3E7AD7F29ABCAF4B
    below.general = "1e-07" ∧ below.neg.general = "-" ++ below.general ∧
      (∃ rounded, RoundsTo 16 |below.value| rounded ∧
        ∃ numeral, Numeral.read? "1e-07" = some numeral ∧ numeral.Trimmed (Int.log 10 rounded)) ∧
      ∃ lower upper, Numeral.read? below.general = some lower ∧
        Numeral.read? above.general = some upper ∧ lower.value ≤ upper.value := by
  obtain ⟨rounded, negated, ordered⟩ := general_rounded
  have shown : (ofBits 0x3E7AD7F29ABCAF48).general = "1e-07" := by decide +kernel
  have present : (ofBits 0x3E7AD7F29ABCAF48).value ≠ 0 := value_ne_zero_iff.mpr (by decide)
  obtain ⟨target, rounds, numeral, read, _, trimmed⟩ := rounded (ofBits 0x3E7AD7F29ABCAF48) rfl present
  rw [shown] at read
  exact ⟨shown, negated _ rfl rfl, ⟨target, rounds, numeral, read, trimmed⟩,
    ordered _ _ rfl rfl (by decide +kernel)⟩

end Double

end LuaLift
