import LuaLift.Text.Numeral
import Mathlib.Data.List.Basic

/-! Numerals tell numbers apart, alone and in pairs with a comma between them. -/
namespace LuaLift

/-- What stands before the first mark, and what stands behind it. -/
theorem cut_inj {mark : α} {left right rest other : List α} (own : mark ∉ left)
    (also : mark ∉ right) (same : left ++ mark :: rest = right ++ mark :: other) :
    left = right ∧ rest = other := by
  induction left generalizing right with
  | nil =>
    cases right with
    | nil => exact ⟨rfl, List.tail_eq_of_cons_eq same⟩
    | cons first more => exact absurd ((List.cons.inj same).1 ▸ List.mem_cons_self) also
  | cons first more ih =>
    obtain ⟨differs, absent⟩ := not_or.mp (mt List.mem_cons.mpr own)
    cases right with
    | nil => exact absurd (List.cons.inj same).1.symm differs
    | cons second others =>
      obtain ⟨rfl, behind⟩ := List.cons.inj same
      obtain ⟨rfl, ends⟩ := ih absent (mt (List.mem_cons_of_mem first) also) behind
      exact ⟨rfl, ends⟩

namespace Text

theorem mem_digits {symbol : Symbol} {value : Nat} (member : symbol ∈ digits value) :
    ∃ digit : Char, digit.isDigit = true ∧ symbol = .char digit := by
  obtain ⟨digit, among, rfl⟩ := List.mem_map.mp member
  exact ⟨digit, Nat.isDigit_of_mem_toDigits (by decide) (by decide) among, rfl⟩

private theorem digits_inj {left right : Nat} (same : digits left = digits right) :
    left = right := by
  have chars : Nat.toDigits 10 left = Nat.toDigits 10 right :=
    (List.map_inj_right fun _ _ => Symbol.char.inj).mp same
  have value := congrArg (Nat.ofDigitChars 10 · 0) chars
  simpa only [Nat.ofDigitChars_ten_toDigits] using value

/-- The mark of a negative number is no digit. -/
theorem minus_not_mem_digits (value : Nat) : Symbol.char '-' ∉ digits value := by
  intro member
  obtain ⟨digit, known, same⟩ := mem_digits member
  rw [← Symbol.char.inj same] at known
  exact absurd known (by decide)

theorem decimal_of_neg {value : Int} (negative : value < 0) :
    decimal value = .char '-' :: digits value.natAbs := by
  rw [decimal, sign, if_pos negative]
  rfl

theorem decimal_of_nonneg {value : Int} (positive : ¬ value < 0) :
    decimal value = digits value.natAbs := by
  rw [decimal, sign, if_neg positive]
  rfl

private theorem signed_inj {left right : Int} {body other : Text} (own : Symbol.char '-' ∉ body)
    (also : Symbol.char '-' ∉ other) (same : sign left ++ body = sign right ++ other) :
    (left < 0 ↔ right < 0) ∧ body = other := by
  rw [sign, sign] at same
  by_cases leftNegative : left < 0
  · by_cases rightNegative : right < 0
    · rw [if_pos leftNegative, if_pos rightNegative] at same
      exact ⟨iff_of_true leftNegative rightNegative, List.append_cancel_left same⟩
    · rw [if_pos leftNegative, if_neg rightNegative] at same
      have member : Symbol.char '-' ∈ ofString "" ++ other := same ▸ List.mem_cons_self
      exact absurd member also
  · by_cases rightNegative : right < 0
    · rw [if_neg leftNegative, if_pos rightNegative] at same
      have member : Symbol.char '-' ∈ ofString "" ++ body := same ▸ List.mem_cons_self
      exact absurd member own
    · rw [if_neg leftNegative, if_neg rightNegative] at same
      exact ⟨iff_of_false leftNegative rightNegative, same⟩

theorem decimal_inj {left right : Int} (same : decimal left = decimal right) : left = right := by
  obtain ⟨signs, body⟩ := signed_inj (minus_not_mem_digits _) (minus_not_mem_digits _) same
  have size := digits_inj body
  omega

private theorem not_mem_sign {mark : Char} (minus : mark ≠ '-') (value : Int) :
    Symbol.char mark ∉ sign value := by
  rw [sign]
  split
  · intro member
    exact minus (Symbol.char.inj (List.mem_singleton.mp member))
  · exact List.not_mem_nil

theorem not_mem_decimal {mark : Char} (minus : mark ≠ '-') (other : mark.isDigit = false)
    (value : Int) : Symbol.char mark ∉ decimal value := by
  rw [decimal, List.mem_append, not_or]
  refine ⟨not_mem_sign minus value, fun member => ?_⟩
  obtain ⟨digit, known, same⟩ := mem_digits member
  rw [← Symbol.char.inj same, other] at known
  cases known

theorem decimal_pair_inj {high low other another : Int}
    (same : decimal high ++ ", " ++ decimal low = decimal other ++ ", " ++ decimal another) :
    high = other ∧ low = another := by
  have noComma (value : Int) : Symbol.char ',' ∉ decimal value :=
    not_mem_decimal (by decide) (by decide) value
  rw [List.append_assoc, List.append_assoc] at same
  obtain ⟨front, back⟩ := cut_inj (noComma high) (noComma other) same
  exact ⟨decimal_inj front, decimal_inj (List.tail_eq_of_cons_eq back)⟩

/-! ### Hexadecimal numerals -/

/-- Every digit up to base sixteen is one of sixteen characters. -/
theorem exists_digit_of_mem_toDigits {base value : Nat} (large : 1 < base) (small : base ≤ 16)
    {digit : Char} (member : digit ∈ Nat.toDigits base value) :
    ∃ place < 16, digit = Nat.digitChar place := by
  induction value using Nat.base_induction base large with
  | single value below =>
    rw [Nat.toDigits_of_lt_base below] at member
    exact ⟨value, by omega, List.mem_singleton.mp member⟩
  | digit value last below positive ih =>
    rw [← Nat.toDigits_append_toDigits large positive below, List.mem_append,
      Nat.toDigits_of_lt_base below] at member
    rcases member with front | here
    · exact ih front
    · exact ⟨last, by omega, List.mem_singleton.mp here⟩

theorem mem_hexDigits {symbol : Symbol} {value : Nat} (member : symbol ∈ hexDigits value) :
    ∃ place < 16, symbol = .char (Nat.digitChar place).toUpper := by
  obtain ⟨upper, written, rfl⟩ := List.mem_map.mp member
  obtain ⟨digit, among, rfl⟩ := List.mem_map.mp written
  obtain ⟨place, below, rfl⟩ := exists_digit_of_mem_toDigits (by decide) (by decide) among
  exact ⟨place, below, rfl⟩

/-- The value of a hexadecimal digit. -/
def hexPlace (symbol : Symbol) : Nat := (ofString "0123456789ABCDEF").idxOf symbol

/-- The number that hexadecimal digits stand for. -/
def hexValue (text : Text) : Nat := text.foldl (fun value symbol => 16 * value + hexPlace symbol) 0

private theorem hexPlace_digitChar :
    ∀ place < 16, hexPlace (.char (Nat.digitChar place).toUpper) = place := by
  decide

private theorem hexValue_hexDigits (value : Nat) : hexValue (hexDigits value) = value := by
  induction value using Nat.base_induction 16 (by decide) with
  | single value below =>
    rw [hexDigits, Nat.toDigits_of_lt_base below]
    simpa [hexValue, ofChars] using hexPlace_digitChar value below
  | digit value last below positive ih =>
    rw [hexDigits, ← Nat.toDigits_append_toDigits (by decide) positive below,
      Nat.toDigits_of_lt_base below, List.map_append, ofChars_append, hexValue, List.foldl_append]
    change 16 * hexValue (hexDigits value) + hexPlace (.char (Nat.digitChar last).toUpper) = _
    rw [ih, hexPlace_digitChar last below]

/-- Zeros in front of the first digit do not count. -/
theorem hexValue_zeros (count : Nat) (text : Text) :
    hexValue (List.replicate count (.char '0') ++ text) = hexValue text := by
  induction count with
  | zero => rfl
  | succ count ih =>
    rw [List.replicate_succ, List.cons_append]
    exact ih

private theorem not_mem_paddedDigits {mark : Char}
    (other : ∀ place < 16, mark ≠ (Nat.digitChar place).toUpper) (count value : Nat) :
    Symbol.char mark ∉ List.replicate count (.char '0') ++ hexDigits value := by
  rw [List.mem_append, not_or]
  constructor
  · intro member
    exact other 0 (by decide) (Symbol.char.inj (List.eq_of_mem_replicate member))
  · intro member
    obtain ⟨place, below, same⟩ := mem_hexDigits member
    exact other place below (Symbol.char.inj same)

/-- Numbers are told apart whatever the widths are to which zeros fill them up. -/
theorem paddedHex_inj {width other : Nat} {left right : Int}
    (same : paddedHex width left = paddedHex other right) : left = right := by
  rw [paddedHex, paddedHex, List.append_assoc, List.append_assoc] at same
  obtain ⟨signs, body⟩ := signed_inj (not_mem_paddedDigits (by decide) _ _)
    (not_mem_paddedDigits (by decide) _ _) same
  have size := congrArg hexValue body
  rw [hexValue_zeros, hexValue_zeros, hexValue_hexDigits, hexValue_hexDigits] at size
  omega

theorem not_mem_paddedHex {mark : Char} (minus : mark ≠ '-')
    (other : ∀ place < 16, mark ≠ (Nat.digitChar place).toUpper) (width : Nat) (value : Int) :
    Symbol.char mark ∉ paddedHex width value := by
  rw [paddedHex, List.append_assoc, List.mem_append, not_or]
  exact ⟨not_mem_sign minus value, not_mem_paddedDigits other _ _⟩

end Text

end LuaLift
