import LuaLift.Instruction
import LuaLift.Proofs.Outcome

/-! The fields of a word. Where the widths fit, every field can be read, and each is a quotient or a
remainder of the word by powers of two. -/
namespace LuaLift

/-- The number of bits above the opcode. -/
def FieldWidths.upper (widths : FieldWidths) : Nat := (widths.word - widths.opcode).toNat

namespace Instruction

variable {widths : FieldWidths} {raw : Int} (fit : widths.Fit)

include fit

theorem opcodeField_eq : opcodeField ⟨raw, widths⟩ = .ok (raw % 2 ^ widths.opcode.toNat) :=
  if_neg (Int.not_lt.mpr (Int.le_of_lt fit.opcode_pos))

theorem u_eq : u ⟨raw, widths⟩ = .ok (raw / 2 ^ widths.opcode.toNat) :=
  if_neg (Int.not_lt.mpr (Int.le_of_lt fit.opcode_pos))

theorem bias_eq : bias (widths.word - widths.opcode) = .ok ((2 ^ widths.upper - 1) / 2) := by
  obtain ⟨_, low, wide⟩ := fit
  exact if_neg (by omega)

theorem s_eq : s ⟨raw, widths⟩ =
    .ok (raw / 2 ^ widths.opcode.toNat - (2 ^ widths.upper - 1) / 2) := by
  simp only [s, u_eq fit, bias_eq fit]
  rfl

theorem a_eq : a ⟨raw, widths⟩ =
    .ok (raw / 2 ^ widths.opcode.toNat / 2 ^ widths.low.toNat) := by
  obtain ⟨opcode, low, _⟩ := fit
  have sum : (widths.opcode + widths.low).toNat = widths.opcode.toNat + widths.low.toNat := by omega
  have place : (0 : Int) ≤ 2 ^ widths.opcode.toNat := Int.pow_nonneg (by decide)
  dsimp only [a, shiftDown]
  rw [if_neg (by omega), sum, Int.pow_add, Int.ediv_ediv_of_nonneg place]

theorem b_eq : b ⟨raw, widths⟩ =
    .ok (raw / 2 ^ widths.opcode.toNat % 2 ^ widths.low.toNat) := by
  simp only [b, u_eq fit]
  exact if_neg (Int.not_lt.mpr (Int.le_of_lt fit.low_pos))

theorem opcode_eq_ok_iff {opcode : Opcode} :
    Instruction.opcode ⟨raw, widths⟩ = .ok opcode ↔
      raw % 2 ^ widths.opcode.toNat = opcode.number := by
  rw [← Opcode.ofNumber?_eq_some_iff]
  simp only [Instruction.opcode, opcodeField_eq fit, bind_eq_ok, Except.ok.injEq, exists_eq_left']
  cases Opcode.ofNumber? (raw % 2 ^ widths.opcode.toNat) with
  | none => simp [throw_eq_ok]
  | some found => simp [pure_eq_ok]

end Instruction

end LuaLift
