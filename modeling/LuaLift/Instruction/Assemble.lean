import LuaLift.Instruction

/-! Putting instruction words together. A word that does not fit its width is refused. -/
namespace LuaLift

/-- One value for each reading of an operand; an instruction uses those of its mode. -/
structure Operands where
  u : Int := 0
  s : Int := 0
  a : Int := 0
  b : Int := 0
deriving DecidableEq, Repr, Inhabited

namespace Instruction

/-- The bits above the opcode for the operands of a mode. -/
def packed (widths : FieldWidths) (operands : Operands) : Mode → Except Fault Int
  | .unsigned => pure operands.u
  | .signed => do pure (operands.s + (← bias (widths.word - widths.opcode)))
  | .pair => do
    let high ← shiftUp operands.a widths.low
    let low ← lowBits operands.b widths.low
    pure (high + low)
  | .plain => pure 0

/-- A number with the bits of an opcode number set in it. -/
def withOpcode (value : Int) (opcode : Opcode) : Int :=
  value / 64 * 64 + ((value % 64).toNat ||| opcode.number : Nat)

def assemble (opcode : Opcode) (operands : Operands) (widths : FieldWidths) :
    Except Fault Instruction := do
  let upper ← packed widths operands opcode.mode
  let raw := withOpcode (← shiftUp upper widths.opcode) opcode
  if (← shiftDown raw widths.word) = 0 then pure ⟨raw, widths⟩
  else throw (.operandTooWide widths.word)

end Instruction

end LuaLift
