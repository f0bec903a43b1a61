import LuaLift.Fault
import LuaLift.Number.Power
import LuaLift.Opcode

/-! Instruction words. The opcode is the lowest field; above it lies one operand, or a low and a
high one. The field widths come from the chunk, and a shift by a negative width is a fault. -/
namespace LuaLift

/-- Bits in a word, in its opcode field, and in the low operand of a pair. -/
structure FieldWidths where
  word : Int := 32
  opcode : Int := 6
  low : Int := 9
deriving DecidableEq, Repr, Inhabited

/-- Every field has room, and they leave some for the high operand of a pair. -/
structure FieldWidths.Fit (widths : FieldWidths) : Prop where
  opcode_pos : 0 < widths.opcode
  low_pos : 0 < widths.low
  lt_word : widths.opcode + widths.low < widths.word

/-- A word with the widths of its fields. It may hold any number and name no opcode. -/
structure Instruction where
  raw : Int
  widths : FieldWidths := {}
deriving DecidableEq, Repr, Inhabited

/-- The number without its lowest bits, rounded down. -/
def shiftDown (value width : Int) : Except Fault Int :=
  if width < 0 then .error .negativeShift else .ok (value / 2 ^ width.toNat)

/-- The number moved up to make room for more bits. -/
def shiftUp (value width : Int) : Except Fault Int :=
  if width < 0 then .error .negativeShift else .ok (value * 2 ^ width.toNat)

/-- The lowest bits of the number. -/
def lowBits (value width : Int) : Except Fault Int :=
  if width < 0 then .error .negativeShift else .ok (value % 2 ^ width.toNat)

/-- The middle of an unsigned range, which stands for zero in the signed reading. -/
def bias (width : Int) : Except Fault Int :=
  if width < 0 then .error .negativeShift else .ok ((2 ^ width.toNat - 1) / 2)

namespace Instruction

def opcodeField (instruction : Instruction) : Except Fault Int :=
  lowBits instruction.raw instruction.widths.opcode

def opcode (instruction : Instruction) : Except Fault Opcode := do
  let number ← instruction.opcodeField
  match Opcode.ofNumber? number with
  | some opcode => pure opcode
  | none => throw (.invalidOpcode instruction.raw number none none)

/-- All bits above the opcode. -/
def u (instruction : Instruction) : Except Fault Int :=
  shiftDown instruction.raw instruction.widths.opcode

/-- All bits above the opcode, counted from the middle of their range. -/
def s (instruction : Instruction) : Except Fault Int := do
  let unsigned ← instruction.u
  let middle ← bias (instruction.widths.word - instruction.widths.opcode)
  pure (unsigned - middle)

/-- The bits above the low operand. -/
def a (instruction : Instruction) : Except Fault Int :=
  shiftDown instruction.raw (instruction.widths.opcode + instruction.widths.low)

/-- The bits of the low operand. -/
def b (instruction : Instruction) : Except Fault Int := do
  lowBits (← instruction.u) instruction.widths.low

def field (instruction : Instruction) : Field → Except Fault Int
  | .u => instruction.u
  | .a => instruction.a
  | .b => instruction.b

/-- How many values an effect comes to with this instruction's operands. -/
def count (instruction : Instruction) : Effect → Except Fault Int
  | .fixed number => pure number
  | .operand field factor extra => do
    pure (factor * (← instruction.field field) + extra)

def pushes (instruction : Instruction) : Except Fault Int := do
  instruction.count (← instruction.opcode).pushes

def pops (instruction : Instruction) : Except Fault Int := do
  instruction.count (← instruction.opcode).pops

def isJump (instruction : Instruction) : Except Fault Bool := do
  pure (← instruction.opcode).isJump

/-- Whether the instruction may skip instructions that follow it. -/
def skipsAhead (instruction : Instruction) : Except Fault Bool := do
  if ← instruction.isJump then pure (decide (0 < (← instruction.s))) else pure false

/-- The operands in the reading of the opcode's mode. -/
def operandText (instruction : Instruction) : Except Fault Text := do
  match (← instruction.opcode).mode with
  | .unsigned => pure (Text.decimal (← instruction.u))
  | .signed => pure (Text.decimal (← instruction.s))
  | .pair => do
    let high ← instruction.a
    let low ← instruction.b
    pure (Text.decimal high ++ ", " ++ Text.decimal low)
  | .plain => pure []

def text (instruction : Instruction) : Except Fault Text := do
  let opcode ← instruction.opcode
  let operands ← instruction.operandText
  pure (Text.ofString opcode.name ++ "(" ++ operands ++ ")")

end Instruction

end LuaLift
