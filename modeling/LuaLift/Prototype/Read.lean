import LuaLift.Cursor
import LuaLift.Prototype

/-! Reading prototypes. Every prototype takes some bytes, so the bytes that are left bound how
deep prototypes can lie inside each other. -/
namespace LuaLift

/-- Reading with a journal; the first fault ends it. -/
abbrev Parse := StateT Cursor Traced

namespace Parse

variable {α : Type}

def ofRead (read : Read α) : Parse α := fun cursor =>
  match read.run cursor with
  | (.ok value, next) => pure (value, next)
  | (.error fault, _) => throw fault

instance : MonadLift Read Parse := ⟨ofRead⟩

/-- The same reading a number of times in a row. -/
def times (parse : Parse α) : Nat → Parse (List α)
  | 0 => pure []
  | count + 1 => do
    let first ← parse
    let rest ← times parse count
    pure (first :: rest)

def offset : Parse Nat := do pure (← get).offset

def failAt (problem : StructureProblem) (index : Option Int) (offset : Int) : Parse α :=
  throw (Fault.malformed problem index (some offset))

end Parse

namespace Prototype

def parseLocal (encoding : Encoding) : Parse Local := do
  let name ← Read.text encoding
  let start ← Read.int encoding
  let finish ← Read.int encoding
  pure ⟨name, start, finish⟩

/-- A count and as many elements. -/
def parseList (encoding : Encoding) (what : Text) (element : Parse α) : Parse (List α) := do
  element.times (← Read.count encoding what)

/-- The instructions from an index on, each with a known opcode. -/
def parseInstructions (encoding : Encoding) (widths : FieldWidths) (index : Nat) :
    Nat → Parse (List Instruction)
  | 0 => pure []
  | count + 1 => do
    let offset ← Parse.offset
    let instruction : Instruction := ⟨← Read.word encoding, widths⟩
    let number ← (liftM instruction.opcodeField : Traced Int)
    if (Opcode.ofNumber? number).isNone then
      throw (Fault.invalidOpcode instruction.raw number (some index) (some offset))
    let rest ← parseInstructions encoding widths (index + 1) count
    pure (instruction :: rest)

/-- A count and as many instructions, the last of which ends the function. -/
def parseCode (encoding : Encoding) (widths : FieldWidths) : Parse (List Instruction) := do
  let start ← Parse.offset
  let count ← Read.count encoding "instruction"
  let code ← parseInstructions encoding widths 0 count
  match code.getLast? with
  | none => Parse.failAt .noInstructions none start
  | some last =>
    if (← (liftM last.opcode : Traced Opcode)) = .endCode then pure code
    else
      let shown ← (liftM last.text : Traced Text)
      Parse.failAt (.missingEnd shown) (some (code.length - 1))
        ((← Parse.offset) - encoding.wordSize)

/-- One prototype, given how to read the ones inside it. -/
def parseWith (encoding : Encoding) (widths : FieldWidths) (inner : Parse Prototype) :
    Parse Prototype := do
  let start ← Parse.offset
  let source ← Read.text encoding
  let line ← Read.int encoding
  let paramCount ← Read.int encoding
  let isVararg := (← Read.byte) = 1
  let maxStack ← Read.int encoding
  let locals ← parseList encoding "local" (parseLocal encoding)
  let lines ← parseList encoding "line" (Read.int encoding)
  let strings ← parseList encoding "string constant" (Read.text encoding)
  let numbers ← parseList encoding "number constant" (Read.number encoding)
  let functions ← parseList encoding "function constant" inner
  let code ← parseCode encoding widths
  let prototype : Prototype :=
    ⟨source, line, paramCount, isVararg, maxStack, locals, lines, strings, numbers, functions,
      code⟩
  Traced.note (.prototypeRead prototype.summary start)
  pure prototype

/-- Prototypes to a depth. Below it nothing is left to read, so any read of a byte fails. -/
def parseTo (encoding : Encoding) (widths : FieldWidths) : Nat → Parse Prototype
  | 0 => parseWith encoding widths (do let _ ← Read.byte; pure default)
  | depth + 1 => parseWith encoding widths (parseTo encoding widths depth)

def parse (encoding : Encoding) (widths : FieldWidths) : Parse Prototype := do
  parseTo encoding widths (← get).rest.length

end Prototype

end LuaLift
