import LuaLift.Text.Numeral
import LuaLift.Text.Shown

/-! What can go wrong, by cause. The wording of every fault is in one place, and so is the note
of where it happened. -/
namespace LuaLift

/-- The kinds of values whose width and byte order a preamble chooses. -/
inductive ValueKind where
  | int
  | size
  | instruction
  | number
deriving DecidableEq, Repr

def ValueKind.name : ValueKind → String
  | int => "int"
  | size => "size_t"
  | instruction => "instruction"
  | number => "number"

/-- The pools that operands point into. -/
inductive PoolKind where
  | string
  | number
  | function
deriving DecidableEq, Repr

def PoolKind.name : PoolKind → String
  | string => "string"
  | number => "number"
  | function => "function"

/-- The preamble is not that of a Lua 4.0 chunk. -/
inductive PreambleProblem where
  | tooShort (size : Nat)
  | wrongId (found expected : UInt8)
  | wrongSignature (found : Text)
  | wrongVersion (found expected : UInt8)
  | truncatedSample (needed left : Nat)
  | other (message : Text)
deriving DecidableEq, Repr

/-- The preamble asks for widths that cannot be read. -/
inductive EncodingProblem where
  | noDecoder (kind : ValueKind) (size orderFlag : Int)
  | emptyField (opcodeBits lowBits : Int)
  | wideWord (wordBits wordBytes : Int)
  | noRoom (opcodeBits lowBits wordBits : Int)
  | other (message : Text)
deriving DecidableEq, Repr

/-- The chunk breaks a rule of its structure or of the stack. -/
inductive StructureProblem where
  | negativeLength (length : Int)
  | unexpectedEnd (needed left : Int)
  | negativeCount (what : Text) (count : Int)
  | unterminatedString
  | noInstructions
  | missingEnd (last : Text)
  | trailingBytes (count : Nat)
  | underflow (instruction : Text) (needed available : Int)
  | jumpTooFar (instruction : Text) (left : Nat)
  | missingPrototype (instruction : Text) (number : Int) (available : Nat)
  | residue (values : List (Int × Text))
  | missingConstant (pool : PoolKind) (number : Int) (available : Nat)
  | noCallee
  | other (message : Text)
deriving DecidableEq, Repr

/-- What keeps items in a row. -/
inductive RowKind where
  | list
  | tuple
deriving DecidableEq, Repr

def RowKind.name : RowKind → String
  | list => "list"
  | tuple => "tuple"

/-- A cause together with the instruction and the byte where it was found. The last four are faults
of a caller, in field widths, in an operand, in a layout, and in an index that counts back past the
first item of a row. -/
inductive Fault where
  | other (message : Text)
  | preamble (problem : PreambleProblem) (offset : Option Int)
  | encoding (problem : EncodingProblem) (offset : Option Int)
  | invalidOpcode (raw opcode : Int) (index offset : Option Int)
  | malformed (problem : StructureProblem) (index offset : Option Int)
  | unsupported (opcode : Text) (children : Nat) (index : Option Int)
  | negativeShift
  | operandTooWide (wordBits : Int)
  | indentUnderflow
  | indexUnderflow (row : RowKind)
deriving DecidableEq, Repr

namespace Text

def hexByte (byte : UInt8) : Text := "0x" ++ paddedHex 2 byte.toNat

/-- A position in square brackets before an instruction. -/
def labelled (index : Int) (text : Text) : Text := "[" ++ decimal index ++ "] " ++ text

end Text

open Text

def PreambleProblem.message : PreambleProblem → Text
  | tooShort size => "chunk too short for a header: " ++ decimal size ++ " byte(s)"
  | wrongId found expected => "bad chunk id " ++ hexByte found ++ ", expected " ++ hexByte expected
  | wrongSignature found => "bad signature " ++ shown found
  | wrongVersion found expected =>
    "unsupported version " ++ hexByte found ++ ", expected " ++ hexByte expected
  | truncatedSample needed left =>
    "truncated test number: need " ++ decimal needed ++ " byte(s), " ++ decimal left ++ " left"
  | other message => message

def EncodingProblem.message : EncodingProblem → Text
  | noDecoder kind size orderFlag =>
    "no " ++ ofString kind.name ++ " decoder for size=" ++ decimal size ++ " endianness=" ++
      decimal orderFlag
  | emptyField opcodeBits lowBits =>
    "opcode and B fields must be non-empty (op=" ++ decimal opcodeBits ++ ", b=" ++
      decimal lowBits ++ ")"
  | wideWord wordBits wordBytes =>
    decimal wordBits ++ "-bit instructions do not fit in " ++ decimal wordBytes ++ " byte(s)"
  | noRoom opcodeBits lowBits wordBits =>
    "op=" ++ decimal opcodeBits ++ " and b=" ++ decimal lowBits ++
      " leave no room for the A field in " ++ decimal wordBits ++ "-bit instructions"
  | other message => message

def StructureProblem.message : StructureProblem → Text
  | negativeLength length => "negative read length " ++ decimal length
  | unexpectedEnd needed left =>
    "unexpected end of chunk: need " ++ decimal needed ++ " byte(s), " ++ decimal left ++ " left"
  | negativeCount what count => "negative " ++ what ++ " count " ++ decimal count
  | unterminatedString => "string is not NUL terminated"
  | noInstructions => "function has no instructions"
  | missingEnd last => "function code ends with " ++ last ++ " instead of END"
  | trailingBytes count => decimal count ++ " trailing byte(s) after the top-level function"
  | underflow instruction needed available =>
    "stack underflow: " ++ instruction ++ " needs " ++ decimal needed ++ " value(s), " ++
      decimal available ++ " available"
  | jumpTooFar instruction left =>
    instruction ++ " jumps past the end of its block (" ++ decimal left ++ " instruction(s) left)"
  | missingPrototype instruction number available =>
    instruction ++ " references missing function " ++ decimal number ++ " (" ++
      decimal available ++ " available)"
  | residue values =>
    decimal values.length ++ " value(s) left on the stack: " ++
      join ", " (values.map fun value => labelled value.1 value.2)
  | missingConstant pool number available =>
    ofString pool.name ++ " constant " ++ decimal number ++ " out of range (" ++
      decimal available ++ " available)"
  | noCallee => "call without a callee"
  | other message => message

namespace Fault

/-- The instruction and the byte where a fault was found, as far as they are known. -/
def placed (index offset : Option Int) (message : Text) : Text :=
  let details := index.toList.map (fun index => "instruction " ++ decimal index) ++
    offset.toList.map (fun offset => "offset 0x" ++ hex offset)
  if details.isEmpty then message else message ++ " (" ++ join ", " details ++ ")"

def message : Fault → Text
  | other message => message
  | preamble problem offset => placed none offset problem.message
  | encoding problem offset => placed none offset problem.message
  | invalidOpcode raw opcode index offset =>
    placed index offset
      ("invalid opcode " ++ decimal opcode ++ " in instruction word 0x" ++ hex raw)
  | malformed problem index offset => placed index offset problem.message
  | unsupported opcode children index =>
    placed index none
      ("cannot generate code for " ++ opcode ++ " with " ++ decimal children ++ " operand(s)")
  | negativeShift => "negative shift count"
  | operandTooWide wordBits =>
    "operand does not fit in a " ++ decimal wordBits ++ "-bit instruction"
  | indentUnderflow => "indentation underflow"
  | indexUnderflow row => ofString row.name ++ " index out of range"

end Fault

end LuaLift
