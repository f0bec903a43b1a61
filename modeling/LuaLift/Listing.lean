import LuaLift.Chunk
import LuaLift.Pool
import LuaLift.Text.Blank

/-! Instruction listings: a section for each prototype, a line for each instruction. Columns are
as wide as their numbers need, so nothing in a line is ever cut off. -/
namespace LuaLift

namespace Listing

/-- What an operand stands for: a constant, a variable, the target of a jump, a function. -/
def comment (prototype : Prototype) (index : Int) (instruction : Instruction) :
    Except Fault Text := do
  let opcode ← instruction.opcode
  match opcode with
  | .pushString | .getGlobal | .setGlobal | .getDotted | .pushSelf =>
    pure (((← findItem .list prototype.strings (← instruction.u)).map Text.shown).getD [])
  | .pushNumber | .pushNegativeNumber =>
    pure (((← findItem .list prototype.numbers (← instruction.u)).map Double.general).getD [])
  | .getLocal | .setLocal | .getIndexed =>
    pure (((← findItem .list prototype.locals (← instruction.u)).map Local.name).getD [])
  | .closure => pure ("function " ++ Text.decimal (← instruction.a))
  | _ =>
    if opcode.isJump || opcode.isLoop then
      pure ("to " ++ Text.decimal (index + 1 + (← instruction.s)))
    else pure []

/-- Digits for a word of some bits. -/
def wordDigits (widths : FieldWidths) : Nat := ((widths.word + 3) / 4).toNat

open Text in
/-- Position, source line, word, mnemonic, operands and comment of one instruction. -/
def instructionLine (prototype : Prototype) (index : Nat) (instruction : Instruction) :
    Except Fault Text := do
  let opcode ← instruction.opcode
  let operands ← instruction.operandText
  let text :=
    padLeft 6 (decimal index) ++ " [" ++ padLeft 4 (decimal (prototype.lineAt index)) ++ "] " ++
      paddedHex (wordDigits instruction.widths) instruction.raw ++ "    " ++
      padRight 12 opcode.mnemonic ++ " " ++ operands
  let comment ← comment prototype index instruction
  let noted := if comment.isEmpty then text else padRight 56 text ++ " ; " ++ comment
  pure (trimEnd noted)

open Text in
def localLine (slot : Nat) (entry : Local) : Text :=
  ";   local " ++ decimal slot ++ " " ++ entry.name ++ " [" ++ decimal entry.start ++ ", " ++
    decimal entry.finish ++ ")"

/-- The instructions within the limit, and a mark where there are more. -/
def codeLines (limit : Option Int) (prototype : Prototype) : Except Fault (List Text) := do
  let size := (limit.map Int.toNat).getD prototype.code.length
  let lines ← (prototype.code.take size).zipIdx.mapM fun (instruction, index) =>
    instructionLine prototype index instruction
  pure (lines ++
    if (prototype.code.drop size).isEmpty then [] else [Text.ofString "; ... truncated ..."])

/-- The lines of one prototype without those inside it. -/
def titled (limit : Option Int) (label : Text) (prototype : Prototype) :
    Except Fault (List Text) := do
  let code ← codeLines limit prototype
  pure (("; " ++ label ++ ": " ++ prototype.summary) ::
    prototype.locals.zipIdx.map (fun (entry, slot) => localLine slot entry) ++ code ++ [[]])

mutual
/-- The sections of a prototype and, after it, of those inside it. -/
def sections (limit : Option Int) (label : Text) : Prototype → Except Fault (List Text)
  | ⟨source, line, paramCount, isVararg, maxStack, locals, lines, strings, numbers, functions,
      code⟩ => do
    let own ← titled limit label
      ⟨source, line, paramCount, isVararg, maxStack, locals, lines, strings, numbers, functions,
        code⟩
    let inner ← sectionsOf limit label 0 functions
    pure (own ++ inner)

/-- Prototypes inside another are numbered after its label. -/
def sectionsOf (limit : Option Int) (label : Text) (position : Nat) :
    List Prototype → Except Fault (List Text)
  | [] => pure []
  | prototype :: rest => do
    let first ← sections limit (label ++ "." ++ Text.decimal position) prototype
    let others ← sectionsOf limit label (position + 1) rest
    pure (first ++ others)
end

end Listing

/-- The listing of a chunk, with at most so many instructions of each prototype. -/
def Chunk.listing (chunk : Chunk) (limit : Option Int) : Except Fault Text := do
  let sections ← Listing.sections limit "main" chunk.main
  pure (Text.unlines (("; " ++ chunk.preamble.summary) :: [] :: sections) ++ [Text.lineFeed])

end LuaLift
