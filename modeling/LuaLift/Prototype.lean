import LuaLift.Instruction
import LuaLift.Number.Double

/-! Function prototypes: what a compiled function knows of itself, its constants, its code, and
the prototypes of the functions inside it. -/
namespace LuaLift

/-- A local variable and the instructions from which to which it is live. -/
structure Local where
  name : Text
  start : Int
  finish : Int
deriving DecidableEq, Repr, Inhabited

/-- A function as it was compiled, with the functions inside it. -/
structure Prototype where
  source : Text
  line : Int
  paramCount : Int
  isVararg : Bool
  maxStack : Int
  locals : List Local
  lines : List Int
  strings : List Text
  numbers : List Double
  functions : List Prototype
  code : List Instruction
deriving Repr, Inhabited

namespace Prototype

mutual
/-- The prototype followed by those inside it, each before the ones it holds. -/
def all : Prototype → List Prototype
  | ⟨source, line, paramCount, isVararg, maxStack, locals, lines, strings, numbers, functions,
      code⟩ =>
    ⟨source, line, paramCount, isVararg, maxStack, locals, lines, strings, numbers, functions,
      code⟩ :: allOf functions

def allOf : List Prototype → List Prototype
  | [] => []
  | prototype :: rest => prototype.all ++ allOf rest
end

/-- The source line of an instruction; without an entry, the line of the function. -/
def lineAt (prototype : Prototype) (index : Int) : Int :=
  if index < 0 then prototype.line else prototype.lines.getD index.toNat prototype.line

open Text in
def summary (prototype : Prototype) : Text :=
  "function <" ++ (if prototype.source.isEmpty then ofString "?" else prototype.source) ++ ":" ++
    decimal prototype.line ++ "> params=" ++ decimal prototype.paramCount ++
    (if prototype.isVararg then "+" else "") ++ " stack=" ++ decimal prototype.maxStack ++
    " locals=" ++ decimal prototype.locals.length ++
    " strings=" ++ decimal prototype.strings.length ++
    " numbers=" ++ decimal prototype.numbers.length ++
    " functions=" ++ decimal prototype.functions.length ++
    " instructions=" ++ decimal prototype.code.length

end Prototype

end LuaLift
