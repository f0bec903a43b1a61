import LuaLift.Journal
import LuaLift.Node
import LuaLift.Pool
import LuaLift.Prototype

/-! The names and constants that the text of an instruction can mention. -/
namespace LuaLift

/-- How text is laid out and names are made up, and whether every statement has to be written. -/
structure Options where
  indent : Text := "  "
  strict : Bool := true
  localPrefix : Text := "local_"
  upvaluePrefix : Text := "upvalue_"
deriving DecidableEq, Repr, Inhabited

/-- What one function's text is written with. A function inside it is given the texts of the
values it captures. -/
structure Scope where
  options : Options
  localNames : List Text
  strings : List Text
  numbers : List Double
  functions : List (List Text → Traced Text)
  upvalues : List Text

namespace Options

/-- The name a chunk gives a local, or else one made from its slot. -/
def localName (options : Options) (given : Option Text) (slot : Int) : Text :=
  match given with
  | some (symbol :: rest) => symbol :: rest
  | _ => options.localPrefix ++ Text.decimal slot

end Options

namespace Scope

/-- A member of a constant pool that an operand at some index names. -/
def constant {α : Type} (pool : PoolKind) (items : List α) (number index : Int) : Traced α := do
  match ← findItem .list items number with
  | some item => pure item
  | none => throw (.malformed (.missingConstant pool number items.length) (some index) none)

def localName (scope : Scope) (slot : Int) : Except Fault Text := do
  let given ← findItem .list scope.localNames slot
  pure (scope.options.localName given slot)

/-- A captured value by the text it was captured as, or else by its slot. -/
def upvalueName (scope : Scope) (slot : Int) : Except Fault Text := do
  let captured ← findItem .tuple scope.upvalues slot
  pure ("%" ++ captured.getD (scope.options.upvaluePrefix ++ Text.decimal slot))

end Scope

end LuaLift
