import LuaLift.Journal
import LuaLift.Node

/-! The statement forest of a stretch of code. Replaying the stack with nodes instead of values
puts every producer below its consumer; what leaves nothing on the stack is a statement. The
instructions that a forward jump may skip are a stretch of their own. -/
namespace LuaLift

/-- What to do besides building: check closures against a number of prototypes, and note each step
in the journal. -/
structure Watch where
  prototypes : Option Nat := none
  detailed : Bool := false
deriving DecidableEq, Repr

namespace Forest

def fail (problem : StructureProblem) (index : Int) : Except Fault α :=
  .error (.malformed problem (some index) none)

/-- The producers of the values an instruction pops, latest first, and those that stay. -/
def consume (instruction : Instruction) (index pops : Int) (pending : List Node) :
    Except Fault (List Node × List Node) := do
  let (operands, left, missing) ← Node.takePushed (·.instruction.pushes) pops pending
  if 0 < missing then
    fail (.underflow (← instruction.text) pops (pops - missing)) index
  else pure (operands, left)

/-- How many of the following instructions belong to a jump. -/
def skipped (instruction : Instruction) (index : Int) (left : Nat) : Except Fault Nat := do
  if ← instruction.skipsAhead then
    let distance ← instruction.s
    if left < distance then
      fail (.jumpTooFar (← instruction.text) left) index
    else pure distance.toNat
  else pure 0

/-- A closure names one of the prototypes inside the function. -/
def checkClosure (watch : Watch) (instruction : Instruction) (index : Int) :
    Except Fault Unit := do
  if let some available := watch.prototypes then
    if (← instruction.opcode) = .closure then
      let number ← instruction.a
      if available ≤ number then
        fail (.missingPrototype (← instruction.text) number available) index

/-- A journal entry for one step: the instruction, its effect, and the values on the stack. -/
def noteStep (watch : Watch) (instruction : Instruction) (index pops pushes : Int)
    (pending : List Node) : Traced Unit := do
  if watch.detailed then
    let shown ← (liftM instruction.text : Traced Text)
    let waiting ← (liftM (pending.reverse.mapM (·.instruction.text)) : Traced (List Text))
    Traced.note (.step (Text.labelled index shown) pops pushes waiting)

/-- At the end of a stretch no value may be left; the statements come out in order. -/
def close (pending statements : List Node) : Except Fault (List Node) :=
  match pending.reverse with
  | [] => pure statements.reverse
  | oldest :: others => do
    let values ← (oldest :: others).mapM fun node => do
      pure (node.index, ← node.instruction.text)
    fail (.residue values) oldest.index

/-- A stretch of code from an index on, with the producers whose values are on the stack and
the statements before it, both latest first. -/
def replay (watch : Watch) (pending statements : List Node) (index : Int) :
    List Instruction → Traced (List Node)
  | [] => close pending statements
  | instruction :: rest => do
    let pushes ← instruction.pushes
    let pops ← instruction.pops
    noteStep watch instruction index pops pushes pending
    checkClosure watch instruction index
    let (operands, left) ← consume instruction index pops pending
    let skip ← skipped instruction index rest.length
    let body ← replay watch [] [] (index + 1) (rest.take skip)
    let node : Node := ⟨instruction, operands ++ body, index⟩
    if pushes = 0 then
      replay watch left (node :: statements) (index + 1 + skip) (rest.drop skip)
    else
      replay watch (node :: left) statements (index + 1 + skip) (rest.drop skip)
termination_by code => code.length
decreasing_by all_goals simp only [List.length_take, List.length_drop, List.length_cons]; omega

/-- The statements of a stretch of code whose first instruction has a given index. -/
def build (watch : Watch) (base : Int) (code : List Instruction) : Traced (List Node) :=
  replay watch [] [] base code

end Forest

end LuaLift
