import LuaLift.Instruction

/-! Instructions as a tree: below each one are the instructions that pushed its operands, and
below a jump also the statements it may skip. -/
namespace LuaLift

/-- The operand pushed last comes first; the statements a jump skips come after its operands. -/
structure Node where
  instruction : Instruction
  children : List Node
  index : Int
deriving Repr, Inhabited

namespace Node

mutual
/-- How many instructions the tree holds. -/
def size : Node → Nat
  | ⟨_, children, _⟩ => sizeAll children + 1

def sizeAll : List Node → Nat
  | [] => 0
  | node :: rest => node.size + sizeAll rest
end

mutual
/-- A line for each instruction, indented by its depth. -/
def dumpLines (unit : Text) (depth : Nat) : Node → Except Fault (List Text)
  | ⟨instruction, children, index⟩ => do
    let shown ← instruction.text
    let below ← dumpAll unit (depth + 1) children
    pure ((Text.times depth unit ++ Text.labelled index shown) :: below)

def dumpAll (unit : Text) (depth : Nat) : List Node → Except Fault (List Text)
  | [] => pure []
  | node :: rest => do
    let first ← dumpLines unit depth node
    let others ← dumpAll unit depth rest
    pure (first ++ others)
end

def dump (unit : Text) (node : Node) : Except Fault Text := do
  pure (Text.unlines (← node.dumpLines unit 0))

/-- The dumps of trees one after another. -/
def dumpForest (unit : Text) (forest : List Node) : Except Fault Text := do
  pure (Text.unlines (← forest.mapM (dump unit)))

mutual
/-- The tree's nodes, each before those below it. -/
def preorder : Node → List Node
  | ⟨instruction, children, index⟩ => ⟨instruction, children, index⟩ :: preorderAll children

def preorderAll : List Node → List Node
  | [] => []
  | node :: rest => node.preorder ++ preorderAll rest
end

/-- The leading items that together push as many values as needed, the others, and how many
values are still missing. The last item may push more than is needed. -/
def takePushed (pushes : α → Except Fault Int) (needed : Int) :
    List α → Except Fault (List α × List α × Int)
  | [] => pure ([], [], needed)
  | item :: rest =>
    if needed ≤ 0 then pure ([], item :: rest, needed)
    else do
      let pushed ← pushes item
      let (taken, others, missing) ← takePushed pushes (needed - pushed) rest
      pure (item :: taken, others, missing)

/-- The operands of a node, and the statements it may skip. -/
def separate (node : Node) : Except Fault (List Node × List Node) := do
  let pops ← node.instruction.pops
  let (operands, body, _) ← takePushed (·.instruction.pushes) pops node.children
  pure (operands, body)

end Node

end LuaLift
