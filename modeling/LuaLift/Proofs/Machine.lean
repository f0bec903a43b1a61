import LuaLift.Proofs.Forest.Fold
import Mathlib.Logic.Relation

/-! Two ways to run code under any meaning of its instructions: a machine with a program counter
and a stack of values, and the execution of a forest from the bottom up. -/
namespace LuaLift

/-- What instructions do to a state and to the values they take, which come latest first. -/
structure Meaning (State Value : Type) where
  /-- An instruction that leaves no value. -/
  act : Instruction → State → List Value → State
  /-- An instruction that leaves one value. -/
  produce : Instruction → State → List Value → State × Value
  /-- Whether a jump is taken. -/
  test : Instruction → State → List Value → State × Bool

/-- The state after an instruction, the values it leaves, and whether it jumps. -/
structure Aftermath (State Value : Type) where
  state : State
  pushed : List Value
  taken : Bool

/-- Where a machine stands in the code, with its stack, latest value first. -/
structure Config (State Value : Type) where
  counter : Nat
  stack : List Value
  state : State

/-- What the machine runs: at most one value is left behind, jumps do not go back, and there are no
loops. -/
structure Instruction.Plain (instruction : Instruction) : Prop where
  nonneg : 0 ≤ instruction.raw
  single : ∀ pushed, instruction.pushes = .ok pushed → pushed ≤ 1
  forward : instruction.isJump = .ok true → ∀ distance, instruction.s = .ok distance → 0 ≤ distance
  straight : ∀ opcode, instruction.opcode = .ok opcode →
    opcode.isLoop = false ∧ opcode ≠ .pushNilJump

instance (instruction : Instruction) : Decidable instruction.Plain :=
  decidable_of_iff
    (0 ≤ instruction.raw ∧ (∀ pushed, instruction.pushes = .ok pushed → pushed ≤ 1) ∧
      (instruction.isJump.toOption = some true →
        ∀ distance, instruction.s = .ok distance → 0 ≤ distance) ∧
      ∀ opcode, instruction.opcode = .ok opcode → opcode.isLoop = false ∧ opcode ≠ .pushNilJump)
    ⟨fun ⟨nonneg, single, forward, straight⟩ =>
        ⟨nonneg, single, fun jumps => forward (toOption_eq_some.mpr jumps), straight⟩,
      fun plain => ⟨plain.nonneg, plain.single,
        fun jumps => plain.forward (toOption_eq_some.mp jumps), plain.straight⟩⟩

namespace Meaning

variable {State Value : Type} (meaning : Meaning State Value)

def perform (instruction : Instruction) (state : State) (popped : List Value) :
    Aftermath State Value :=
  if instruction.isJump.toOption = some true then
    let (after, taken) := meaning.test instruction state popped
    ⟨after, [], taken⟩
  else if instruction.pushes.toOption = some 1 then
    let (after, value) := meaning.produce instruction state popped
    ⟨after, [value], false⟩
  else ⟨meaning.act instruction state popped, [], false⟩

/-- One step of the machine. There is none behind the code, above too low a stack, and at an
instruction that leaves several values or belongs to a loop. -/
def step (code : List Instruction) (config : Config State Value) :
    Option (Config State Value) := do
  let instruction ← code[config.counter]?
  let opcode ← instruction.opcode.toOption
  let pushes ← instruction.pushes.toOption
  let pops ← instruction.pops.toOption
  if opcode.isLoop || opcode = .pushNilJump || 1 < pushes || config.stack.length < pops then none
  else
    let after := meaning.perform instruction config.state (config.stack.take pops.toNat)
    let stack := after.pushed ++ config.stack.drop pops.toNat
    if after.taken then
      let distance ← instruction.s.toOption
      let target : Int := config.counter + 1 + distance
      if target < 0 then none else some ⟨target.toNat, stack, after.state⟩
    else some ⟨config.counter + 1, stack, after.state⟩

def Reaches (code : List Instruction) : Config State Value → Config State Value → Prop :=
  Relation.ReflTransGen fun before after => meaning.step code before = some after

/-- The machine gets from one configuration to another, from where it has no step. -/
def Halts (code : List Instruction) (start final : Config State Value) : Prop :=
  meaning.Reaches code start final ∧ meaning.step code final = none

/-- Actions in turn: the last state, and all values left, latest first. -/
def inTurn : List (State → State × List Value) → State → State × List Value
  | [], state => (state, [])
  | action :: rest, state =>
    let (middle, earlier) := action state
    let (last, later) := inTurn rest middle
    (last, later ++ earlier)

/-- A tree runs its operands as they were pushed, then its instruction, and its body unless that
jumps. -/
def runNode (node : Node) : State → State × List Value :=
  node.fold fun instruction _ operands body state =>
    let ready := inTurn operands state
    let after := meaning.perform instruction ready.1 ready.2
    (if after.taken then after.state else (inTurn body after.state).1, after.pushed)

def runNodes (nodes : List Node) : State → State × List Value :=
  inTurn (nodes.map meaning.runNode)

/-- The state after the statements of a forest ran in order. -/
def runForest (forest : List Node) (state : State) : State := (meaning.runNodes forest state).1

end Meaning

end LuaLift
