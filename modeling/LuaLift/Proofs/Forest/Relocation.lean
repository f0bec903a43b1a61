import LuaLift.Proofs.Forest.Faults
import LuaLift.Proofs.Nested

/-! Code that stands elsewhere. The position of the first instruction is a label and nothing more:
counted from another one, the same trees are built at positions that are all moved by as much, or
building stops at the same fault, moved as well. -/
namespace LuaLift

/-- The problem with the positions it quotes moved. -/
def StructureProblem.moved (distance : Int) : StructureProblem → StructureProblem
  | residue values => residue (values.map fun value => (distance + value.1, value.2))
  | problem => problem

/-- The same cause at an instruction that stands elsewhere. What is known of bytes stays. -/
def Fault.moved (distance : Int) : Fault → Fault
  | malformed problem index offset =>
    malformed (problem.moved distance) (index.map (distance + ·)) offset
  | invalidOpcode raw opcode index offset =>
    invalidOpcode raw opcode (index.map (distance + ·)) offset
  | unsupported opcode children index => unsupported opcode children (index.map (distance + ·))
  | fault => fault

/-- A word that is read by itself has the same fault wherever it stands. -/
theorem Fault.moved_of_isUnplaced {fault : Fault} (unplaced : fault.isUnplaced = true)
    (distance : Int) : fault.moved distance = fault := by
  cases fault with
  | invalidOpcode raw opcode index offset =>
    cases index with
    | none => rfl
    | some index => cases unplaced
  | negativeShift => rfl
  | _ => cases unplaced

private theorem Instruction.confined_of_unmoved (distance : Int) (instruction : Instruction) :
    instruction.Confined fun fault => fault.moved distance = fault :=
  confined_of_unplaced (fun _ unplaced => Fault.moved_of_isUnplaced unplaced distance) instruction

namespace Node

mutual
/-- The tree with the position of every node moved. -/
def moved (distance : Int) : Node → Node
  | ⟨instruction, children, index⟩ =>
    ⟨instruction, movedAll distance children, distance + index⟩

def movedAll (distance : Int) : List Node → List Node
  | [] => []
  | node :: rest => node.moved distance :: movedAll distance rest
end

private theorem movedAll_eq_map (distance : Int) (nodes : List Node) :
    movedAll distance nodes = nodes.map (moved distance) :=
  Nested.eq_map (by rw [movedAll]) (fun node rest => by rw [movedAll]) nodes

private theorem moved_mk (distance : Int) (instruction : Instruction) (children : List Node)
    (index : Int) :
    moved distance ⟨instruction, children, index⟩ =
      ⟨instruction, children.map (moved distance), distance + index⟩ := by
  rw [moved, movedAll_eq_map]

@[simp] theorem moved_instruction (distance : Int) (node : Node) :
    (node.moved distance).instruction = node.instruction := by
  cases node
  rw [moved]

@[simp] theorem moved_index (distance : Int) (node : Node) :
    (node.moved distance).index = distance + node.index := by
  cases node
  rw [moved]

end Node

/-- What the same work comes to elsewhere: a result in some view of it, or the fault moved. -/
def relocated (distance : Int) (view : α → β) (outcome : Except Fault α) : Except Fault β :=
  (outcome.map view).mapError (Fault.moved distance)

section Relocated

variable {distance : Int} {view : α → β} {result : γ → δ}

private theorem relocated_bind {here : Except Fault α} {there : Except Fault β}
    {next : α → Except Fault γ} {following : β → Except Fault δ}
    (first : there = relocated distance view here)
    (follow : ∀ value, following (view value) = relocated distance result (next value)) :
    there >>= following = relocated distance result (here >>= next) := by
  subst there
  cases here with
  | ok value => exact follow value
  | error fault => rfl

/-- A step that does not see where it stands. -/
theorem relocated_bind_same {first : Except Fault α} {next : α → Except Fault γ}
    {following : α → Except Fault δ}
    (unmoved : Stops (fun fault => fault.moved distance = fault) first)
    (follow : ∀ value, following value = relocated distance result (next value)) :
    first >>= following = relocated distance result (first >>= next) := by
  cases done : first with
  | ok value => exact follow value
  | error fault => exact congrArg Except.error (unmoved fault done).symm

end Relocated

namespace Forest

variable (distance : Int) (instruction : Instruction) (index : Int)

/-- The journal's note of a step is made of words alone. -/
theorem outcome_noteStep_moved (watch : Watch) (pops pushes : Int) (pending : List Node) :
    (noteStep watch instruction (distance + index) pops pushes
      (pending.map (Node.moved distance))).outcome =
      (noteStep watch instruction index pops pushes pending).outcome := by
  have texts (nodes : List Node) : (nodes.map (Node.moved distance)).mapM (·.instruction.text) =
      nodes.mapM (·.instruction.text) := by
    simp only [List.mapM_map, Function.comp_def, Node.moved_instruction]
  rw [noteStep, noteStep]
  by_cases detailed : watch.detailed = true
  · simp only [if_pos detailed, Traced.outcome_bind, Traced.outcome_ofExcept,
      Traced.outcome_note, ← List.map_reverse, texts]
  · rw [if_neg detailed, if_neg detailed]

private theorem checkClosure_moved (watch : Watch) :
    checkClosure watch instruction (distance + index) =
      relocated distance id (checkClosure watch instruction index) := by
  have reads := instruction.confined_of_unmoved distance
  rw [checkClosure, checkClosure]
  cases watch.prototypes with
  | none => rfl
  | some available =>
    refine relocated_bind_same reads.opcode fun opcode => ?_
    by_cases closure : opcode = .closure
    · rw [if_pos closure, if_pos closure]
      refine relocated_bind_same reads.a fun number => ?_
      by_cases missing : available ≤ number
      · rw [if_pos missing, if_pos missing]
        exact relocated_bind_same reads.text fun shown => rfl
      · rw [if_neg missing, if_neg missing]
        rfl
    · rw [if_neg closure, if_neg closure]
      rfl

private theorem consume_moved (pops : Int) (pending : List Node) :
    consume instruction (distance + index) pops (pending.map (Node.moved distance)) =
      relocated distance (Prod.map (List.map (Node.moved distance)) (List.map (Node.moved distance)))
        (consume instruction index pops pending) := by
  have reads := instruction.confined_of_unmoved distance
  have waiting : Stops (fun fault => fault.moved distance = fault)
      (Node.takePushed (·.instruction.pushes) pops pending) :=
    Node.stops_takePushed (fun node _ => (node.instruction.confined_of_unmoved distance).pushes) pops
  rw [consume, consume, Node.takePushed_map_eq]
  simp only [Node.moved_instruction]
  cases taken : Node.takePushed (·.instruction.pushes) pops pending with
  | error fault => exact congrArg Except.error (waiting fault taken).symm
  | ok found =>
    obtain ⟨operands, left, missing⟩ := found
    change (if 0 < missing then _ else _) = relocated distance _ (if 0 < missing then _ else _)
    by_cases short : 0 < missing
    · rw [if_pos short, if_pos short]
      exact relocated_bind_same reads.text fun shown => rfl
    · rw [if_neg short, if_neg short]
      rfl

private theorem skipped_moved (available : Nat) :
    skipped instruction (distance + index) available =
      relocated distance id (skipped instruction index available) := by
  have reads := instruction.confined_of_unmoved distance
  rw [skipped, skipped]
  refine relocated_bind_same reads.skipsAhead fun ahead => ?_
  cases ahead with
  | false => rfl
  | true =>
    refine relocated_bind_same reads.s fun ahead => ?_
    by_cases far : (available : Int) < ahead
    · rw [if_pos far, if_pos far]
      exact relocated_bind_same reads.text fun shown => rfl
    · rw [if_neg far, if_neg far]
      rfl

/-- The values that are left, each at its position. -/
theorem values_moved (nodes : List Node) :
    (nodes.map (Node.moved distance)).mapM
      (fun node => do pure (node.index, ← node.instruction.text)) =
      relocated distance (List.map fun value => (distance + value.1, value.2))
        (nodes.mapM fun node => do pure (node.index, ← node.instruction.text)) := by
  induction nodes with
  | nil => rfl
  | cons node rest ih =>
    have reads := node.instruction.confined_of_unmoved distance
    have first : (do pure ((node.moved distance).index, ← (node.moved distance).instruction.text)) =
        relocated distance (fun value => (distance + value.1, value.2))
          (do pure (node.index, ← node.instruction.text)) := by
      rw [Node.moved_index, Node.moved_instruction]
      exact relocated_bind_same reads.text fun shown => rfl
    rw [List.map_cons, List.mapM_cons, List.mapM_cons]
    exact relocated_bind first fun value => relocated_bind ih fun others => rfl

private theorem close_moved (pending statements : List Node) :
    close (pending.map (Node.moved distance)) (statements.map (Node.moved distance)) =
      relocated distance (List.map (Node.moved distance)) (close pending statements) := by
  rw [close, close, ← List.map_reverse, ← List.map_reverse]
  cases pending.reverse with
  | nil => rfl
  | cons oldest others =>
    have values := values_moved distance (oldest :: others)
    rw [List.map_cons] at values ⊢
    dsimp only
    rw [Node.moved_index]
    exact relocated_bind values fun shown => rfl

/-- Some code replayed elsewhere, behind producers and statements that are moved as well. -/
theorem replay_moved (watch : Watch) (pending statements : List Node) (code : List Instruction) :
    (replay watch (pending.map (Node.moved distance)) (statements.map (Node.moved distance))
      (distance + index) code).outcome =
      relocated distance (List.map (Node.moved distance))
        (replay watch pending statements index code).outcome := by
  induction pending, statements, index, code using replay.induct with
  | case1 pending statements index =>
    rw [replay, replay]
    exact close_moved distance pending statements
  | case2 pending statements index instruction code ihBody ihStatement ihProducer =>
    have reads := instruction.confined_of_unmoved distance
    have waiting (node : Node) (_ : node ∈ pending) := node.instruction.confined_of_unmoved distance
    rw [replay, replay]
    simp only [Traced.outcome_bind, Traced.outcome_ofExcept]
    refine relocated_bind_same reads.pushes fun pushed =>
      relocated_bind_same reads.pops fun needed => ?_
    rw [outcome_noteStep_moved]
    refine relocated_bind_same (stops_noteStep watch reads waiting needed pushed) fun _ => ?_
    refine relocated_bind (checkClosure_moved distance instruction index watch) fun _ => ?_
    refine relocated_bind (consume_moved distance instruction index needed pending) fun taken => ?_
    obtain ⟨operands, left⟩ := taken
    refine relocated_bind (skipped_moved distance instruction index code.length) fun skip => ?_
    rw [Int.add_assoc]
    refine relocated_bind (ihBody skip) fun body => ?_
    have node : (⟨instruction, operands.map (Node.moved distance) ++ body.map (Node.moved distance),
        distance + index⟩ : Node) = Node.moved distance ⟨instruction, operands ++ body, index⟩ := by
      rw [Node.moved_mk, List.map_append]
    dsimp only [Prod.map, id]
    rw [node, Int.add_assoc]
    by_cases leaves : pushed = 0
    · rw [if_pos leaves, if_pos leaves]
      exact ihStatement operands left skip body
    · rw [if_neg leaves, if_neg leaves]
      exact ihProducer operands left skip body

/-- The position of the first instruction is only a label. Building succeeds from any base where it
does from zero, and then every node stands further on by the base; or else both stop for the same
cause, at an instruction that does. -/
theorem build_moved (watch : Watch) (base : Int) (code : List Instruction) :
    (build watch base code).outcome =
      ((build watch 0 code).outcome.map (List.map (Node.moved base))).mapError (Fault.moved base) := by
  have moved := replay_moved base 0 watch [] [] code
  rw [Int.add_zero] at moved
  exact moved

/-- A value is left over inside a condition that is counted from seven. -/
example :
    (build {} 7 [⟨12, {}⟩, ⟨2147483750, {}⟩, ⟨76, {}⟩, ⟨0, {}⟩]).outcome =
      .error (.malformed (.residue [(9, "GET_GLOBAL(1)")]) (some 9) none) := by cbv

end Forest

end LuaLift
