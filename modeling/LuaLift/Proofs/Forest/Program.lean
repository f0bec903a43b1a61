import LuaLift.Proofs.Forest.Fold
import Mathlib.Algebra.GroupWithZero.Nat

/-! Which instructions a forest holds, in the order in which it is read. Building loses, repeats and
relabels nothing. -/
namespace LuaLift

/-- Instructions with their positions, counted from a base. -/
def numbered (base : Int) (code : List Instruction) : List (Int × Instruction) :=
  code.mapIdx fun offset instruction => (base + offset, instruction)

@[simp] theorem numbered_nil (base : Int) : numbered base [] = [] := rfl

@[simp] theorem numbered_cons (base : Int) (instruction : Instruction) (code : List Instruction) :
    numbered base (instruction :: code) = (base, instruction) :: numbered (base + 1) code := by
  simp [numbered, List.mapIdx_cons, Int.add_assoc, Int.add_comm 1]

@[simp] theorem numbered_append (base : Int) (before after : List Instruction) :
    numbered base (before ++ after) =
      numbered base before ++ numbered (base + before.length) after := by
  simp [numbered, List.mapIdx_append, Int.add_assoc, Int.add_comm (before.length : Int)]

theorem numbered_map_snd (base : Int) (code : List Instruction) :
    (numbered base code).map Prod.snd = code := by
  induction code generalizing base with
  | nil => rfl
  | cons instruction rest ih => simp [ih]

private theorem le_of_mem_numbered {item : Int × Instruction} (member : item ∈ numbered base code) :
    base ≤ item.1 := by
  induction code generalizing base with
  | nil => simp at member
  | cons instruction rest ih =>
    rw [numbered_cons] at member
    rcases List.mem_cons.mp member with same | later
    · subst item
      exact Int.le_refl _
    · have above := ih later
      omega

theorem numbered_sorted (base : Int) (code : List Instruction) :
    (numbered base code).Pairwise (fun earlier later => earlier.1 < later.1) := by
  induction code generalizing base with
  | nil => exact .nil
  | cons instruction rest ih =>
    rw [numbered_cons]
    refine .cons ?_ (ih _)
    intro item member
    have above := le_of_mem_numbered member
    change base < item.1
    omega

namespace Node

/-- The instructions of a tree with their positions: the operands as they were pushed, the node,
then the statements it may skip. -/
def program (node : Node) : List (Int × Instruction) :=
  node.fold fun instruction index operands body =>
    operands.flatten ++ (index, instruction) :: body.flatten

/-- The programs of trees one after another. -/
def programOf (forest : List Node) : List (Int × Instruction) := forest.flatMap program

@[simp] theorem programOf_nil : programOf [] = [] := rfl

@[simp] theorem programOf_cons (node : Node) (rest : List Node) :
    programOf (node :: rest) = node.program ++ programOf rest := List.flatMap_cons

@[simp] theorem programOf_append (before after : List Node) :
    programOf (before ++ after) = programOf before ++ programOf after := List.flatMap_append

theorem program_eq (node : Node) : node.program =
    programOf node.operands.reverse ++ (node.index, node.instruction) :: programOf node.body := by
  rw [program, fold_eq]
  rfl

theorem mem_program_self (node : Node) : (node.index, node.instruction) ∈ node.program := by
  rw [program_eq]
  simp

theorem mem_programOf {forest : List Node} {item : Int × Instruction} :
    item ∈ programOf forest ↔ ∃ node ∈ forest, item ∈ node.program := List.mem_flatMap

theorem mem_programOf_reverse {forest : List Node} {item : Int × Instruction} :
    item ∈ programOf forest.reverse ↔ item ∈ programOf forest := by
  simp [mem_programOf]

theorem mem_programOf_of_operands {forest : List Node} {node : Node} {item : Int × Instruction}
    (among : node ∈ forest) (member : item ∈ programOf node.operands) : item ∈ programOf forest := by
  refine mem_programOf.mpr ⟨node, among, ?_⟩
  rw [program_eq]
  exact List.mem_append_left _ (mem_programOf_reverse.mpr member)

theorem size_eq (node : Node) : node.size = sizeAll node.children + 1 := by
  cases node
  rw [size]

@[simp] theorem sizeAll_append (before after : List Node) :
    sizeAll (before ++ after) = sizeAll before + sizeAll after := by
  induction before with
  | nil => simp [sizeAll]
  | cons node rest ih => simp [sizeAll, ih, Nat.add_assoc]

theorem sizeAll_eq_sum (nodes : List Node) : sizeAll nodes = (nodes.map size).sum := by
  induction nodes with
  | nil => simp [sizeAll]
  | cons node rest ih => simp [sizeAll, ih]

end Node

namespace Forest

open Node (program programOf programOf_nil programOf_cons mem_programOf mem_programOf_reverse
  mem_program_self size sizeAll sizeAll_append)
open scoped List

/-- A node lists what was taken from the pending producers, itself, and its body. -/
theorem program_of_consume {instruction : Instruction} {pending operands left : List Node}
    (pops : instruction.pops = .ok needed)
    (consumed : consume instruction index needed pending = .ok (operands, left))
    (nested : List Node) (position : Int) :
    programOf left.reverse ++ program ⟨instruction, operands ++ nested, position⟩ =
      programOf pending.reverse ++ (position, instruction) :: programOf nested := by
  obtain ⟨sameOperands, sameBody⟩ := operands_of_consume pops consumed nested position
  rw [Node.program_eq, sameOperands, sameBody, ← consume_append consumed]
  simp

/-- What stays pending is still older than the next instruction. -/
theorem left_below_of_consume {instruction : Instruction} {pending operands left : List Node}
    (consumed : consume instruction index needed pending = .ok (operands, left))
    (below : ∀ item ∈ programOf pending, item.1 < index) : ∀ item ∈ programOf left, item.1 < index := by
  intro item member
  apply below item
  rw [← consume_append consumed, Node.programOf_append]
  exact List.mem_append_right _ member

/-- So is what is pending after a producer. -/
theorem below_of_consume {instruction : Instruction} {pending operands left : List Node}
    (pops : instruction.pops = .ok needed)
    (consumed : consume instruction index needed pending = .ok (operands, left))
    (below : ∀ item ∈ programOf pending, item.1 < index) :
    ∀ item ∈ programOf (⟨instruction, operands, index⟩ :: left), item.1 < index + 1 := by
  have listed := program_of_consume pops consumed [] index
  intro item member
  have among : item ∈ programOf left.reverse ++ program ⟨instruction, operands ++ [], index⟩ := by
    simpa [mem_programOf_reverse, or_comm] using member
  rw [listed, List.mem_append, mem_programOf_reverse] at among
  rcases among with earlier | same
  · have before := below item earlier
    omega
  · have itself : item = (index, instruction) := by simpa using same
    subst itself
    exact Int.lt_add_one_of_le (Int.le_refl index)

/-- Statements hold the instructions of the producers pending before them and of their code. -/
theorem Replay.perm (trace : Replay rule pending index code statements) :
    (programOf statements).Perm (programOf pending.reverse ++ numbered index code) := by
  induction trace with
  | done => exact .nil
  | @producer instruction pushed needed index pending operands left statements code pushes leaves
      pops consumed rest ih =>
    have listed := program_of_consume pops consumed [] index
    simp only [List.append_nil, programOf_nil] at listed
    have pushedNode : programOf (⟨instruction, operands, index⟩ :: left).reverse =
        programOf pending.reverse ++ [(index, instruction)] := by
      simpa using listed
    rw [pushedNode] at ih
    simpa using ih
  | @statement instruction needed index pending operands left nested statements inner outer pushes
      pops consumed owned allowed body rest ihBody ihRest =>
    have listed := program_of_consume pops consumed nested index
    have bodyPerm : (programOf nested).Perm (numbered (index + 1) inner) := by
      simpa using ihBody
    calc programOf (⟨instruction, operands ++ nested, index⟩ :: statements)
      _ = program ⟨instruction, operands ++ nested, index⟩ ++ programOf statements := by simp
      _ ~ program ⟨instruction, operands ++ nested, index⟩ ++ (programOf left.reverse ++
            numbered (index + 1 + inner.length) outer) := ihRest.append_left _
      _ ~ (programOf left.reverse ++ program ⟨instruction, operands ++ nested, index⟩) ++
            numbered (index + 1 + inner.length) outer := by
          rw [← List.append_assoc]
          exact List.perm_append_comm.append_right _
      _ = programOf pending.reverse ++ (index, instruction) :: (programOf nested ++
            numbered (index + 1 + inner.length) outer) := by
          rw [listed]
          simp
      _ ~ programOf pending.reverse ++ (index, instruction) :: (numbered (index + 1) inner ++
            numbered (index + 1 + inner.length) outer) :=
          ((bodyPerm.append_right _).cons _).append_left _
      _ = programOf pending.reverse ++ numbered index (instruction :: (inner ++ outer)) := by simp

theorem Replay.size_sum (trace : Replay rule pending index code statements) :
    sizeAll statements = sizeAll pending + code.length := by
  induction trace with
  | done => rfl
  | @producer instruction pushed needed index pending operands left statements code pushes leaves
      pops consumed rest ih =>
    rw [ih, ← consume_append consumed]
    simp [sizeAll, size]
    omega
  | @statement instruction needed index pending operands left nested statements inner outer pushes
      pops consumed owned allowed body rest ihBody ihRest =>
    simp only [sizeAll, size, sizeAll_append, ihBody, ihRest, ← consume_append consumed,
      List.length_cons, List.length_append]
    omega

end Forest

end LuaLift
