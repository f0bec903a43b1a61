import LuaLift.Proofs.Forest.Replay

/-! Reading a tree from the bottom up: first the operands in the order in which they were pushed,
then the statements a jump may skip. -/
namespace LuaLift.Node

/-- How many of the children are operands. -/
def operandCount (node : Node) : Nat :=
  match node.separate with
  | .ok (operands, _) => operands.length
  | .error _ => node.children.length

/-- The operands, latest first. -/
def operands (node : Node) : List Node := node.children.take node.operandCount

/-- The statements that the node may skip. -/
def body (node : Node) : List Node := node.children.drop node.operandCount

mutual
/-- A value for a tree, from those of its operands, earliest first, and of its body. -/
def fold (combine : Instruction → Int → List α → List α → α) : Node → α
  | ⟨instruction, children, index⟩ =>
    let parts := foldAll combine children
    let count := operandCount ⟨instruction, children, index⟩
    combine instruction index (parts.take count).reverse (parts.drop count)

def foldAll (combine : Instruction → Int → List α → List α → α) : List Node → List α
  | [] => []
  | node :: rest => node.fold combine :: foldAll combine rest
end

private theorem foldAll_eq_map (combine : Instruction → Int → List α → List α → α)
    (nodes : List Node) :
    foldAll combine nodes = nodes.map (fold combine) := by
  induction nodes with
  | nil => simp [foldAll]
  | cons node rest ih => simp [foldAll, ih]

theorem fold_eq (combine : Instruction → Int → List α → List α → α) (node : Node) :
    node.fold combine = combine node.instruction node.index
      (node.operands.reverse.map (fold combine)) (node.body.map (fold combine)) := by
  cases node with
  | mk instruction children index =>
    rw [fold, foldAll_eq_map]
    simp [operands, body, List.map_take, List.map_drop]

theorem operands_append_body (node : Node) : node.operands ++ node.body = node.children :=
  List.take_append_drop _ _

private theorem operands_of_separate {node : Node} {taken others : List Node}
    (separated : node.separate = .ok (taken, others)) (together : taken ++ others = node.children) :
    node.operands = taken ∧ node.body = others := by
  have count : node.operandCount = taken.length := by
    simp [operandCount, separated]
  rw [operands, body, count, ← together]
  simp

/-- Splitting finds the operands and the body at every depth, and only what skips ahead has a
body. -/
inductive Tidy : Node → Prop where
  | node {node : Node} (separated : node.separate = .ok (node.operands, node.body))
      (bodiless : node.instruction.skipsAhead = .ok true ∨ node.body = [])
      (operands : ∀ operand ∈ node.operands, Tidy operand)
      (body : ∀ statement ∈ node.body, Tidy statement) : Tidy node

end LuaLift.Node

namespace LuaLift.Forest

variable {instruction : Instruction} {pending operands left : List Node} {needed index : Int}

/-- A finished node has what was consumed for it as operands and its body behind them. -/
theorem operands_of_consume (pops : instruction.pops = .ok needed)
    (consumed : consume instruction index needed pending = .ok (operands, left))
    (nested : List Node) (position : Int) :
    (⟨instruction, operands ++ nested, position⟩ : Node).operands = operands ∧
      (⟨instruction, operands ++ nested, position⟩ : Node).body = nested :=
  Node.operands_of_separate (separate_of_consume pops consumed nested position) rfl

theorem Replay.eq_nil (trace : Replay rule [] index [] statements) : statements = [] := by
  cases trace with
  | done => rfl

private theorem tidy_of_consume (pops : instruction.pops = .ok needed)
    (consumed : consume instruction index needed pending = .ok (operands, left))
    (bodiless : instruction.skipsAhead = .ok true ∨ nested = [])
    (ready : ∀ node ∈ pending, node.Tidy) (inner : ∀ node ∈ nested, node.Tidy) :
    Node.Tidy ⟨instruction, operands ++ nested, index⟩ := by
  obtain ⟨sameOperands, sameBody⟩ := operands_of_consume pops consumed nested index
  refine .node ?_ ?_ ?_ ?_
  · rw [sameOperands, sameBody]
    exact separate_of_consume pops consumed nested index
  · rw [sameBody]
    exact bodiless
  · rw [sameOperands]
    intro operand member
    apply ready operand
    rw [← consume_append consumed]
    exact List.mem_append_left _ member
  · rw [sameBody]
    exact inner

/-- Building makes nothing but tidy trees. -/
theorem Replay.tidy (trace : Replay rule pending index code statements)
    (ready : ∀ node ∈ pending, node.Tidy) : ∀ statement ∈ statements, statement.Tidy := by
  induction trace with
  | done => simp
  | @producer instruction pushed needed index pending operands left statements code pushes leaves
      pops consumed rest ih =>
    apply ih
    intro node member
    rcases List.mem_cons.mp member with same | earlier
    · subst node
      have finished := tidy_of_consume pops consumed (.inr rfl) ready (by simp)
      simpa using finished
    · apply ready node
      rw [← consume_append consumed]
      exact List.mem_append_right _ earlier
  | @statement instruction needed index pending operands left nested statements inner outer pushes
      pops consumed owned allowed body rest ihBody ihRest =>
    have bodiless : instruction.skipsAhead = .ok true ∨ nested = [] := by
      rcases skipped_eq_ok.mp owned with ⟨_, none⟩ | ⟨ahead, _⟩
      · have empty := List.length_eq_zero_iff.mp none
        subst empty
        exact .inr body.eq_nil
      · exact .inl ahead
    intro node member
    rcases List.mem_cons.mp member with same | later
    · subst node
      exact tidy_of_consume pops consumed bodiless ready (ihBody (by simp))
    · apply ihRest _ node later
      intro earlier kept
      apply ready earlier
      rw [← consume_append consumed]
      exact List.mem_append_right _ kept

end LuaLift.Forest
