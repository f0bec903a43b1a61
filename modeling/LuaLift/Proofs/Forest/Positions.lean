import LuaLift.Proofs.Forest.Ownership

/-! Where the nodes of a forest stand in the code. Statements come in the order of the code, at every
depth. The operands of a node fill stretches of the code before it, the latest operand the last
stretch, and they are made of values alone. -/
namespace LuaLift

namespace Node

/-- What stands below a node, by position: operands before it, the latest first, each tree apart from
the others, and then statements in the order of the code. -/
structure Ordered (node : Node) : Prop where
  separated : node.separate = .ok (node.operands, node.body)
  decreasing : node.operands.Pairwise fun later earlier => earlier.index < later.index
  older : ∀ operand ∈ node.operands, ∀ inner ∈ operand.preorder, inner.index < node.index
  apart : node.operands.Pairwise fun later earlier =>
    ∀ inner ∈ later.preorder, ∀ other ∈ earlier.preorder, other.index < inner.index
  values : ∀ operand ∈ node.operands, ∀ inner ∈ operand.preorder,
    ∃ count ≠ 0, inner.instruction.pushes = .ok count
  straight : ∀ operand ∈ node.operands, ∀ inner ∈ operand.preorder,
    inner.instruction.isJump = .ok false
  increasing : node.body.Pairwise fun earlier later => earlier.index < later.index
  complete : ∀ statement ∈ node.body, statement.instruction.pushes = .ok 0

private theorem entry_mem_program {node inner : Node} (member : inner ∈ node.preorder) :
    inner.entry ∈ node.program :=
  node.program_perm.mem_iff.mpr (List.mem_map_of_mem member)

end Node

namespace Forest

open Node (preorderAll programOf Ordered)

/-- Statements from an index on, in the order of the code, with all trees in order. -/
structure Sequence (index : Int) (statements : List Node) : Prop where
  behind : ∀ statement ∈ statements, index ≤ statement.index
  increasing : statements.Pairwise fun earlier later => earlier.index < later.index
  complete : ∀ statement ∈ statements, statement.instruction.pushes = .ok 0
  ordered : ∀ node ∈ preorderAll statements, node.Ordered

namespace Sequence

variable {index : Int} {statements : List Node}

theorem nil (index : Int) : Sequence index [] := ⟨by simp, by simp, by simp, by simp [preorderAll]⟩

private theorem earlier (sequence : Sequence index statements) {start : Int}
    (before : start ≤ index) :
    Sequence start statements where
  behind statement member := Int.le_trans before (sequence.behind statement member)
  increasing := sequence.increasing
  complete := sequence.complete
  ordered := sequence.ordered

theorem cons (sequence : Sequence index statements) (node : Node) (before : node.index < index)
    (pushes : node.instruction.pushes = .ok 0) (ordered : ∀ inner ∈ node.preorder, inner.Ordered) :
    Sequence node.index (node :: statements) where
  behind := by
    refine List.forall_mem_cons.mpr ⟨Int.le_refl _, fun statement member => ?_⟩
    exact Int.le_trans (Int.le_of_lt before) (sequence.behind statement member)
  increasing := by
    refine List.pairwise_cons.mpr ⟨fun statement member => ?_, sequence.increasing⟩
    exact Int.lt_of_lt_of_le before (sequence.behind statement member)
  complete := List.forall_mem_cons.mpr ⟨pushes, sequence.complete⟩
  ordered := by
    rw [← List.singleton_append, Node.preorderAll_append, Node.preorderAll_singleton]
    exact List.forall_mem_append.mpr ⟨ordered, sequence.ordered⟩

end Sequence

/-- Producers from before an index, in the order of the code, with all trees in order. -/
structure Waiting (index : Int) (pending : List Node) : Prop where
  older : ∀ item ∈ programOf pending, item.1 < index
  sorted : (programOf pending.reverse).Pairwise fun earlier later => earlier.1 < later.1
  values : ∀ node ∈ preorderAll pending, ∃ count ≠ 0, node.instruction.pushes = .ok count
  ordered : ∀ node ∈ preorderAll pending, node.Ordered

namespace Waiting

variable {index : Int} {pending operands left nested : List Node} {instruction : Instruction}

theorem nil (index : Int) : Waiting index [] :=
  ⟨by simp, by simp, by simp [preorderAll], by simp [preorderAll]⟩

private theorem later (waiting : Waiting index pending) {next : Int} (behind : index ≤ next) :
    Waiting next pending where
  older item member := Int.lt_of_lt_of_le (waiting.older item member) behind
  sorted := waiting.sorted
  values := waiting.values
  ordered := waiting.ordered

/-- What is taken from the stack is in order, and so is what stays. -/
theorem parts (waiting : Waiting index (operands ++ left)) :
    Waiting index operands ∧ Waiting index left := by
  obtain ⟨older, sorted, values, ordered⟩ := waiting
  rw [Node.programOf_append, List.forall_mem_append] at older
  rw [List.reverse_append, Node.programOf_append, List.pairwise_append] at sorted
  rw [Node.preorderAll_append, List.forall_mem_append] at values ordered
  exact ⟨⟨older.1, sorted.2.1, values.1, ordered.1⟩, ⟨older.2, sorted.1, values.2, ordered.2⟩⟩

private theorem older_preorder (waiting : Waiting index pending) {node inner : Node}
    (among : node ∈ pending) (member : inner ∈ node.preorder) : inner.index < index :=
  waiting.older inner.entry (Node.mem_programOf.mpr ⟨node, among, Node.entry_mem_program member⟩)

private theorem apart (waiting : Waiting index pending) :
    pending.Pairwise fun later earlier =>
      ∀ inner ∈ later.preorder, ∀ other ∈ earlier.preorder, other.index < inner.index := by
  have sorted := waiting.sorted
  rw [programOf, List.pairwise_flatMap, List.pairwise_reverse] at sorted
  refine sorted.2.imp fun {later earlier} below inner member other among => ?_
  exact below other.entry (Node.entry_mem_program among) inner.entry (Node.entry_mem_program member)

/-- A node is in order if it is finished with producers and statements that are. -/
theorem ordered_node (waiting : Waiting index pending) (pops : instruction.pops = .ok needed)
    (consumed : consume instruction index needed pending = .ok (operands, left))
    (inside : Sequence (index + 1) nested) :
    Ordered ⟨instruction, operands ++ nested, index⟩ := by
  obtain ⟨sameOperands, sameBody⟩ := operands_of_consume pops consumed nested index
  rw [← consume_append consumed] at waiting
  have taken := waiting.parts.1
  have values (operand : Node) (among : operand ∈ operands) (inner : Node)
      (member : inner ∈ operand.preorder) : ∃ count ≠ 0, inner.instruction.pushes = .ok count :=
    taken.values inner (Node.mem_preorderAll.mpr ⟨operand, among, member⟩)
  refine ⟨?_, ?_, ?_, ?_, ?_, ?_, ?_, ?_⟩
  all_goals simp only [sameOperands, sameBody]
  · exact separate_of_consume pops consumed nested index
  · refine taken.apart.imp fun {later earlier} below => ?_
    exact below later later.mem_preorder_self earlier earlier.mem_preorder_self
  · exact fun operand among inner member => taken.older_preorder among member
  · exact taken.apart
  · exact values
  · intro operand among inner member
    obtain ⟨count, leaves, pushes⟩ := values operand among inner member
    exact Instruction.isJump_of_pushes pushes leaves
  · exact inside.increasing
  · exact inside.complete

/-- A producer joins the stack with the operands it took. -/
theorem push (waiting : Waiting index pending) (pushes : instruction.pushes = .ok pushed)
    (leaves : pushed ≠ 0) (pops : instruction.pops = .ok needed)
    (consumed : consume instruction index needed pending = .ok (operands, left)) :
    Waiting (index + 1) (⟨instruction, operands, index⟩ :: left) := by
  have node : Ordered ⟨instruction, operands, index⟩ := by
    simpa using waiting.ordered_node pops consumed (.nil (index + 1))
  have listed : programOf (⟨instruction, operands, index⟩ :: left).reverse =
      programOf pending.reverse ++ [(index, instruction)] := by
    simpa using program_of_consume pops consumed [] index
  have below := below_of_consume pops consumed waiting.older
  obtain ⟨older, sorted, values, ordered⟩ := waiting
  rw [← consume_append consumed, Node.preorderAll_append, List.forall_mem_append] at values ordered
  refine ⟨below, ?_, ?_, ?_⟩
  · rw [listed, List.pairwise_append]
    refine ⟨sorted, List.pairwise_singleton _ _, fun item member own among => ?_⟩
    rw [List.mem_singleton.mp among]
    exact older item (Node.mem_programOf_reverse.mp member)
  all_goals
    rw [← List.singleton_append, Node.preorderAll_append, Node.preorderAll_singleton,
      Node.preorder_eq]
  · exact List.forall_mem_append.mpr
      ⟨List.forall_mem_cons.mpr ⟨⟨pushed, leaves, pushes⟩, values.1⟩, values.2⟩
  · exact List.forall_mem_append.mpr ⟨List.forall_mem_cons.mpr ⟨node, ordered.1⟩, ordered.2⟩

end Waiting

/-- From producers in order, a stretch of code becomes statements in order. -/
theorem Replay.sequence (trace : Replay rule pending index code statements)
    (waiting : Waiting index pending) : Sequence index statements := by
  induction trace with
  | done => exact .nil _
  | @producer instruction pushed needed index pending operands left statements code pushes leaves
      pops consumed rest ih => exact (ih (waiting.push pushes leaves pops consumed)).earlier (by omega)
  | @statement instruction needed index pending operands left nested statements inner outer pushes
      pops consumed owned allowed body rest ihBody ihRest =>
    have inside := ihBody (.nil (index + 1))
    have own := waiting.ordered_node pops consumed inside
    rw [← consume_append consumed] at waiting
    obtain ⟨taken, kept⟩ := waiting.parts
    have behind := ihRest (kept.later (by omega))
    refine behind.cons ⟨instruction, operands ++ nested, index⟩ ?_ pushes ?_
    · change index < index + 1 + inner.length
      omega
    · rw [Node.preorder_eq, Node.preorderAll_append]
      exact List.forall_mem_cons.mpr ⟨own, List.forall_mem_append.mpr ⟨taken.ordered, inside.ordered⟩⟩

/-- Every forest is in order. -/
theorem build_ordered (built : (build watch base code).outcome = .ok forest) :
    forest.Pairwise (fun earlier later => earlier.index < later.index) ∧
      (∀ statement ∈ forest, statement.instruction.pushes = .ok 0) ∧
      ∀ node ∈ preorderAll forest, node.Ordered := by
  have sequence := (build_sound built).sequence (.nil base)
  exact ⟨sequence.increasing, sequence.complete, sequence.ordered⟩

/-- An assignment stands between the operands of a condition, counted from five. -/
theorem build_ordered_of_interleaving :
    let sum : Node := ⟨⟨23, {}⟩, [⟨⟨76, {}⟩, [], 6⟩, ⟨⟨12, {}⟩, [], 5⟩], 9⟩
    let assignment (index : Int) : Node :=
      ⟨⟨19, {}⟩, [⟨⟨2147483654, {}⟩, [], index - 1⟩], index⟩
    let code : List Instruction := [⟨12, {}⟩, ⟨76, {}⟩, ⟨2147483654, {}⟩, ⟨19, {}⟩, ⟨23, {}⟩,
      ⟨2147483750, {}⟩, ⟨2147483654, {}⟩, ⟨19, {}⟩, ⟨0, {}⟩]
    let forest : List Node :=
      [assignment 8, ⟨⟨2147483750, {}⟩, [sum, assignment 12], 10⟩, ⟨⟨0, {}⟩, [], 13⟩]
    (build {} 5 code).outcome = .ok forest ∧
      forest.Pairwise (fun earlier later => earlier.index < later.index) ∧
      (∀ statement ∈ forest, statement.instruction.pushes = .ok 0) ∧
      ∀ node ∈ preorderAll forest, node.Ordered := by
  intro sum assignment code forest
  have built : (build {} 5 code).outcome = .ok forest := by cbv
  exact ⟨built, build_ordered built⟩

end Forest

end LuaLift
