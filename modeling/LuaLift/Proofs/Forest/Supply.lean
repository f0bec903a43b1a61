import LuaLift.Proofs.Forest.Ownership

/-! What operands push against what their node pops. They push enough, and without the earliest one
they would not, so only the earliest one can push more than is needed. -/
namespace LuaLift

/-- Numbers above zero add up to their count at least. -/
theorem length_le_sum {counts : List Int} (positive : ∀ count ∈ counts, 0 < count) :
    (counts.length : Int) ≤ counts.sum := by
  induction counts with
  | nil => exact Int.le_refl 0
  | cons count rest ih =>
    obtain ⟨here, behind⟩ := List.forall_mem_cons.mp positive
    have more := ih behind
    rw [List.length_cons, List.sum_cons]
    omega

theorem eq_one_of_sum_le {counts : List Int} (positive : ∀ count ∈ counts, 0 < count)
    (small : counts.sum ≤ counts.length) : ∀ count ∈ counts, count = 1 := by
  induction counts with
  | nil => exact List.forall_mem_nil _
  | cons count rest ih =>
    obtain ⟨here, behind⟩ := List.forall_mem_cons.mp positive
    have more := length_le_sum behind
    rw [List.length_cons, List.sum_cons] at small
    exact List.forall_mem_cons.mpr ⟨by omega, ih behind (by omega)⟩

theorem sum_eq_length {counts : List Int} (ones : ∀ count ∈ counts, count = 1) :
    counts.sum = counts.length := by
  rw [List.eq_replicate_of_mem ones]
  simp

/-- What is on the right of related lists has something on the left to be related to. -/
theorem exists_of_forall₂ {related : α → β → Prop} {items : List α} {others : List β} {other : β}
    (alike : List.Forall₂ related items others) (member : other ∈ others) :
    ∃ item ∈ items, related item other := by
  induction alike with
  | nil => cases member
  | cons here rest ih =>
    rcases List.mem_cons.mp member with rfl | later
    · exact ⟨_, List.mem_cons_self, here⟩
    · obtain ⟨item, among, known⟩ := ih later
      exact ⟨item, List.mem_cons_of_mem _ among, known⟩

namespace Node

/-- The values that are missing are those that were needed and not pushed, and taking goes on only
while some are missing. -/
theorem counts_of_takePushed {pushes : α → Except Fault Int} {items operands left : List α}
    {needed missing : Int} (taken : takePushed pushes needed items = .ok (operands, left, missing)) :
    ∃ counts, List.Forall₂ (fun item count => pushes item = .ok count) operands counts ∧
      counts.sum + missing = needed ∧
      ∀ later earliest, counts = later ++ [earliest] → later.sum < needed := by
  induction items generalizing needed operands left missing with
  | nil =>
    simp only [takePushed, pure_eq_ok, Prod.mk.injEq] at taken
    obtain ⟨rfl, _, rfl⟩ := taken
    exact ⟨[], .nil, Int.zero_add _, by simp⟩
  | cons item rest ih =>
    simp only [takePushed] at taken
    split at taken
    · simp only [pure_eq_ok, Prod.mk.injEq] at taken
      obtain ⟨rfl, _, rfl⟩ := taken
      exact ⟨[], .nil, Int.zero_add _, by simp⟩
    · rename_i short
      simp only [bind_eq_ok, pure_eq_ok, Prod.mk.injEq] at taken
      obtain ⟨pushed, known, ⟨behind, others, missing⟩, later, rfl, _, rfl⟩ := taken
      obtain ⟨counts, pushed, total, before⟩ := ih later
      refine ⟨_ :: counts, .cons known pushed, ?_, ?_⟩
      · rw [List.sum_cons]
        dsimp only
        omega
      · intro front earliest same
        cases front with
        | nil =>
          rw [List.sum_nil]
          omega
        | cons first front =>
          obtain ⟨rfl, rest⟩ := List.cons.inj same
          have less := before front earliest rest
          rw [List.sum_cons]
          omega

/-- What the operands of a node push, latest first, and what the node pops: each pushes something,
together they push enough, and all but the earliest too little. -/
structure Fed (node : Node) (counts : List Int) (needed : Int) : Prop where
  pushes : List.Forall₂ (fun operand count => operand.instruction.pushes = .ok count)
    node.operands counts
  pops : node.instruction.pops = .ok needed
  leaves : ∀ count ∈ counts, count ≠ 0
  enough : needed ≤ counts.sum
  short : ∀ later earliest, counts = later ++ [earliest] → later.sum < needed

/-- A node that leaves something on the stack. -/
def Leaves (node : Node) : Prop := ∃ pushed, node.instruction.pushes = .ok pushed ∧ pushed ≠ 0

end Node

namespace Forest

open Node (preorderAll preorder_eq mem_preorderAll)

variable {instruction : Instruction} {pending operands left nested : List Node} {needed index : Int}

/-- A finished node is fed by the producers that were consumed for it. -/
theorem fed_of_consume (pops : instruction.pops = .ok needed)
    (consumed : consume instruction index needed pending = .ok (operands, left))
    (waiting : ∀ node ∈ pending, node.Leaves) (nested : List Node) (position : Int) :
    ∃ counts needed, Node.Fed ⟨instruction, operands ++ nested, position⟩ counts needed := by
  obtain ⟨missing, enough, taken⟩ := consume_eq_ok.mp consumed
  obtain ⟨counts, pushes, total, short⟩ := Node.counts_of_takePushed taken
  obtain ⟨same, _⟩ := operands_of_consume pops consumed nested position
  have leaves : ∀ count ∈ counts, count ≠ 0 := by
    intro count member
    obtain ⟨operand, among, known⟩ := exists_of_forall₂ pushes member
    have pending : operand ∈ pending := by
      rw [← consume_append consumed]
      exact List.mem_append_left _ among
    obtain ⟨pushed, also, something⟩ := waiting operand pending
    exact Except.ok.inj (also.symm.trans known) ▸ something
  refine ⟨counts, needed, ?_, pops, leaves, by omega, short⟩
  rw [same]
  exact pushes

/-- Every node of a forest is fed, at every depth. -/
theorem Replay.fed (trace : Replay rule pending index code statements)
    (waiting : ∀ node ∈ pending, node.Leaves)
    (ready : ∀ node ∈ preorderAll pending, ∃ counts needed, node.Fed counts needed) :
    ∀ node ∈ preorderAll statements, ∃ counts needed, node.Fed counts needed := by
  induction trace with
  | done => exact ready
  | @producer instruction pushed needed index pending operands left statements code pushes leaves
      pops consumed rest ih =>
    have whole := consume_append consumed
    have own := fed_of_consume pops consumed waiting [] index
    rw [List.append_nil] at own
    rw [← whole] at waiting ready
    rw [Node.preorderAll_append] at ready
    obtain ⟨below, kept⟩ := List.forall_mem_append.mp ready
    apply ih
    · exact List.forall_mem_cons.mpr
        ⟨⟨pushed, pushes, leaves⟩, (List.forall_mem_append.mp waiting).2⟩
    · rw [← List.singleton_append, Node.preorderAll_append, Node.preorderAll_singleton, preorder_eq]
      exact List.forall_mem_append.mpr ⟨List.forall_mem_cons.mpr ⟨own, below⟩, kept⟩
  | @statement instruction needed index pending operands left nested statements inner outer pushes
      pops consumed owned allowed body rest ihBody ihRest =>
    have whole := consume_append consumed
    have own := fed_of_consume pops consumed waiting nested index
    rw [← whole] at waiting ready
    rw [Node.preorderAll_append] at ready
    obtain ⟨below, kept⟩ := List.forall_mem_append.mp ready
    have inside := ihBody (List.forall_mem_nil _) (by simp [Node.preorderAll])
    have behind := ihRest (List.forall_mem_append.mp waiting).2 kept
    rw [← List.singleton_append, Node.preorderAll_append, Node.preorderAll_singleton, preorder_eq,
      Node.preorderAll_append]
    exact List.forall_mem_append.mpr
      ⟨List.forall_mem_cons.mpr ⟨own, List.forall_mem_append.mpr ⟨below, inside⟩⟩, behind⟩

theorem fed_of_build {forest : List Node} (built : (build watch base code).outcome = .ok forest) :
    ∀ node ∈ preorderAll forest, ∃ counts needed, node.Fed counts needed :=
  (build_sound built).fed (List.forall_mem_nil _) (by simp [Node.preorderAll])

/-- Every node of a forest stands for an instruction of the code. -/
theorem mem_code_of_build {forest : List Node} {node : Node}
    (built : (build watch base code).outcome = .ok forest) (member : node ∈ preorderAll forest) :
    node.instruction ∈ code := by
  cases build_owns built node member with
  | intro => simp

end Forest

end LuaLift
