import LuaLift.Listing
import LuaLift.Proofs.Forest.Agree
import LuaLift.Proofs.Forest.Concatenation
import LuaLift.Proofs.Forest.Program
import LuaLift.Proofs.Source.Strict

/-! What a node owns. A jump owns the instructions it may skip, and they alone make up its body; its
operands, and all children of any other node, come from before it. Building, splitting a node and
the listing agree on where that stretch ends. -/
namespace LuaLift

open scoped List

theorem mem_positions_numbered {position : Int} :
    position ∈ (numbered base code).map Prod.fst ↔
      base ≤ position ∧ position < base + code.length := by
  induction code generalizing base with
  | nil => simp
  | cons instruction rest ih =>
    rw [numbered_cons, List.map_cons, List.mem_cons, ih, List.length_cons]
    omega

namespace Node

/-- The positions of all nodes in some trees. -/
def positions (nodes : List Node) : List Int := (preorderAll nodes).map index

private theorem preorderAll_eq (nodes : List Node) : preorderAll nodes = nodes.flatMap preorder :=
  Nested.eq_flatMap (by rw [preorderAll]) (fun node rest => by rw [preorderAll]) nodes

theorem preorder_eq (node : Node) : node.preorder = node :: preorderAll node.children := by
  cases node
  rw [preorder]

@[simp] theorem preorderAll_append (before after : List Node) :
    preorderAll (before ++ after) = preorderAll before ++ preorderAll after := by
  simp only [preorderAll_eq, List.flatMap_append]

theorem mem_preorderAll {nodes : List Node} {inner : Node} :
    inner ∈ preorderAll nodes ↔ ∃ node ∈ nodes, inner ∈ node.preorder := by
  rw [preorderAll_eq, List.mem_flatMap]

@[simp] theorem preorderAll_singleton (node : Node) : preorderAll [node] = node.preorder := by
  simp [preorderAll_eq]

theorem mem_preorder_self (node : Node) : node ∈ node.preorder := by
  rw [preorder_eq]
  exact List.mem_cons_self

/-- What is below a node of a tree is in the tree. -/
theorem mem_preorder_of_children {node inner child : Node} (member : inner ∈ node.preorder)
    (below : child ∈ inner.children) : child ∈ node.preorder := by
  induction node using Node.induct with
  | step node ih =>
    rw [preorder_eq, List.mem_cons] at member ⊢
    right
    rcases member with same | deeper
    · subst inner
      exact mem_preorderAll.mpr ⟨child, below, child.mem_preorder_self⟩
    · obtain ⟨part, among, inside⟩ := mem_preorderAll.mp deeper
      exact mem_preorderAll.mpr ⟨part, among, ih part among inside⟩

private theorem mem_preorderAll_reverse {nodes : List Node} {inner : Node} :
    inner ∈ preorderAll nodes.reverse ↔ inner ∈ preorderAll nodes := by
  simp [mem_preorderAll]

/-- A node with its position, as programs list it. -/
def entry (node : Node) : Int × Instruction := (node.index, node.instruction)

private theorem perm_of_forall {nodes : List Node}
    (each : ∀ node ∈ nodes, node.program ~ node.preorder.map entry) :
    programOf nodes ~ (preorderAll nodes).map entry := by
  rw [preorderAll_eq, List.map_flatMap]
  exact List.Perm.flatMap_left nodes each

/-- The program of a tree holds its nodes, in an order of its own. -/
theorem program_perm (node : Node) : node.program ~ node.preorder.map entry := by
  induction node using Node.induct with
  | step node ih =>
    have operands : programOf node.operands ~ (preorderAll node.operands).map entry := by
      apply perm_of_forall
      intro operand member
      apply ih operand
      rw [← node.operands_append_body]
      exact List.mem_append_left _ member
    have body : programOf node.body ~ (preorderAll node.body).map entry := by
      apply perm_of_forall
      intro statement member
      apply ih statement
      rw [← node.operands_append_body]
      exact List.mem_append_right _ member
    calc node.program
      _ = programOf node.operands.reverse ++ node.entry :: programOf node.body := program_eq node
      _ ~ programOf node.operands ++ node.entry :: programOf node.body :=
          ((List.reverse_perm node.operands).flatMap_right program).append_right _
      _ ~ node.entry :: (programOf node.operands ++ programOf node.body) := List.perm_middle
      _ ~ node.entry ::
            ((preorderAll node.operands).map entry ++ (preorderAll node.body).map entry) :=
          (operands.append body).cons _
      _ = node.preorder.map entry := by
          rw [preorder_eq, List.map_cons, ← List.map_append, ← preorderAll_append,
            operands_append_body]

private theorem programOf_perm (nodes : List Node) :
    programOf nodes ~ (preorderAll nodes).map entry :=
  perm_of_forall fun node _ => node.program_perm

private theorem mem_positions {nodes : List Node} {position : Int} :
    position ∈ positions nodes ↔ position ∈ (programOf nodes).map Prod.fst := by
  rw [((programOf_perm nodes).map Prod.fst).mem_iff, List.map_map]
  rfl

end Node

/-- A jump forward is listed with the place where it goes. -/
theorem Listing.comment_of_skipsAhead {instruction : Instruction} {distance : Int}
    (prototype : Prototype) (index : Int) (ahead : instruction.skipsAhead = .ok true)
    (reads : instruction.s = .ok distance) :
    comment prototype index instruction = .ok ("to " ++ Text.decimal (index + 1 + distance)) := by
  obtain ⟨jump, _⟩ := Instruction.skipsAhead_eq_true.mp ahead
  obtain ⟨opcode, known, jumps⟩ := Instruction.isJump_eq_ok.mp jump
  rw [comment, known, reads]
  cases opcode <;> first | rfl | exact absurd jumps (by decide)

namespace Forest

open Node (preorderAll programOf)

/-- How a node stands in the code that its forest was built from: the code before it, the code that
it owns, from which its body is built, and the code after that. Its operands come from before it. -/
inductive Owns (watch : Watch) (base : Int) : List Instruction → Node → Prop where
  | intro {before own after : List Instruction} {node : Node}
      (position : node.index = base + before.length)
      (owned : skipped node.instruction node.index (own ++ after).length = .ok own.length)
      (separated : node.separate = .ok (node.operands, node.body))
      (body : (build watch (node.index + 1) own).outcome = .ok node.body)
      (below : ∀ item ∈ programOf node.operands, item.1 < node.index) :
      Owns watch base (before ++ node.instruction :: (own ++ after)) node

variable {watch : Watch} {base index : Int} {node : Node} {pending statements : List Node}

/-- A node owns the same code when more stands around it. -/
theorem Owns.within {code : List Instruction} {front : List Instruction}
    (owns : Owns watch (base + front.length) code node) (back : List Instruction) :
    Owns watch base (front ++ (code ++ back)) node := by
  cases owns with
  | @intro before own after _ position owned separated body below =>
    have around : front ++ ((before ++ node.instruction :: (own ++ after)) ++ back) =
        (front ++ before) ++ node.instruction :: (own ++ (after ++ back)) := by simp
    rw [around]
    refine .intro ?_ ?_ separated body below
    · rw [position, List.length_append]
      omega
    · rw [← List.append_assoc, List.length_append]
      exact skipped_more owned back.length

/-- The node that a step finishes owns the code after it, up to where the step goes on. -/
theorem owns_of_consume {passed code : List Instruction} {instruction : Instruction}
    {operands left nested : List Node} (here : index = base + passed.length)
    (pops : instruction.pops = .ok needed)
    (consumed : consume instruction index needed pending = .ok (operands, left))
    (owned : skipped instruction index code.length = .ok skip)
    (body : (build watch (index + 1) (code.take skip)).outcome = .ok nested)
    (older : ∀ item ∈ programOf pending, item.1 < index) :
    Owns watch base (passed ++ instruction :: code) ⟨instruction, operands ++ nested, index⟩ := by
  obtain ⟨sameOperands, sameBody⟩ := operands_of_consume pops consumed nested index
  have size : (code.take skip).length = skip := List.length_take_of_le (skipped_le owned)
  rw [← List.take_append_drop skip code] at owned ⊢
  refine @Owns.intro watch base passed (code.take skip) (code.drop skip)
    ⟨instruction, operands ++ nested, index⟩ here ?_ ?_ ?_ ?_
  · rw [size]
    exact owned
  · rw [sameOperands, sameBody]
    exact separate_of_consume pops consumed nested index
  · rw [sameBody]
    exact body
  · rw [sameOperands]
    intro item member
    apply older item
    rw [← consume_append consumed, Node.programOf_append]
    exact List.mem_append_left _ member

/-- Replaying the rest of some code leaves every node, at every depth, where it owns what it should,
if those made from the code before do. -/
theorem replay_owns {passed code : List Instruction} {forest : List Node}
    (built : (replay watch pending statements index code).outcome = .ok forest)
    (here : index = base + passed.length)
    (older : ∀ item ∈ programOf pending, item.1 < index)
    (waiting : ∀ node ∈ preorderAll pending, Owns watch base (passed ++ code) node)
    (done : ∀ node ∈ preorderAll statements, Owns watch base (passed ++ code) node) :
    ∀ node ∈ preorderAll forest, Owns watch base (passed ++ code) node := by
  induction pending, statements, index, code using replay.induct
    generalizing forest base passed with
  | case1 pending statements index =>
    rw [replay] at built
    obtain ⟨_, rfl⟩ := close_eq_ok built
    intro node member
    exact done node (Node.mem_preorderAll_reverse.mp member)
  | case2 pending statements index instruction code ihBody ihStatement ihProducer =>
    rw [replay] at built
    simp only [Traced.bind_ok, Traced.outcome_ofExcept] at built
    obtain ⟨pushed, pushes, needed, pops, _, _, _, _, ⟨operands, left⟩, consumed, skip, owned,
      nested, body, rest⟩ := built
    have fits := skipped_le owned
    have own := owns_of_consume here pops consumed owned body older
    have leftOlder := left_below_of_consume consumed older
    rw [← consume_append consumed, Node.preorderAll_append] at waiting
    obtain ⟨taken, kept⟩ := List.forall_mem_append.mp waiting
    have inside : ∀ node ∈ preorderAll nested,
        Owns watch base (passed ++ instruction :: code) node := by
      have alone : ∀ node ∈ preorderAll nested,
          Owns watch (index + 1) ([] ++ code.take skip) node :=
        ihBody skip body (by simp) (by simp) (by simp [preorderAll]) (by simp [preorderAll])
      have start : index + 1 = base + (passed ++ [instruction]).length := by
        rw [here, List.length_append, List.length_singleton]
        omega
      rw [start] at alone
      intro node member
      simpa using (alone node member).within (code.drop skip)
    have finished : ∀ node ∈ preorderAll [⟨instruction, operands ++ nested, index⟩],
        Owns watch base (passed ++ instruction :: code) node := by
      rw [Node.preorderAll_singleton, Node.preorder_eq, Node.preorderAll_append]
      exact List.forall_mem_cons.mpr ⟨own, List.forall_mem_append.mpr ⟨taken, inside⟩⟩
    have behind : index + 1 + skip = base + (passed ++ instruction :: code.take skip).length := by
      rw [here, List.length_append, List.length_cons, List.length_take_of_le fits]
      omega
    have whole : passed ++ instruction :: code =
        (passed ++ instruction :: code.take skip) ++ code.drop skip := by simp
    rw [whole] at done kept finished ⊢
    split at rest
    · refine ihStatement operands left skip nested rest behind ?_ kept ?_
      · intro item member
        have before := leftOlder item member
        omega
      · rw [← List.singleton_append, Node.preorderAll_append]
        exact List.forall_mem_append.mpr ⟨finished, done⟩
    · rename_i leaves
      obtain ⟨rfl, rfl⟩ := bodiless_of_pushes pushes leaves owned body
      refine ihProducer operands left 0 [] rest behind ?_ ?_ done
      · have before := below_of_consume pops consumed older
        simpa using before
      · rw [← List.singleton_append, Node.preorderAll_append]
        exact List.forall_mem_append.mpr ⟨finished, kept⟩

theorem build_owns {code : List Instruction} {forest : List Node}
    (built : (build watch base code).outcome = .ok forest) :
    ∀ node ∈ preorderAll forest, Owns watch base code node := by
  have none : ∀ node ∈ preorderAll [], Owns watch base ([] ++ code) node := by simp [preorderAll]
  exact replay_owns built (by simp) (by simp) none none

/-- What the parts of the program that look for the end of a jump's stretch come to at a node:
building, splitting and listing. -/
structure Splits (watch : Watch) (base : Int) (code : List Instruction) (node : Node) (offset : Nat)
    (operands body : List Node) : Prop where
  position : node.index = base + offset
  present : code[offset]? = some node.instruction
  together : operands ++ body = node.children
  separated : ∀ (scope : Scope) (opcode : Opcode),
    (Site.separate ⟨node.instruction, opcode, scope.parts node.children, node.index⟩).outcome =
      .ok (scope.parts operands, scope.parts body)
  earlier : ∀ position ∈ Node.positions operands, position < node.index
  decided : ∃ ahead, node.instruction.skipsAhead = .ok ahead
  other : node.instruction.skipsAhead = .ok false → body = []
  jump : node.instruction.skipsAhead = .ok true → ∃ distance : Nat,
    node.instruction.s = .ok distance ∧ 0 < distance ∧
      (build watch (node.index + 1) ((code.drop (offset + 1)).take distance)).outcome = .ok body ∧
      (∀ position, position ∈ Node.positions body ↔
        node.index < position ∧ position < node.index + 1 + distance) ∧
      ∀ prototype, Listing.comment prototype node.index node.instruction =
        .ok ("to " ++ Text.decimal (node.index + 1 + distance))

/-- A body holds the positions of the code that it was built from. -/
theorem mem_positions_of_build {code : List Instruction} {forest : List Node}
    (built : (build watch base code).outcome = .ok forest) (position : Int) :
    position ∈ Node.positions forest ↔ base ≤ position ∧ position < base + code.length := by
  have held : programOf forest ~ numbered base code := by simpa using (build_sound built).perm
  rw [Node.mem_positions, (held.map Prod.fst).mem_iff, mem_positions_numbered]

theorem Owns.splits {code : List Instruction} (owns : Owns watch base code node) :
    ∃ offset, Splits watch base code node offset node.operands node.body := by
  cases owns with
  | @intro before own after _ position owned separated body below =>
    refine ⟨before.length, position, by simp, node.operands_append_body, ?_, ?_, ?_, ?_, ?_⟩
    · intro scope opcode
      rw [Scope.parts_eq_map, Scope.parts_eq_map, Scope.parts_eq_map]
      exact Scope.separate_site scope separated opcode
    · intro place member
      obtain ⟨item, among, rfl⟩ := List.mem_map.mp (Node.mem_positions.mp member)
      exact below item among
    · rcases skipped_eq_ok.mp owned with ⟨stays, _⟩ | ⟨ahead, _⟩
      · exact ⟨false, stays⟩
      · exact ⟨true, ahead⟩
    · intro stays
      rcases skipped_eq_ok.mp owned with ⟨_, none⟩ | ⟨ahead, _⟩
      · obtain rfl := List.length_eq_zero_iff.mp none
        exact (build_sound body).eq_nil
      · cases stays.symm.trans ahead
    · intro ahead
      have reads : node.instruction.s = .ok (own.length : Int) := by
        rcases skipped_eq_ok.mp owned with ⟨stays, _⟩ | ⟨_, reads, _⟩
        · cases stays.symm.trans ahead
        · exact reads
      obtain ⟨_, distance, also, positive⟩ := Instruction.skipsAhead_eq_true.mp ahead
      obtain rfl := Except.ok.inj (also.symm.trans reads)
      have stretch : ((before ++ node.instruction :: (own ++ after)).drop (before.length + 1)).take
          own.length = own := by simp
      refine ⟨own.length, reads, by omega, ?_, ?_, fun prototype => ?_⟩
      · rw [stretch]
        exact body
      · intro place
        rw [mem_positions_of_build body]
        omega
      · exact Listing.comment_of_skipsAhead prototype node.index ahead reads

/-- Wherever a forest can be built, each of its nodes owns one stretch of the code, and building,
splitting and listing agree on it. -/
theorem build_splits {code : List Instruction} {forest : List Node}
    (built : (build watch base code).outcome = .ok forest) :
    ∀ node ∈ preorderAll forest,
      ∃ offset operands body, Splits watch base code node offset operands body := by
  intro node member
  obtain ⟨offset, splits⟩ := (build_owns built node member).splits
  exact ⟨offset, node.operands, node.body, splits⟩

/-- A condition inside a condition, counted from seven. -/
theorem build_splits_of_conditions :
    let outer : Instruction := ⟨2147483878, {}⟩
    let inner : Instruction := ⟨2147483750, {}⟩
    let code : List Instruction :=
      [⟨12, {}⟩, outer, ⟨76, {}⟩, inner, ⟨2147483654, {}⟩, ⟨19, {}⟩, ⟨0, {}⟩]
    let node : Node :=
      ⟨inner, [⟨⟨76, {}⟩, [], 9⟩, ⟨⟨19, {}⟩, [⟨⟨2147483654, {}⟩, [], 11⟩], 12⟩], 10⟩
    let forest : List Node := [⟨outer, [⟨⟨12, {}⟩, [], 7⟩, node], 8⟩, ⟨⟨0, {}⟩, [], 13⟩]
    (build {} 7 code).outcome = .ok forest ∧ node ∈ preorderAll forest ∧
      ∃ offset operands body, Splits {} 7 code node offset operands body := by
  intro outer inner code node forest
  have built : (build {} 7 code).outcome = .ok forest := by cbv
  have member : node ∈ preorderAll forest := by
    refine Node.mem_preorderAll.mpr ⟨_, List.mem_cons_self, ?_⟩
    rw [Node.preorder_eq]
    refine List.mem_cons_of_mem _ (Node.mem_preorderAll.mpr ⟨node, by simp, ?_⟩)
    rw [Node.preorder_eq]
    exact List.mem_cons_self
  exact ⟨built, member, build_splits built node member⟩

end Forest

end LuaLift
