import LuaLift.Proofs.Source.Grouping

/-! Operator expressions read back. A tree of operators over names and numerals is written in such a
way that the text, read by the priorities of the language, is that tree again. -/
namespace LuaLift

/-- Neither a call, nor an item of a table, nor a literal below zero. -/
def Node.IsPlain (node : Node) : Prop :=
  (∀ opcode, node.instruction.opcode = .ok opcode → opcode.isSuffix = false) ∧ ¬ node.IsNegative

instance (node : Node) : Decidable node.IsPlain :=
  inferInstanceAs (Decidable ((∀ opcode, node.instruction.opcode = .ok opcode →
    opcode.isSuffix = false) ∧ ¬ node.IsNegative))

namespace Node

variable {node inner : Node}

private theorem IsPlain.grouped (plain : node.IsPlain) : node.Grouped := by
  intro opcode known suffix
  rw [plain.1 opcode known] at suffix
  cases suffix

/-- Where no literal has a sign, none with a sign is raised. -/
theorem raised_of_plain (plain : ∀ inner ∈ node.preorder, inner.IsPlain)
    (member : inner ∈ node.preorder) : inner.Raised := by
  intro _ base last
  have below : base ∈ inner.children := List.mem_of_getLast? last
  exact (plain base (mem_preorder_of_children member below)).2

end Node

namespace Scope

variable {scope : Scope} {node : Node} {term : Term}

/-- A tree of operators over names and numerals has a text, and that text is read as the same tree
again by the priorities of the language. -/
theorem read?_of_nodeText (denotes : scope.Denotes node term)
    (plain : ∀ inner ∈ node.preorder, inner.IsPlain) :
    ∃ text, (scope.nodeText node).outcome = .ok text ∧
      Term.read? UnaryOperator.minus.priority text = some term := by
  obtain ⟨text, shows⟩ := denotes.shows (Nat.le_refl _) fun inner member =>
    ⟨(plain inner member).grouped, .inr (Node.raised_of_plain plain member)⟩
  exact ⟨text, shows.rendered, shows.written.read?⟩

theorem read?_of_concatenation :
    let scope : Scope := ⟨{}, ["x"], ["a", "b"], [], [], []⟩
    let sum : Node := ⟨⟨2147483672, {}⟩, [⟨⟨11, {}⟩, [], 1⟩], 2⟩
    let power : Node := ⟨⟨28, {}⟩, [sum, ⟨⟨12, {}⟩, [], 0⟩], 3⟩
    let negative : Node := ⟨⟨30, {}⟩, [power], 4⟩
    let negation : Node := ⟨⟨31, {}⟩, [⟨⟨76, {}⟩, [], 5⟩], 6⟩
    let difference : Node := ⟨⟨2147483480, {}⟩, [⟨⟨2147484038, {}⟩, [], 7⟩], 8⟩
    let node : Node := ⟨⟨221, {}⟩, [difference, negation, negative], 9⟩
    let tree : Term := .binary .concat
      (.unary .minus (.binary .power (.name "a") (.binary .add (.name "x") (.number 1))))
      (.binary .concat (.unary .not (.name "b")) (.binary .subtract (.number 7) (.number 2)))
    scope.Denotes node tree ∧ (∀ inner ∈ node.preorder, inner.IsPlain) ∧
      (scope.nodeText node).outcome = .ok "(-(a ^ (x + 1))) .. (not b) .. (7 - 2)" ∧
      Term.read? 7 "(-(a ^ (x + 1))) .. (not b) .. (7 - 2)" = some tree := by
  intro scope sum power negative negation difference node tree
  have zeroth (raw : Int) (small : raw / 64 = 0) : (⟨raw, {}⟩ : Instruction).u = .ok 0 :=
    congrArg Except.ok small
  have a : scope.Denotes ⟨⟨12, {}⟩, [], 0⟩ (.name "a") :=
    .global (by cbv) (zeroth 12 rfl) rfl (by decide) (by decide)
  have x : scope.Denotes ⟨⟨11, {}⟩, [], 1⟩ (.name "x") :=
    .slot (by cbv) (zeroth 11 rfl) rfl (by decide) (by decide)
  have place : (⟨76, {}⟩ : Instruction).u = .ok 1 := by cbv
  have b : scope.Denotes ⟨⟨76, {}⟩, [], 5⟩ (.name "b") :=
    .global (by cbv) place rfl (by decide) (by decide)
  have seven : (⟨2147484038, {}⟩ : Instruction).s = .ok 7 := by cbv
  have numeral : scope.Denotes ⟨⟨2147484038, {}⟩, [], 7⟩ (.number 7) :=
    .numeral (by cbv) seven (by decide)
  have one : (⟨2147483672, {}⟩ : Instruction).s = .ok 1 := by cbv
  have added : scope.Denotes sum (.binary .add (.name "x") (.number 1)) :=
    .sum (by cbv) one (by decide) x
  have less : (⟨2147483480, {}⟩ : Instruction).s = .ok (-2) := by cbv
  have powered : (⟨28, {}⟩ : Instruction).opcode = .ok .power := by cbv
  have raised : scope.Denotes power (.binary .power (.name "a")
      (.binary .add (.name "x") (.number 1))) := .binary powered rfl a added
  have first : scope.Denotes negative (.unary .minus (.binary .power (.name "a")
      (.binary .add (.name "x") (.number 1)))) := .minus (by cbv) raised
  have second : scope.Denotes negation (.unary .not (.name "b")) := .not (by cbv) b
  have third : scope.Denotes difference (.binary .subtract (.number 7) (.number 2)) :=
    .difference (by cbv) less (by decide) numeral
  have three : (⟨221, {}⟩ : Instruction).u = .ok 3 := by cbv
  have operands : List.Forall₂ scope.Denotes [difference, negation, negative].reverse
      [_, _, _] := .cons first (.cons second (.cons third .nil))
  have denotes : scope.Denotes node tree := .concat (by cbv) three operands
  have plain : ∀ inner ∈ node.preorder, inner.IsPlain := by decide
  have rendered : (scope.nodeText node).outcome =
      .ok "(-(a ^ (x + 1))) .. (not b) .. (7 - 2)" := by cbv
  obtain ⟨text, written, read⟩ := read?_of_nodeText denotes plain
  obtain rfl := Except.ok.inj (written.symm.trans rendered)
  exact ⟨denotes, plain, rendered, read⟩

end Scope

end LuaLift
