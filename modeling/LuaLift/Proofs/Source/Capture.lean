import LuaLift.Proofs.Agree
import LuaLift.Proofs.Forest.Supply
import LuaLift.Proofs.Source.Strict

/-! What a function shows of the values that its closure captured. It shows the text of the operand
with the slot's number, which is the operand that pushed the value in the slot just where all
operands before it push one value each. -/
namespace LuaLift

/-- The operand that pushed a value; values and operands are counted in the order of pushing. -/
def pusher? : List Int → Nat → Option Nat
  | [], _ => none
  | count :: rest, value =>
    if value < count then some 0 else (pusher? rest (value - count.toNat)).map (· + 1)

/-- Among operands that push something, the one that pushed a value comes no later than the value,
and it is the one of that number if and only if each operand before pushes one value. -/
theorem pusher?_of_lt {counts : List Int} (positive : ∀ count ∈ counts, 0 < count) {value : Nat}
    (inside : value < counts.sum) :
    ∃ place, pusher? counts value = some place ∧ place ≤ value ∧ place < counts.length ∧
      (place = value ↔ ∀ count ∈ counts.take value, count = 1) := by
  induction counts generalizing value with
  | nil =>
    rw [List.sum_nil] at inside
    omega
  | cons count rest ih =>
    obtain ⟨own, others⟩ := List.forall_mem_cons.mp positive
    rw [List.sum_cons] at inside
    by_cases here : value < count
    · refine ⟨0, if_pos here, Nat.zero_le _, Nat.succ_pos _, ?_⟩
      cases value with
      | zero => exact iff_of_true rfl (List.forall_mem_nil _)
      | succ value =>
        refine iff_of_false (Nat.succ_ne_zero value).symm fun ones => ?_
        have one := ones count List.mem_cons_self
        omega
    · obtain ⟨value, rfl⟩ := Nat.exists_eq_add_of_le' (show 1 ≤ value by omega)
      obtain ⟨place, found, low, high, alone⟩ := ih others
        (show ((value + 1 - count.toNat : Nat) : Int) < rest.sum by omega)
      refine ⟨place + 1, ?_, by omega, Nat.succ_lt_succ high, ?_⟩
      · rw [pusher?, if_neg here, found]
        rfl
      · rw [List.take_succ_cons, List.forall_mem_cons]
        by_cases one : count = 1
        · subst one
          rw [and_iff_right rfl, ← show value + 1 - Int.toNat 1 = value by omega, ← alone]
          omega
        · exact iff_of_false (by omega) fun both => one both.1

namespace Scope

variable {scope : Scope} {node : Node} {operands body : List Node}

/-- A captured value is shown as the text of the operand with the slot's number, or else by the slot
itself. -/
theorem nodeText_upvalue (scope : Scope) (known : node.instruction.opcode = .ok .pushUpvalue)
    {slot : Nat} (reads : node.instruction.u = .ok slot) :
    (scope.nodeText node).outcome = .ok ("%" ++ (scope.upvalues[slot]?).getD
      (scope.options.upvaluePrefix ++ Text.decimal slot)) := by
  rw [nodeText_eq, Traced.outcome_bind_of_ok _ known]
  refine (Traced.outcome_bind_of_ok _ reads).trans ?_
  rw [upvalueName, findItem_of_nonneg _ (Int.natCast_nonneg slot), itemAt?_natCast]
  rfl

/-- A closure is written by its function, for the texts of its operands. -/
theorem nodeText_closure (known : node.instruction.opcode = .ok .closure)
    (separated : node.separate = .ok (operands, body))
    (written : (scope.nodeText node).outcome = .ok text) :
    ∃ number function captured, node.instruction.a = .ok number ∧
      itemAt? scope.functions number = some function ∧
      List.Forall₂ (fun operand value => (scope.nodeText operand).outcome = .ok value)
        operands.reverse captured ∧
      (function captured).outcome = .ok text := by
  rw [nodeText_eq, Traced.outcome_bind_of_ok _ known] at written
  simp only [siteText, site, closure, Site.texts, Traced.bind_ok, Traced.outcome_ofExcept]
    at written
  obtain ⟨number, reads, function, found, values, ⟨parts, taken, texts⟩, called⟩ := written
  have split := Traced.outcome_bind_of_ok (fun both => pure both.1)
    (separate_site scope separated .closure)
  obtain rfl := Except.ok.inj (taken.symm.trans split)
  have each := List.forall₂_map_left_iff.mp (Traced.mapM_ok.mp texts)
  exact ⟨number, function, values.reverse, reads, constant_ok.mp found,
    List.forall₂_reverse_iff.mpr each, called⟩

end Scope

namespace Prototype

variable {options : Options} {detailed : Bool} {outer : Prototype} {upvalues : List Text}
  {node : Node} {operands body : List Node} {counts : List Int}

/-- A closure that is written is the text of the function that it names, and in that function a
captured value is shown as the text of the operand with the slot's number. That is the operand that
pushed the value in the slot just where each operand before it pushes one value; and a slot without
a captured value is shown by its number. -/
theorem captured_of_closure (known : node.instruction.opcode = .ok .closure)
    (separated : node.separate = .ok (operands, body))
    (pushes : List.Forall₂ (fun operand count => operand.instruction.pushes = .ok count)
      operands counts)
    (positive : ∀ count ∈ counts, 0 < count)
    (written : ((outer.scope options detailed upvalues).nodeText node).outcome = .ok text) :
    ∃ number inner captured forest shown,
      node.instruction.a = .ok number ∧ itemAt? outer.functions number = some inner ∧
      List.Forall₂ (fun operand value =>
        ((outer.scope options detailed upvalues).nodeText operand).outcome = .ok value)
        operands.reverse captured ∧
      (Forest.build ⟨some inner.functions.length, detailed⟩ 0 inner.code).outcome = .ok forest ∧
      ((inner.scope options detailed captured).forestText forest).outcome = .ok shown ∧
      (options.functionText (inner.parameters options) shown).outcome = .ok text ∧
      ∀ (reader : Node) (slot : Nat), reader.instruction.opcode = .ok .pushUpvalue →
        reader.instruction.u = .ok slot →
        ((inner.scope options detailed captured).nodeText reader).outcome = .ok ("%" ++
          (captured[slot]?).getD (options.upvaluePrefix ++ Text.decimal slot)) ∧
        ∀ width, node.instruction.b = .ok width → counts.sum = width →
          (width ≤ slot → captured[slot]? = none) ∧
          (slot < width → ∃ place value, pusher? counts.reverse slot = some place ∧
            captured[place]? = some value ∧ place ≤ slot ∧
            (place = slot ↔ ∀ count ∈ counts.reverse.take slot, count = 1)) := by
  obtain ⟨number, function, captured, reads, found, texts, called⟩ :=
    Scope.nodeText_closure known separated written
  rw [scope, closureTexts_eq_map, itemAt?_map, Option.map_eq_some_iff] at found
  obtain ⟨inner, named, rfl⟩ := found
  obtain ⟨shown, inside, whole⟩ := Traced.bind_ok.mp called
  obtain ⟨forest, built, statements⟩ := bodyText_eq_ok.mp inside
  have length : captured.length = counts.length := by
    rw [← texts.length_eq, List.length_reverse, pushes.length_eq]
  refine ⟨number, inner, captured, forest, shown, reads, named, texts, built, statements, whole, ?_⟩
  intro reader slot upvalue slotted
  refine ⟨Scope.nodeText_upvalue _ upvalue slotted, fun width _ exact => ⟨fun beyond => ?_,
    fun within => ?_⟩⟩
  · have few := length_le_sum positive
    exact List.getElem?_eq_none (by omega)
  · have back : ∀ count ∈ counts.reverse, 0 < count := by simpa using positive
    obtain ⟨place, pushed, low, high, alone⟩ :=
      pusher?_of_lt back (show (slot : Int) < counts.reverse.sum by rw [List.sum_reverse]; omega)
    rw [List.length_reverse, ← length] at high
    exact ⟨place, captured[place], pushed, List.getElem?_eq_getElem high, low, alone⟩

/-- A name and two values of one operand behind it: the first two slots are shown as what they hold,
and the third one, whose value the second operand pushed, by its number. -/
theorem captured_of_trailing_pair :
    let inner : Prototype := { (default : Prototype) with
      code := [⟨10, {}⟩, ⟨74, {}⟩, ⟨138, {}⟩, ⟨193, {}⟩, ⟨0, {}⟩] }
    let outer : Prototype := { (default : Prototype) with
      strings := ["x"]
      functions := [inner] }
    let name : Node := ⟨⟨12, {}⟩, [], 0⟩
    let pair : Node := ⟨⟨132, {}⟩, [], 1⟩
    let closure : Node := ⟨⟨240, {}⟩, [pair, name], 2⟩
    let scope := outer.scope {} false []
    closure.separate = .ok ([pair, name], []) ∧
      List.Forall₂ (fun operand count => operand.instruction.pushes = .ok count) [pair, name]
        [2, 1] ∧
      (scope.nodeText closure).outcome =
        .ok "function()\n  return %x, %nil, nil, %upvalue_2\nend" ∧
      ∃ captured, captured[0]? = some (Text.ofString "x") ∧
        captured[1]? = some (Text.ofString "nil, nil") ∧
        pusher? [1, 2] 1 = some 1 ∧ pusher? [1, 2] 2 = some 1 ∧
        ((inner.scope {} false captured).nodeText ⟨⟨74, {}⟩, [], 0⟩).outcome = .ok "%nil, nil" ∧
        ((inner.scope {} false captured).nodeText ⟨⟨138, {}⟩, [], 0⟩).outcome =
          .ok "%upvalue_2" := by
  intro inner outer name pair closure scope
  have separated : closure.separate = .ok ([pair, name], []) := by cbv
  have pushes : List.Forall₂ (fun operand count => operand.instruction.pushes = .ok count)
      [pair, name] [2, 1] := .cons (by cbv) (.cons (by cbv) .nil)
  have written : (scope.nodeText closure).outcome =
      .ok "function()\n  return %x, %nil, nil, %upvalue_2\nend" := by cbv
  obtain ⟨number, function, captured, forest, shown, reads, named, texts, _, _, _, slots⟩ :=
    captured_of_closure (by cbv) separated pushes (by decide) written
  obtain rfl : 0 = number := Except.ok.inj ((by cbv : closure.instruction.a = .ok 0).symm.trans reads)
  obtain rfl : inner = function := Option.some.inj named
  obtain ⟨first, _, here, rest, rfl⟩ := List.forall₂_cons_left_iff.mp texts
  obtain ⟨second, _, there, last, rfl⟩ := List.forall₂_cons_left_iff.mp rest
  obtain rfl := List.forall₂_nil_left_iff.mp last
  have x : (scope.nodeText name).outcome = .ok "x" := by cbv
  have nils : (scope.nodeText pair).outcome = .ok "nil, nil" := by cbv
  obtain rfl := Except.ok.inj (here.symm.trans x)
  obtain rfl := Except.ok.inj (there.symm.trans nils)
  obtain ⟨shownSecond, _⟩ := slots ⟨⟨74, {}⟩, [], 0⟩ 1 (by cbv) (by cbv)
  obtain ⟨shownThird, _⟩ := slots ⟨⟨138, {}⟩, [], 0⟩ 2 (by cbv) (by cbv)
  exact ⟨separated, pushes, written, _, rfl, rfl, by decide, by decide, shownSecond, shownThird⟩

/-- Two values of one operand and a name behind them: the name stands for the slot before its own,
and the slot that holds it is shown by its number. -/
theorem not_captured_of_leading_pair :
    let inner : Prototype := { (default : Prototype) with
      code := [⟨138, {}⟩, ⟨65, {}⟩, ⟨0, {}⟩] }
    let outer : Prototype := { (default : Prototype) with
      strings := ["x", "h"]
      functions := [inner]
      code := [⟨132, {}⟩, ⟨12, {}⟩, ⟨240, {}⟩, ⟨83, {}⟩, ⟨0, {}⟩] }
    let pair : Node := ⟨⟨132, {}⟩, [], 0⟩
    let name : Node := ⟨⟨12, {}⟩, [], 1⟩
    let closure : Node := ⟨⟨240, {}⟩, [name, pair], 2⟩
    (Forest.build ⟨some 1, false⟩ 0 outer.code).outcome =
        .ok [⟨⟨83, {}⟩, [closure], 3⟩, ⟨⟨0, {}⟩, [], 4⟩] ∧
      closure.separate = .ok ([name, pair], []) ∧
      List.Forall₂ (fun operand count => operand.instruction.pushes = .ok count) [name, pair]
        [1, 2] ∧
      closure.instruction.b = .ok 3 ∧ pusher? [2, 1] 2 = some 1 ∧
      ((outer.scope {} false []).nodeText name).outcome = .ok "x" ∧
      (outer.bodyText {} false []).outcome = .ok "h = function()\n  return %upvalue_2\nend" := by
  intro inner outer pair name closure
  exact ⟨by cbv, by cbv, .cons (by cbv) (.cons (by cbv) .nil), by cbv, by decide, by cbv, by cbv⟩

end Prototype

end LuaLift
