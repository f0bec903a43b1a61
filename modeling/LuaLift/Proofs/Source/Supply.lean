import LuaLift.Proofs.Forest.Supply
import LuaLift.Proofs.Source.Strict

/-! What a strict text keeps of the values on the stack. A consumer whose text has room for so many
operands has just as many below it, but the earliest of them may stand for more values than one. -/
namespace LuaLift

/-- How many operands the text of a consumer has room for, where that is the same for all. -/
def Opcode.room? : Opcode → Option Nat
  | getDotted | getIndexed | pushSelf | setLocal | setGlobal | addInt | minus | not | jumpIfTrue
  | jumpIfFalse => some 1
  | getTable | add | subtract | multiply | divide | power | jumpNotEqual | jumpEqual | jumpLessThan
  | jumpLessThanEqual | jumpGreaterThan | jumpGreaterThanEqual => some 2
  | setTable => some 3
  | _ => none

namespace Site

variable {site : Site} {operand latest later earlier : Part}

/-- The site has a number of operands. -/
def Holds (site : Site) (count : Nat) : Prop :=
  ∃ operands body, site.separate.outcome = .ok (operands, body) ∧ operands.length = count

private theorem holds_of_one (single : site.one.outcome = .ok operand) : site.Holds 1 := by
  obtain ⟨body, separated⟩ := separate_of_one single
  exact ⟨_, body, separated, rfl⟩

private theorem holds_of_two (pair : site.two.outcome = .ok (later, earlier)) : site.Holds 2 := by
  obtain ⟨body, separated⟩ := separate_of_two pair
  exact ⟨_, body, separated, rfl⟩

private theorem holds_of_three (triple : site.three.outcome = .ok (latest, later, earlier)) :
    site.Holds 3 := by
  obtain ⟨body, separated⟩ := separate_of_three triple
  exact ⟨_, body, separated, rfl⟩

end Site

namespace Scope

variable {scope : Scope} {site : Site} {node : Node}

private theorem guarded_holds {write : Traced Text} {count : Nat}
    (written : (do
      if !(← (liftM site.instruction.skipsAhead : Traced Bool)) then site.refuse
      else write : Traced Text).outcome = .ok text)
    (holds : write.outcome = .ok text → site.Holds count) : site.Holds count :=
  holds (Site.ahead_of_guarded written).2

/-- What is written has as many operands as its text has room for. -/
theorem siteText_holds (written : (scope.siteText site).outcome = .ok text)
    (room : site.opcode.room? = some count) : site.Holds count := by
  obtain ⟨instruction, opcode, parts, index⟩ := site
  cases opcode
  case getDotted | getIndexed | pushSelf | setLocal | setGlobal | not =>
    obtain rfl := Option.some.inj room
    simp only [siteText, Traced.bind_ok] at written
    obtain ⟨operand, single, _⟩ := written
    exact Site.holds_of_one single
  case addInt | minus =>
    obtain rfl := Option.some.inj room
    simp only [siteText, sumWithLiteral, negation, Traced.bind_ok] at written
    obtain ⟨operand, single, _⟩ := written
    exact Site.holds_of_one single
  case jumpIfTrue | jumpIfFalse =>
    obtain rfl := Option.some.inj room
    refine guarded_holds written fun asked => ?_
    obtain ⟨operand, single, _⟩ := Traced.bind_ok.mp asked
    exact Site.holds_of_one single
  case getTable =>
    obtain rfl := Option.some.inj room
    simp only [siteText, Traced.bind_ok] at written
    obtain ⟨⟨later, earlier⟩, pair, _⟩ := written
    exact Site.holds_of_two pair
  case add | subtract | multiply | divide | power =>
    obtain rfl := Option.some.inj room
    obtain ⟨⟨later, earlier⟩, pair, _⟩ := Traced.bind_ok.mp written
    exact Site.holds_of_two pair
  case jumpNotEqual | jumpEqual | jumpLessThan | jumpLessThanEqual | jumpGreaterThan
    | jumpGreaterThanEqual =>
    obtain rfl := Option.some.inj room
    refine guarded_holds written fun asked => ?_
    obtain ⟨⟨later, earlier⟩, pair, _⟩ := Traced.bind_ok.mp asked
    exact Site.holds_of_two pair
  case setTable =>
    obtain rfl := Option.some.inj room
    simp only [siteText, Traced.bind_ok] at written
    obtain ⟨⟨latest, later, earlier⟩, triple, _⟩ := written
    exact Site.holds_of_three triple
  all_goals cases room

/-- A written node has its operands below it, one for each place in its text. -/
theorem length_operands (tidy : node.Tidy) (written : (scope.nodeText node).outcome = .ok text)
    (known : node.instruction.opcode = .ok opcode) (room : opcode.room? = some count) :
    node.operands.length = count := by
  rw [nodeText_eq] at written
  simp only [Traced.bind_ok, Traced.outcome_ofExcept] at written
  obtain ⟨other, also, written⟩ := written
  obtain rfl := Except.ok.inj (known.symm.trans also)
  obtain ⟨operands, body, separated, length⟩ := siteText_holds written room
  cases tidy with
  | node split =>
    have same := separated.symm.trans (separate_site scope split opcode)
    obtain ⟨rfl, _⟩ := Prod.mk.inj (Except.ok.inj same)
    rwa [List.length_map] at length

/-- Every node of a written tree is written. -/
theorem preorder_written (strict : scope.options.strict = true) (tidy : node.Tidy)
    (written : (scope.nodeText node).outcome = .ok text) :
    ∀ inner ∈ node.preorder, inner.Tidy ∧ ∃ shown, (scope.nodeText inner).outcome = .ok shown := by
  induction tidy generalizing text with
  | @node node separated bodiless operandsTidy bodyTidy ihOperands ihBody =>
    have tidy : node.Tidy := .node separated bodiless operandsTidy bodyTidy
    obtain ⟨_, below⟩ := nodeText_written strict tidy written
    rw [← node.operands_append_body] at below
    obtain ⟨operands, body⟩ := List.forall_mem_append.mp below
    rw [Node.preorder_eq, ← node.operands_append_body, Node.preorderAll_append]
    refine List.forall_mem_cons.mpr ⟨⟨tidy, text, written⟩, List.forall_mem_append.mpr ⟨?_, ?_⟩⟩
    · intro inner member
      obtain ⟨operand, among, inside⟩ := Node.mem_preorderAll.mp member
      obtain ⟨shown, text⟩ := operands operand among
      exact ihOperands operand among text inner inside
    · intro inner member
      obtain ⟨statement, among, inside⟩ := Node.mem_preorderAll.mp member
      obtain ⟨shown, text⟩ := body statement among
      exact ihBody statement among text inner inside

private theorem preorderAll_written (strict : scope.options.strict = true) {forest : List Node}
    (tidy : ∀ node ∈ forest, node.Tidy)
    (written : (scope.forestText forest).outcome = .ok text) :
    ∀ inner ∈ Node.preorderAll forest,
      inner.Tidy ∧ ∃ shown, (scope.nodeText inner).outcome = .ok shown := by
  simp only [forestText, parts_eq_map, Traced.bind_ok] at written
  obtain ⟨layout, added, _⟩ := written
  intro inner member
  obtain ⟨node, among, inside⟩ := Node.mem_preorderAll.mp member
  obtain ⟨shown, text⟩ :=
    writes_of_addStatements strict added (scope.part node) (List.mem_map_of_mem among)
  exact preorder_written strict (tidy node among) text inner inside

end Scope

namespace Node

variable {node inner child : Node}

/-- The operands push just what the node pops, and where its text has room for a number of them,
each pushes one value. -/
def Exact (node : Node) : Prop :=
  ∃ opcode counts needed, node.instruction.opcode = .ok opcode ∧ node.Fed counts needed ∧
    counts.sum = needed ∧ (opcode.room?.isSome → ∀ count ∈ counts, count = 1)

/-- How the operands of a written node supply it. -/
structure Supplied (node : Node) (opcode : Opcode) (counts : List Int) (needed : Int) : Prop where
  known : node.instruction.opcode = .ok opcode
  fed : node.Fed counts needed
  /-- There is an operand for each place in the text. -/
  places : ∀ room, opcode.room? = some room → counts.length = room
  /-- Where the node pops a value for each place, only the earliest operand may push more. -/
  single : opcode.room?.isSome → opcode ≠ .setTable → (∀ count ∈ counts, 0 < count) →
    ∀ later earliest, counts = later ++ [earliest] → ∀ count ∈ later, count = 1
  /-- What may be wrong: more values than the node pops, or a table assignment that pops other than
  three values for its three places. -/
  exact : node.Exact ↔ counts.sum ≤ needed ∧ (opcode = .setTable → needed = 3) ∧
    (opcode.room?.isSome → ∀ count ∈ counts, 0 < count)

variable {opcode : Opcode} {counts others : List Int} {needed other : Int}

private theorem Fed.unique (fed : node.Fed counts needed) (also : node.Fed others other) :
    counts = others ∧ needed = other := by
  refine ⟨?_, Except.ok.inj (fed.pops.symm.trans also.pops)⟩
  refine List.right_unique_forall₂' ?_ fed.pushes also.pushes
  intro operand count another here there
  exact Except.ok.inj (here.symm.trans there)

end Node

/-- A consumer with room for a number of operands pops as many values, a table assignment apart. -/
theorem Opcode.pops_of_room {opcode : Opcode} (room : opcode.room? = some count)
    (fixed : opcode ≠ .setTable) : opcode.pops = .fixed count := by
  cases opcode
  case setTable => exact absurd rfl fixed
  all_goals cases room <;> rfl

namespace Node

variable {node : Node} {opcode : Opcode} {counts : List Int} {needed : Int}

private theorem needed_of_room (known : node.instruction.opcode = .ok opcode)
    (fed : node.Fed counts needed) (room : opcode.room? = some places)
    (fixed : opcode ≠ .setTable) : needed = places := by
  have pops := Instruction.pops_of_opcode known
  rw [Opcode.pops_of_room room fixed, fed.pops] at pops
  exact Except.ok.inj pops

/-- A node with an operand for each place in its text is supplied. -/
theorem Fed.supplied (fed : node.Fed counts needed) (known : node.instruction.opcode = .ok opcode)
    (places : ∀ room, opcode.room? = some room → node.operands.length = room) :
    node.Supplied opcode counts needed := by
  have length (room : Nat) (some : opcode.room? = some room) : counts.length = room :=
    fed.pushes.length_eq.symm.trans (places room some)
  refine ⟨known, fed, length, ?_, ?_⟩
  · intro room fixed positive later earliest whole
    obtain ⟨places, room⟩ := Option.isSome_iff_exists.mp room
    have size := length places room
    have short := fed.short later earliest whole
    rw [needed_of_room known fed room fixed] at short
    rw [whole] at size positive
    rw [List.length_append, List.length_singleton] at size
    exact eq_one_of_sum_le (List.forall_mem_append.mp positive).1 (by omega)
  · constructor
    · rintro ⟨other, values, popped, also, again, total, ones⟩
      obtain rfl := Except.ok.inj (known.symm.trans also)
      obtain ⟨rfl, rfl⟩ := fed.unique again
      refine ⟨by omega, ?_, ?_⟩
      · rintro rfl
        rw [← total, sum_eq_length (ones rfl), length 3 rfl]
        rfl
      · intro room count member
        rw [ones room count member]
        decide
    · rintro ⟨little, table, positive⟩
      have total : counts.sum = needed := Int.le_antisymm little fed.enough
      refine ⟨opcode, counts, needed, known, fed, total, fun room => ?_⟩
      obtain ⟨places, some⟩ := Option.isSome_iff_exists.mp room
      refine eq_one_of_sum_le (positive room) ?_
      rw [total, length places some]
      by_cases fixed : opcode = .setTable
      · subst opcode
        obtain rfl := Option.some.inj some
        exact (table rfl).le
      · exact (needed_of_room known fed some fixed).le

end Node

namespace Prototype

variable {options : Options} {prototype : Prototype} {upvalues : List Text}

/-- In a strict text every node is supplied by its operands. Of words that are not negative, each
operand pushes a value or more. -/
theorem supplied_of_bodyText (strict : options.strict = true)
    (written : (prototype.bodyText options detailed upvalues).outcome = .ok text) :
    ∃ forest, (Forest.build ⟨some prototype.functions.length, detailed⟩ 0
        prototype.code).outcome = .ok forest ∧
      ((prototype.scope options detailed upvalues).forestText forest).outcome = .ok text ∧
      ∀ node ∈ Node.preorderAll forest, ∃ opcode counts needed,
        node.Supplied opcode counts needed ∧
        ((∀ instruction ∈ prototype.code, 0 ≤ instruction.raw) → ∀ count ∈ counts, 0 < count) := by
  obtain ⟨forest, built, shown⟩ := bodyText_eq_ok.mp written
  have tidy := (Forest.build_sound built).tidy (List.forall_mem_nil _)
  refine ⟨forest, built, shown, fun node member => ?_⟩
  obtain ⟨ownTidy, own, rendered⟩ := Scope.preorderAll_written strict tidy shown node member
  obtain ⟨counts, needed, fed⟩ := Forest.fed_of_build built node member
  obtain ⟨opcode, known⟩ : ∃ opcode, node.instruction.opcode = .ok opcode := by
    rw [Scope.nodeText_eq] at rendered
    obtain ⟨opcode, known, _⟩ := Traced.bind_ok.mp rendered
    exact ⟨opcode, known⟩
  have supplied := fed.supplied known fun room places =>
    Scope.length_operands ownTidy rendered known places
  refine ⟨opcode, counts, needed, supplied, fun words count among => ?_⟩
  obtain ⟨operand, below, pushes⟩ := exists_of_forall₂ fed.pushes among
  have inside : operand ∈ Node.preorderAll forest := by
    obtain ⟨tree, tops, deeper⟩ := Node.mem_preorderAll.mp member
    refine Node.mem_preorderAll.mpr ⟨tree, tops, Node.mem_preorder_of_children deeper ?_⟩
    rw [← node.operands_append_body]
    exact List.mem_append_left _ below
  have positive := Instruction.nonneg_of_pushes
    (words _ (Forest.mem_code_of_build built inside)) pushes
  have something := fed.leaves count among
  omega

/-- A call of a method, whose two values are two of the three that the call pops. -/
theorem supplied_of_method_call :
    let prototype : Prototype := { (default : Prototype) with
      strings := ["x", "name"]
      code := [⟨12, {}⟩, ⟨80, {}⟩, ⟨2147483654, {}⟩, ⟨65538, {}⟩, ⟨0, {}⟩] }
    (prototype.bodyText {} false []).outcome = .ok "x:name(1)" ∧
      ∃ forest, (Forest.build ⟨some 0, false⟩ 0 prototype.code).outcome = .ok forest ∧
        ∀ node ∈ Node.preorderAll forest, ∃ opcode counts needed,
          node.Supplied opcode counts needed ∧ ∀ count ∈ counts, 0 < count := by
  intro prototype
  have written : (prototype.bodyText {} false []).outcome = .ok "x:name(1)" := by cbv
  obtain ⟨forest, built, _, supplied⟩ := supplied_of_bodyText rfl written
  refine ⟨written, forest, built, fun node member => ?_⟩
  obtain ⟨opcode, counts, needed, whole, positive⟩ := supplied node member
  exact ⟨opcode, counts, needed, whole, positive (by decide)⟩

/-- A method that is assigned without a call: the variable takes one of the two values. -/
theorem not_exact_of_method :
    let prototype : Prototype := { (default : Prototype) with
      strings := ["x", "name", "y"]
      code := [⟨12, {}⟩, ⟨80, {}⟩, ⟨147, {}⟩, ⟨0, {}⟩] }
    (prototype.bodyText {} false []).outcome = .ok "y = x:name" ∧
      ∃ forest, (Forest.build ⟨some 0, false⟩ 0 prototype.code).outcome = .ok forest ∧
        ∃ node ∈ forest, node.instruction.opcode = .ok .setGlobal ∧ node.Fed [2] 1 ∧
          ¬ node.Exact := by
  intro prototype
  let method : Node := ⟨⟨80, {}⟩, [⟨⟨12, {}⟩, [], 0⟩], 1⟩
  let assignment : Node := ⟨⟨147, {}⟩, [method], 2⟩
  have operands : assignment.operands = [method] := by cbv
  have pushes : method.instruction.pushes = .ok 2 := by cbv
  have short (later : List Int) (earliest : Int) (same : [2] = later ++ [earliest]) :
      later.sum < 1 := by
    cases later with
    | nil => decide
    | cons first rest => simp at same
  have fed : assignment.Fed [2] 1 := by
    refine ⟨?_, by cbv, by decide, by decide, short⟩
    rw [operands]
    exact .cons pushes .nil
  refine ⟨by cbv, [assignment, ⟨⟨0, {}⟩, [], 3⟩], by cbv, assignment, List.mem_cons_self,
    by cbv, fed, ?_⟩
  rintro ⟨_, counts, needed, _, other, total, _⟩
  obtain ⟨rfl, rfl⟩ := fed.unique other
  exact absurd total (by decide)

end Prototype

end LuaLift
