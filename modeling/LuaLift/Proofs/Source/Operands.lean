import LuaLift.Proofs.Expression.Reader
import LuaLift.Proofs.Forest.Agree
import LuaLift.Proofs.Source.Strict

/-! The texts of names, numerals, operators, calls and items of tables, from the texts of the operands
below them. Every one of these operands pushes one value. -/
namespace LuaLift

namespace Opcode

/-- The binary operators that pop two values. -/
def binary? : Opcode → Option BinaryOperator
  | add => some .add
  | subtract => some .subtract
  | multiply => some .multiply
  | divide => some .divide
  | power => some .power
  | _ => none

variable {opcode : Opcode} {operator : BinaryOperator}

private theorem pops_of_binary (binary : opcode.binary? = some operator) :
    opcode.pops = .fixed 2 := by
  cases opcode <;> first | rfl | cases binary

theorem pushes_of_binary (binary : opcode.binary? = some operator) : opcode.pushes = .fixed 1 := by
  cases opcode <;> first | rfl | cases binary

theorem isCompound_of_binary (binary : opcode.binary? = some operator) :
    opcode.isCompound = true := by
  cases opcode <;> first | rfl | cases binary

end Opcode

namespace Node

private theorem separate_of_single {node : Node}
    (pops : node.instruction.pops = .ok node.children.length)
    (single : ∀ child ∈ node.children, child.instruction.pushes = .ok 1) :
    node.separate = .ok (node.children, []) := by
  have taken : takePushed (fun child : Node => child.instruction.pushes) node.children.length
      node.children = .ok (node.children, [], 0) := takePushed_of_single single
  rw [separate, pops]
  change (takePushed (fun child : Node => child.instruction.pushes) node.children.length
    node.children >>= _) = _
  rw [taken]
  rfl

end Node

namespace Instruction

variable {instruction : Instruction} {opcode : Opcode}

theorem pushes_of_single (known : instruction.opcode = .ok opcode)
    (single : opcode.pushes = .fixed 1) : instruction.pushes = .ok 1 := by
  rw [pushes_of_opcode known, single]
  rfl

private theorem pops_of_concat (known : instruction.opcode = .ok .concat) {number : Nat}
    (count : instruction.u = .ok number) : instruction.pops = .ok number := by
  rw [pops_of_opcode known]
  change (instruction.u >>= fun value => pure (1 * value + 0)) = _
  rw [count]
  change Except.ok (1 * (number : Int) + 0) = _
  rw [Int.one_mul, Int.add_zero]

end Instruction

namespace Scope

variable {scope : Scope} {node : Node} {opcode : Opcode}

private theorem nodeText_of_opcode (scope : Scope) (known : node.instruction.opcode = .ok opcode) :
    (scope.nodeText node).outcome = (scope.siteText (scope.site node opcode)).outcome := by
  rw [nodeText_eq]
  exact Traced.outcome_bind_of_ok _ known

private theorem operands_of_single (scope : Scope) (opcode : Opcode)
    (pops : node.instruction.pops = .ok node.children.length)
    (single : ∀ child ∈ node.children, child.instruction.pushes = .ok 1) :
    (scope.site node opcode).operands.outcome = .ok (node.children.map scope.part) :=
  Traced.outcome_bind_of_ok _ (separate_site scope (Node.separate_of_single pops single) opcode)

/-- Each of the operands pushes one value, wherever they stand beside their texts. -/
theorem single_of_forall₂ {shows : Node → Text → Prop} {nodes : List Node} {texts : List Text}
    (single : ∀ node text, shows node text → node.instruction.pushes = .ok 1)
    (all : List.Forall₂ shows nodes.reverse texts) :
    ∀ node ∈ nodes, node.instruction.pushes = .ok 1 := fun node member =>
  ((List.forall₂_and_left _ _).mp (all.imp fun _ _ here => ⟨single _ _ here, here⟩)).1 node
    (List.mem_reverse.mpr member)

/-- The node pushes one value, and this is its text. -/
structure Gives (scope : Scope) (node : Node) (text : Text) : Prop where
  single : node.instruction.pushes = .ok 1
  rendered : (scope.nodeText node).outcome = .ok text

/-- The node pushes one value, and this is its text as an operand of an operator. -/
structure Wraps (scope : Scope) (node : Node) (text : Text) : Prop where
  single : node.instruction.pushes = .ok 1
  wrapped : (scope.part node).wrapped.outcome = .ok text

section Operands

variable {instruction : Instruction} {index place : Int} {operand earlier later : Node}
  {function table key : Node} {text left right : Text}

private theorem Gives.shown (gives : scope.Gives node text) :
    (scope.part node).text.outcome = .ok text :=
  gives.rendered

/-- Only an operator stands in parentheses as an operand. -/
theorem Gives.wraps (gives : scope.Gives node text) (known : node.instruction.opcode = .ok opcode) :
    scope.Wraps node (if opcode.isCompound then "(" ++ text ++ ")" else text) := by
  refine ⟨gives.single, ?_⟩
  rw [Part.wrapped, Traced.outcome_bind_of_ok _ gives.shown, Traced.outcome_bind_of_ok _ known]
  split <;> rfl

private theorem one_of_single (scope : Scope) (index : Int)
    (known : instruction.opcode = .ok opcode)
    (fixed : opcode.pops = .fixed 1) (single : operand.instruction.pushes = .ok 1) :
    (scope.site ⟨instruction, [operand], index⟩ opcode).one.outcome = .ok (scope.part operand) := by
  have pops : instruction.pops = .ok 1 := by
    rw [Instruction.pops_of_opcode known, fixed]
    rfl
  have each : ∀ child ∈ [operand], child.instruction.pushes = .ok 1 :=
    List.forall_mem_singleton.mpr single
  rw [Site.one, Traced.outcome_bind_of_ok _ (operands_of_single scope opcode pops each)]
  rfl

private theorem two_of_single (scope : Scope) (index : Int)
    (known : instruction.opcode = .ok opcode)
    (fixed : opcode.pops = .fixed 2) (first : earlier.instruction.pushes = .ok 1)
    (second : later.instruction.pushes = .ok 1) :
    (scope.site ⟨instruction, [later, earlier], index⟩ opcode).two.outcome =
      .ok (scope.part later, scope.part earlier) := by
  have pops : instruction.pops = .ok 2 := by
    rw [Instruction.pops_of_opcode known, fixed]
    rfl
  have each : ∀ child ∈ [later, earlier], child.instruction.pushes = .ok 1 :=
    List.forall_mem_cons.mpr ⟨second, List.forall_mem_singleton.mpr first⟩
  rw [Site.two, Traced.outcome_bind_of_ok _ (operands_of_single scope opcode pops each)]
  rfl

private theorem stringAt_of_found {site : Site} (reads : site.instruction.u = .ok place)
    (found : itemAt? scope.strings place = some text) :
    (scope.stringAt site).outcome = .ok text := by
  rw [stringAt, Traced.outcome_bind_of_ok _ reads]
  exact constant_ok.mpr found

theorem nodeText_getGlobal (known : node.instruction.opcode = .ok .getGlobal)
    (reads : node.instruction.u = .ok place) (found : itemAt? scope.strings place = some text) :
    (scope.nodeText node).outcome = .ok text :=
  (nodeText_of_opcode scope known).trans (stringAt_of_found reads found)

private theorem localAt_of_named {site : Site} (reads : site.instruction.u = .ok place)
    (named : scope.localName place = .ok text) : (scope.localAt site).outcome = .ok text := by
  rw [localAt, Traced.outcome_bind_of_ok _ reads]
  exact named

theorem nodeText_getLocal (known : node.instruction.opcode = .ok .getLocal)
    (reads : node.instruction.u = .ok place) (named : scope.localName place = .ok text) :
    (scope.nodeText node).outcome = .ok text :=
  (nodeText_of_opcode scope known).trans (localAt_of_named reads named)

theorem nodeText_pushInt {value : Int} (scope : Scope)
    (known : node.instruction.opcode = .ok .pushInt) (reads : node.instruction.s = .ok value) :
    (scope.nodeText node).outcome = .ok (Text.decimal value) :=
  (nodeText_of_opcode scope known).trans (Traced.outcome_bind_of_ok _ reads)

private theorem siteText_of_binary {site : Site} {operator : BinaryOperator}
    (binary : site.opcode.binary? = some operator) :
    scope.siteText site = Scope.binary site operator.mark := by
  obtain ⟨instruction, opcode, parts, index⟩ := site
  cases opcode <;> first | cases binary; rfl | cases binary

theorem nodeText_binary {operator : BinaryOperator} (index : Int)
    (known : instruction.opcode = .ok opcode) (binary : opcode.binary? = some operator)
    (front : scope.Wraps earlier left) (back : scope.Wraps later right) :
    (scope.nodeText ⟨instruction, [later, earlier], index⟩).outcome =
      .ok (left ++ " " ++ operator.mark ++ " " ++ right) := by
  have both := two_of_single scope index known (Opcode.pops_of_binary binary) front.single back.single
  rw [nodeText_of_opcode scope known, siteText_of_binary binary, Scope.binary,
    Traced.outcome_bind_of_ok _ both, Traced.outcome_bind_of_ok _ front.wrapped,
    Traced.outcome_bind_of_ok _ back.wrapped]
  rfl

/-- A literal is added as it stands, and a negative one taken away. -/
theorem nodeText_addInt {amount : Int} (index : Int) (known : instruction.opcode = .ok .addInt)
    (literal : instruction.s = .ok amount) (only : scope.Wraps operand text) :
    (scope.nodeText ⟨instruction, [operand], index⟩).outcome =
      .ok (text ++ " " ++ (if amount < 0 then BinaryOperator.subtract else .add).mark ++ " " ++
        Text.digits amount.natAbs) := by
  have single := one_of_single scope index known rfl only.single
  rw [nodeText_of_opcode scope known]
  change (sumWithLiteral _).outcome = _
  rw [sumWithLiteral, Traced.outcome_bind_of_ok _ single, Traced.outcome_bind_of_ok _ literal,
    Traced.outcome_bind_of_ok _ only.wrapped]
  by_cases negative : amount < 0
  · have shown : Text.decimal (-amount) = Text.digits amount.natAbs := by
      rw [Text.decimal_of_nonneg (by omega), Int.natAbs_neg]
    rw [if_pos negative, if_pos negative, shown, Traced.outcome_pure]
    simp only [List.append_assoc]
    rfl
  · rw [if_neg negative, if_neg negative, Text.decimal_of_nonneg negative, Traced.outcome_pure]
    simp only [List.append_assoc]
    rfl

/-- A second sign goes into parentheses. -/
theorem nodeText_minus (index : Int) (known : instruction.opcode = .ok .minus)
    (only : scope.Wraps operand text) :
    (scope.nodeText ⟨instruction, [operand], index⟩).outcome =
      .ok ("-" ++ if text.head? = some (.char '-') then "(" ++ text ++ ")" else text) := by
  have single := one_of_single scope index known rfl only.single
  rw [nodeText_of_opcode scope known]
  change (negation _).outcome = _
  rw [negation, Traced.outcome_bind_of_ok _ single, Traced.outcome_bind_of_ok _ only.wrapped]
  split <;> rfl

theorem nodeText_not (index : Int) (known : instruction.opcode = .ok .not)
    (only : scope.Wraps operand text) :
    (scope.nodeText ⟨instruction, [operand], index⟩).outcome = .ok ("not " ++ text) := by
  have single := one_of_single scope index known rfl only.single
  rw [nodeText_of_opcode scope known]
  change ((scope.site ⟨instruction, [operand], index⟩ .not).one >>= _).outcome = _
  rw [Traced.outcome_bind_of_ok _ single, Traced.outcome_bind_of_ok _ only.wrapped]
  rfl

/-- Concatenated operands stand in the order in which they were pushed. -/
theorem nodeText_concat {operands : List Node} {texts : List Text} (index : Int)
    (known : instruction.opcode = .ok .concat) (count : instruction.u = .ok operands.length)
    (all : List.Forall₂ scope.Wraps operands.reverse texts) :
    (scope.nodeText ⟨instruction, operands, index⟩).outcome = .ok (Text.join " .. " texts) := by
  have taken : (scope.site ⟨instruction, operands, index⟩ .concat).operands.outcome = _ :=
    operands_of_single scope .concat (Instruction.pops_of_concat known count)
      (single_of_forall₂ (fun _ _ => Wraps.single) all)
  have latest := List.forall₂_reverse_iff.mpr all
  rw [List.reverse_reverse] at latest
  have wrapped : ((operands.map scope.part).mapM Part.wrapped).outcome = .ok texts.reverse :=
    Traced.mapM_ok.mpr (List.forall₂_map_left_iff.mpr (latest.imp fun _ _ wraps => wraps.wrapped))
  rw [nodeText_of_opcode scope known]
  change ((scope.site ⟨instruction, operands, index⟩ .concat).operands >>= _).outcome = _
  rw [Traced.outcome_bind_of_ok _ taken, Traced.outcome_bind_of_ok _ wrapped, Traced.outcome_pure,
    List.reverse_reverse]

/-- What is called is pushed first, and the arguments behind it in their order. -/
theorem nodeText_call {arguments : List Node} {texts : List Text} (index : Int)
    (known : instruction.opcode = .ok .call) (count : instruction.a = .ok arguments.length)
    (front : scope.Gives function text) (all : List.Forall₂ scope.Gives arguments texts) :
    (scope.nodeText ⟨instruction, (function :: arguments).reverse, index⟩).outcome =
      .ok (text ++ "(" ++ Text.join ", " texts ++ ")") := by
  have given : List.Forall₂ scope.Gives (function :: arguments).reverse (text :: texts).reverse :=
    List.forall₂_reverse_iff.mpr (.cons front all)
  have pops : instruction.pops = .ok ((function :: arguments).reverse.length : Nat) := by
    rw [Instruction.pops_of_opcode known, List.length_reverse, List.length_cons]
    change (instruction.a >>= fun value => pure (1 * value + 1)) = _
    rw [count]
    change Except.ok (1 * (arguments.length : Int) + 1) = _
    rw [Int.one_mul, Int.natCast_succ]
  have taken : (scope.site ⟨instruction, (function :: arguments).reverse, index⟩
      .call).operands.outcome = _ :=
    operands_of_single scope .call pops (single_of_forall₂ (fun _ _ => Gives.single)
      (List.forall₂_reverse_iff.mpr given))
  have shown : (((function :: arguments).reverse.map scope.part).mapM Part.text).outcome =
      .ok (text :: texts).reverse :=
    Traced.mapM_ok.mpr (List.forall₂_map_left_iff.mpr (given.imp fun _ _ gives => gives.rendered))
  have texts : (scope.site ⟨instruction, (function :: arguments).reverse, index⟩
      .call).texts.outcome = .ok (text :: texts).reverse := by
    rw [Site.texts, Traced.outcome_bind_of_ok _ taken, shown]
  rw [nodeText_of_opcode scope known]
  change ((scope.site ⟨instruction, (function :: arguments).reverse, index⟩ .call).texts >>=
    _).outcome = _
  rw [Traced.outcome_bind_of_ok _ texts, List.reverse_reverse]
  rfl

theorem nodeText_getTable (index : Int) (known : instruction.opcode = .ok .getTable)
    (front : scope.Gives table left) (back : scope.Gives key right) :
    (scope.nodeText ⟨instruction, [key, table], index⟩).outcome =
      .ok (left ++ "[" ++ right ++ "]") := by
  have both := two_of_single scope index known rfl front.single back.single
  rw [nodeText_of_opcode scope known]
  change ((scope.site ⟨instruction, [key, table], index⟩ .getTable).two >>= _).outcome = _
  rw [Traced.outcome_bind_of_ok _ both, Traced.outcome_bind_of_ok _ back.shown,
    Traced.outcome_bind_of_ok _ front.shown]
  rfl

theorem nodeText_getDotted {field : Text} (index : Int)
    (known : instruction.opcode = .ok .getDotted) (reads : instruction.u = .ok place)
    (found : itemAt? scope.strings place = some field) (only : scope.Gives table text) :
    (scope.nodeText ⟨instruction, [table], index⟩).outcome = .ok (text ++ "." ++ field) := by
  have single := one_of_single scope index known rfl only.single
  have name : (scope.stringAt (scope.site ⟨instruction, [table], index⟩ .getDotted)).outcome =
      .ok field := stringAt_of_found reads found
  rw [nodeText_of_opcode scope known]
  change ((scope.site ⟨instruction, [table], index⟩ .getDotted).one >>= _).outcome = _
  rw [Traced.outcome_bind_of_ok _ single, Traced.outcome_bind_of_ok _ only.shown,
    Traced.outcome_bind_of_ok _ name]
  rfl

theorem nodeText_getIndexed {shown : Text} (index : Int)
    (known : instruction.opcode = .ok .getIndexed) (reads : instruction.u = .ok place)
    (named : scope.localName place = .ok shown) (only : scope.Gives table text) :
    (scope.nodeText ⟨instruction, [table], index⟩).outcome =
      .ok (text ++ "[" ++ shown ++ "]") := by
  have single := one_of_single scope index known rfl only.single
  have name : (scope.localAt (scope.site ⟨instruction, [table], index⟩ .getIndexed)).outcome =
      .ok shown := localAt_of_named reads named
  rw [nodeText_of_opcode scope known]
  change ((scope.site ⟨instruction, [table], index⟩ .getIndexed).one >>= _).outcome = _
  rw [Traced.outcome_bind_of_ok _ single, Traced.outcome_bind_of_ok _ only.shown,
    Traced.outcome_bind_of_ok _ name]
  rfl

end Operands

end Scope

end LuaLift
