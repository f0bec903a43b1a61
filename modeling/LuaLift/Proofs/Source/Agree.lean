import LuaLift.Proofs.Forest.Agree
import LuaLift.Proofs.Source.Strict

/-! The text of trees that are alike. With the same names and constants they have the same text, or
are refused with the same fault. -/
namespace LuaLift

/-- The same number, or no number on either side. -/
def Double.Alike (left right : Double) : Prop :=
  left = right ∨ left.isNaN = true ∧ right.isNaN = true

/-- Parts with the same instruction at the same place, and with the same text. -/
structure Part.Alike (left right : Part) : Prop where
  instruction : left.node.instruction.Same right.node.instruction
  index : left.node.index = right.node.index
  text : left.text.outcome = right.text.outcome

structure Site.Alike (left right : Site) : Prop where
  instruction : left.instruction.Same right.instruction
  known : left.instruction.opcode = .ok left.opcode
  opcode : left.opcode = right.opcode
  parts : List.Forall₂ Part.Alike left.parts right.parts
  index : left.index = right.index

/-- The same names and constants, and functions that give the same texts. -/
structure Scope.Alike (left right : Scope) : Prop where
  options : left.options = right.options
  localNames : left.localNames = right.localNames
  strings : left.strings = right.strings
  numbers : List.Forall₂ Double.Alike left.numbers right.numbers
  functions : List.Forall₂ (fun function other : List Text → Traced Text =>
    ∀ upvalues, (function upvalues).outcome = (other upvalues).outcome)
    left.functions right.functions
  upvalues : left.upvalues = right.upvalues

private theorem getElem?_rel {related : α → β → Prop} {items : List α} {others : List β}
    (alike : List.Forall₂ related items others) (index : Nat) :
    Option.Rel related items[index]? others[index]? := by
  induction alike generalizing index with
  | nil => exact .none
  | cons here rest ih =>
    cases index with
    | zero => exact .some here
    | succ index => exact ih index

private theorem itemAt?_rel {related : α → β → Prop} {items : List α} {others : List β}
    (alike : List.Forall₂ related items others) (index : Int) :
    Option.Rel related (itemAt? items index) (itemAt? others index) := by
  rw [itemAt?, itemAt?]
  split
  · exact getElem?_rel (List.forall₂_reverse_iff.mpr alike) _
  · exact getElem?_rel alike _

theorem findItem_agree {related : α → β → Prop} {items : List α} {others : List β} (row : RowKind)
    (alike : List.Forall₂ related items others) (index : Int) :
    Agree (Option.Rel related) (findItem row items index) (findItem row others index) := by
  rw [findItem, findItem, alike.length_eq]
  split
  · exact .error _
  · exact .ok (itemAt?_rel alike index)

namespace Double

variable {left right : Double}

private theorem Alike.general (alike : left.Alike right) : left.general = right.general := by
  rcases alike with rfl | ⟨leftNaN, rightNaN⟩
  · rfl
  · rw [Double.general, Double.general, written, written, if_pos leftNaN, if_pos rightNaN]

private theorem Alike.neg (alike : left.Alike right) : left.neg.Alike right.neg := by
  rcases alike with rfl | opposite
  · exact .inl rfl
  · exact .inr opposite

end Double

private theorem Part.Alike.wrapped {left right : Part} (alike : left.Alike right) :
    left.wrapped.outcome = right.wrapped.outcome := by
  simp only [Part.wrapped, Traced.outcome_bind, Traced.outcome_ofExcept, alike.text,
    alike.instruction.opcode_eq]

namespace Site.Alike

variable {left right : Site} (alike : left.Alike right)

include alike

theorem refuse {related : α → β → Prop} :
    Agree related (left.refuse : Traced α).outcome (right.refuse : Traced β).outcome := by
  simp only [Site.refuse, Traced.outcome_throw, alike.opcode, alike.index, alike.parts.length_eq]
  exact .error _

private theorem separate :
    Agree (fun first second => List.Forall₂ Part.Alike first.1 second.1 ∧
      List.Forall₂ Part.Alike first.2 second.2) left.separate.outcome right.separate.outcome := by
  simp only [Site.separate, Traced.outcome_bind, Traced.outcome_ofExcept]
  refine .bind_same alike.instruction.pops_eq fun pops _ => ?_
  refine (Node.takePushed_agree (fun part => part.instruction.pushes_eq) alike.parts pops).bind
    fun taken => ?_
  exact .ok ⟨taken.operands, taken.others⟩

private theorem operands :
    Agree (List.Forall₂ Part.Alike) left.operands.outcome right.operands.outcome := by
  simp only [Site.operands, Traced.outcome_bind]
  exact alike.separate.bind fun parts => .ok parts.1

private theorem body : Agree (List.Forall₂ Part.Alike) left.body.outcome right.body.outcome := by
  simp only [Site.body, Traced.outcome_bind]
  exact alike.separate.bind fun parts => .ok parts.2

private theorem texts : left.texts.outcome = right.texts.outcome := by
  apply Agree.eq
  simp only [Site.texts, Traced.outcome_bind, Traced.outcome_mapM]
  refine alike.operands.bind fun operands => ?_
  exact .of_eq (Agree.mapM_eq operands fun part => part.text)

private theorem one : Agree Part.Alike left.one.outcome right.one.outcome := by
  simp only [Site.one, Traced.outcome_bind]
  refine alike.operands.bind fun operands => ?_
  cases operands with
  | nil => exact alike.refuse
  | cons operand rest =>
    cases rest with
    | nil => exact .ok operand
    | cons _ _ => exact alike.refuse

private theorem two : Agree (fun first second => first.1.Alike second.1 ∧ first.2.Alike second.2)
    left.two.outcome right.two.outcome := by
  simp only [Site.two, Traced.outcome_bind]
  refine alike.operands.bind fun operands => ?_
  cases operands with
  | nil => exact alike.refuse
  | cons later rest =>
    cases rest with
    | nil => exact alike.refuse
    | cons earlier rest =>
      cases rest with
      | nil => exact .ok ⟨later, earlier⟩
      | cons _ _ => exact alike.refuse

private theorem three :
    Agree (fun first second => first.1.Alike second.1 ∧ first.2.1.Alike second.2.1 ∧
    first.2.2.Alike second.2.2) left.three.outcome right.three.outcome := by
  simp only [Site.three, Traced.outcome_bind]
  refine alike.operands.bind fun operands => ?_
  cases operands with
  | nil => exact alike.refuse
  | cons latest rest =>
    cases rest with
    | nil => exact alike.refuse
    | cons later rest =>
      cases rest with
      | nil => exact alike.refuse
      | cons earlier rest =>
        cases rest with
        | nil => exact .ok ⟨latest, later, earlier⟩
        | cons _ _ => exact alike.refuse

/-- An operand that the opcode's mode reads. -/
theorem u_eq (mode : left.opcode.mode = .unsigned) : left.instruction.u = right.instruction.u := by
  have shared := alike.instruction.shares alike.known
  rw [mode] at shared
  obtain ⟨value, reads, also⟩ := shared
  rw [reads, also]

private theorem s_eq (mode : left.opcode.mode = .signed) :
    left.instruction.s = right.instruction.s := by
  have shared := alike.instruction.shares alike.known
  rw [mode] at shared
  obtain ⟨value, reads, also⟩ := shared
  rw [reads, also]

private theorem a_eq (mode : left.opcode.mode = .pair) :
    left.instruction.a = right.instruction.a := by
  have shared := alike.instruction.shares alike.known
  rw [mode] at shared
  obtain ⟨⟨value, reads, also⟩, _⟩ := shared
  rw [reads, also]

end Site.Alike

namespace Scope

variable {scope other : Scope} {left right : Site}

/-- A statement is left out of a layout, or written into it, on both sides. -/
theorem addStatement_eq (options : scope.options = other.options) {part item : Part}
    (alike : part.Alike item) (layout : Layout) :
    (scope.addStatement layout part).outcome = (other.addStatement layout item).outcome := by
  obtain ⟨shown, leftShown, rightShown⟩ := alike.instruction.text
  have written : (some <$> part.text).outcome = (some <$> item.text).outcome := by
    simp only [map_eq_pure_bind, Traced.outcome_bind, alike.text]
  apply Agree.eq
  simp only [addStatement, options, Traced.outcome_bind]
  refine .bind_same (Traced.outcome_tryCatch_congr written _) fun text _ => ?_
  cases text with
  | none =>
    simp only [Traced.outcome_bind, Traced.outcome_ofExcept, leftShown, rightShown, alike.index]
    exact .of_eq rfl
  | some text =>
    cases text <;> exact .of_eq rfl

private theorem addStatements_eq (options : scope.options = other.options) {parts items : List Part}
    (alike : List.Forall₂ Part.Alike parts items) (layout : Layout) :
    (scope.addStatements layout parts).outcome = (other.addStatements layout items).outcome := by
  apply Agree.eq
  simp only [addStatements, Traced.outcome_foldlM]
  exact .foldlM alike (fun same part => same ▸ .of_eq (addStatement_eq options part _)) rfl

private theorem conditional_eq (options : scope.options = other.options) (alike : left.Alike right)
    (condition : Text) :
    (scope.conditional left condition).outcome = (other.conditional right condition).outcome := by
  apply Agree.eq
  simp only [conditional, Layout.inside, Traced.outcome_bind, Traced.outcome_ofExcept,
    Traced.outcome_pure, emptyLayout, options]
  refine alike.body.bind fun body => ?_
  rw [addStatements_eq options body]
  exact .of_eq rfl

private theorem comparison_eq (options : scope.options = other.options) (alike : left.Alike right)
    (operator : Text) :
    (scope.comparison left operator).outcome = (other.comparison right operator).outcome := by
  apply Agree.eq
  simp only [comparison, Traced.outcome_bind, Traced.outcome_ofExcept]
  refine .bind_same alike.instruction.skipsAhead_eq fun ahead _ => ?_
  cases ahead with
  | false => exact alike.refuse
  | true =>
    simp only [Bool.not_true, Bool.false_eq_true, ↓reduceIte, Traced.outcome_bind]
    refine alike.two.bind fun parts => ?_
    refine .bind_same parts.1.text fun right _ => .bind_same parts.2.text fun left _ => ?_
    exact .of_eq (conditional_eq options alike _)

private theorem truthTest_eq (options : scope.options = other.options) (alike : left.Alike right)
    (negated : Bool) :
    (scope.truthTest left negated).outcome = (other.truthTest right negated).outcome := by
  apply Agree.eq
  simp only [truthTest, Traced.outcome_bind, Traced.outcome_ofExcept]
  refine .bind_same alike.instruction.skipsAhead_eq fun ahead _ => ?_
  cases ahead with
  | false => exact alike.refuse
  | true =>
    simp only [Bool.not_true, Bool.false_eq_true, ↓reduceIte, Traced.outcome_bind]
    refine alike.one.bind fun operand => ?_
    cases negated with
    | false =>
      simp only [Bool.false_eq_true, ↓reduceIte, Traced.outcome_bind]
      exact .bind_same operand.text fun shown _ => .of_eq (conditional_eq options alike _)
    | true =>
      simp only [↓reduceIte, Traced.outcome_bind, Traced.outcome_pure]
      refine .bind_same operand.wrapped fun shown _ => ?_
      exact .bind_same rfl fun condition _ => .of_eq (conditional_eq options alike _)

private theorem binary_eq (alike : left.Alike right) (operator : Text) :
    (binary left operator).outcome = (binary right operator).outcome := by
  apply Agree.eq
  simp only [binary, Traced.outcome_bind]
  refine alike.two.bind fun parts => ?_
  rw [parts.1.wrapped, parts.2.wrapped]
  exact .of_eq rfl

private theorem constant_agree {related : α → β → Prop} {items : List α} {others : List β}
    (alike : List.Forall₂ related items others) (pool : PoolKind) (number index : Int) :
    Agree related (constant pool items number index).outcome
      (constant pool others number index).outcome := by
  rw [constant, constant, alike.length_eq, Traced.outcome_bind, Traced.outcome_bind]
  refine (findItem_agree .list alike number).bind fun found => ?_
  cases found with
  | none => exact .error _
  | some same => exact .ok same

private theorem stringAt_eq (strings : scope.strings = other.strings) (alike : left.Alike right)
    (mode : left.opcode.mode = .unsigned) :
    (scope.stringAt left).outcome = (other.stringAt right).outcome := by
  simp only [stringAt, Traced.outcome_bind, Traced.outcome_ofExcept, strings, alike.u_eq mode,
    alike.index]

private theorem numberAt_agree (alike : scope.Alike other) (site : left.Alike right)
    (mode : left.opcode.mode = .unsigned) :
    Agree Double.Alike (scope.numberAt left).outcome (other.numberAt right).outcome := by
  simp only [numberAt, Traced.outcome_bind, Traced.outcome_ofExcept, site.index]
  exact .bind_same (site.u_eq mode) fun number _ => constant_agree alike.numbers _ _ _

private theorem localAt_eq (alike : scope.Alike other) (site : left.Alike right)
    (mode : left.opcode.mode = .unsigned) :
    (scope.localAt left).outcome = (other.localAt right).outcome := by
  simp only [localAt, localName, Traced.outcome_bind, Traced.outcome_ofExcept, site.u_eq mode,
    alike.options, alike.localNames]

private theorem closure_eq (alike : scope.Alike other) (site : left.Alike right)
    (mode : left.opcode.mode = .pair) :
    (scope.closure left).outcome = (other.closure right).outcome := by
  apply Agree.eq
  simp only [closure, Traced.outcome_bind, Traced.outcome_ofExcept, site.index]
  refine .bind_same (site.a_eq mode) fun number _ => ?_
  refine (constant_agree alike.functions _ _ _).bind fun same => ?_
  exact .bind_same site.texts fun values _ => .of_eq (same _)

/-- Sites that are alike have the same text. -/
theorem siteText_eq (alike : scope.Alike other) (site : left.Alike right) :
    (scope.siteText left).outcome = (other.siteText right).outcome := by
  obtain ⟨instruction, opcode, parts, index⟩ := left
  obtain ⟨_, _, others, _⟩ := right
  obtain rfl := site.opcode
  obtain rfl := site.index
  apply Agree.eq
  -- the cases stand together by what they ask of the site
  cases opcode
  case endCode | createTable => exact .of_eq rfl
  case returnValues | call | pop =>
    simp only [siteText, Traced.outcome_bind]
    exact .bind_same site.texts fun values _ => .of_eq rfl
  case pushNil | pushUpvalue =>
    simp only [siteText, Traced.outcome_bind, Traced.outcome_ofExcept, upvalueName, alike.options,
      alike.upvalues]
    exact .bind_same (site.u_eq rfl) fun number _ => .of_eq rfl
  case pushInt =>
    simp only [siteText, Traced.outcome_bind, Traced.outcome_ofExcept]
    exact .bind_same (site.s_eq rfl) fun number _ => .of_eq rfl
  case pushString =>
    simp only [siteText, Traced.outcome_bind]
    exact .bind_same (stringAt_eq alike.strings site rfl) fun text _ => .of_eq rfl
  case pushNumber =>
    simp only [siteText, Traced.outcome_bind]
    refine (numberAt_agree alike site rfl).bind fun number => ?_
    rw [number.general]
    exact .of_eq rfl
  case pushNegativeNumber =>
    simp only [siteText, Traced.outcome_bind]
    refine (numberAt_agree alike site rfl).bind fun number => ?_
    rw [number.neg.general]
    exact .of_eq rfl
  case getLocal => exact .of_eq (localAt_eq alike site rfl)
  case getGlobal => exact .of_eq (stringAt_eq alike.strings site rfl)
  case getTable =>
    simp only [siteText, Traced.outcome_bind]
    refine site.two.bind fun parts => ?_
    rw [parts.1.text, parts.2.text]
    exact .of_eq rfl
  case getDotted | pushSelf | setGlobal =>
    simp only [siteText, Traced.outcome_bind, stringAt_eq alike.strings site rfl]
    refine site.one.bind fun operand => ?_
    rw [operand.text]
    exact .of_eq rfl
  case getIndexed | setLocal =>
    simp only [siteText, Traced.outcome_bind, localAt_eq alike site rfl]
    refine site.one.bind fun operand => ?_
    rw [operand.text]
    exact .of_eq rfl
  case setTable =>
    simp only [siteText, Traced.outcome_bind]
    refine site.three.bind fun parts => ?_
    rw [parts.1.text, parts.2.1.text, parts.2.2.text]
    exact .of_eq rfl
  case addInt =>
    simp only [siteText, sumWithLiteral, Traced.outcome_bind, Traced.outcome_ofExcept]
    refine site.one.bind fun operand => .bind_same (site.s_eq rfl) fun amount _ => ?_
    rw [operand.wrapped]
    exact .of_eq rfl
  case concat =>
    simp only [siteText, Traced.outcome_bind, Traced.outcome_mapM]
    refine site.operands.bind fun operands => ?_
    exact .bind_same (Agree.mapM_eq operands fun part => part.wrapped) fun values _ => .of_eq rfl
  case minus | not =>
    simp only [siteText, negation, Traced.outcome_bind]
    refine site.one.bind fun operand => ?_
    rw [operand.wrapped]
    exact .of_eq rfl
  case jumpIfTrue | jumpIfFalse => exact .of_eq (truthTest_eq alike.options site _)
  case closure => exact .of_eq (closure_eq alike site rfl)
  case add | subtract | multiply | divide | power => exact .of_eq (binary_eq site _)
  case jumpNotEqual | jumpEqual | jumpLessThan | jumpLessThanEqual | jumpGreaterThan
    | jumpGreaterThanEqual => exact .of_eq (comparison_eq alike.options site _)
  all_goals exact site.refuse

private theorem parts_alike {nodes items : List Node} (same : List.Forall₂ Node.Alike nodes items)
    (texts : ∀ node ∈ nodes, ∀ {item}, node.Alike item →
      (scope.nodeText node).outcome = (other.nodeText item).outcome) :
    List.Forall₂ Part.Alike (scope.parts nodes) (other.parts items) := by
  rw [parts_eq_map, parts_eq_map, List.forall₂_map_left_iff, List.forall₂_map_right_iff]
  refine (forall₂_mem same).imp fun node item here => ?_
  obtain ⟨member, _, alike⟩ := here
  exact ⟨alike.instruction, alike.index, texts node member alike⟩

/-- Trees that are alike have the same text. -/
theorem nodeText_eq_of_alike (alike : scope.Alike other) {node : Node} :
    ∀ {item : Node}, node.Alike item →
      (scope.nodeText node).outcome = (other.nodeText item).outcome := by
  induction node using Node.induct with
  | step node ih =>
    intro item same
    have parts := parts_alike same.children ih
    rw [parts_eq_map, parts_eq_map] at parts
    apply Agree.eq
    rw [nodeText_eq, nodeText_eq]
    simp only [Traced.outcome_bind, Traced.outcome_ofExcept]
    refine .bind_same same.instruction.opcode_eq fun opcode known => ?_
    exact .of_eq (siteText_eq alike ⟨same.instruction, known, rfl, parts, same.index⟩)

theorem forestText_eq (alike : scope.Alike other) {forest trees : List Node}
    (same : List.Forall₂ Node.Alike forest trees) :
    (scope.forestText forest).outcome = (other.forestText trees).outcome := by
  have parts := parts_alike same fun node _ => nodeText_eq_of_alike alike
  simp only [forestText, emptyLayout, alike.options, Traced.outcome_bind]
  rw [addStatements_eq alike.options parts]

end Scope

end LuaLift
