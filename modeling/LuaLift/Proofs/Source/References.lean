import LuaLift.Proofs.Forest.References
import LuaLift.Proofs.Source.Comparison
import LuaLift.Proofs.Source.Supply

/-! Operands that name nothing. A closure without its function is refused while a forest is built,
and what is built has a callee below every call, so neither fault is met while a function is
written. Only nodes that do not come from code can have one. -/
namespace LuaLift

/-- A closure without its function, or a call without its callee. -/
def Fault.isDangling : Fault → Bool
  | malformed (.missingConstant .function _ _) _ _ | malformed .noCallee _ _ => true
  | _ => false

/-- What is read of a word stops at other faults. -/
theorem Instruction.reads_grounded (instruction : Instruction) :
    instruction.Confined (·.isDangling = false) := by
  apply confined_of_word
  intro fault word
  cases fault with
  | malformed problem index offset => cases word
  | _ => rfl

namespace Traced

/-- A result with some property, or a fault of another kind. -/
structure Grounded (good : α → Prop) (traced : Traced α) : Prop where
  stops : Stops (·.isDangling = false) traced.outcome
  result : ∀ value, traced.outcome = .ok value → good value

/-- Any result, or a fault of another kind. -/
abbrev Ends (traced : Traced α) : Prop := traced.Grounded fun _ => True

namespace Grounded

variable {good other : α → Prop} {kept : β → Prop}

theorem pure {value : α} (fine : good value) : (pure value : Traced α).Grounded good :=
  ⟨.ok value, fun _ same => Except.ok.inj same ▸ fine⟩

theorem throw {fault : Fault} (among : fault.isDangling = false) :
    (throw fault : Traced α).Grounded good :=
  ⟨.error among, nofun⟩

theorem weaken {traced : Traced α} (grounded : traced.Grounded good)
    (enough : ∀ value, good value → other value) : traced.Grounded other :=
  ⟨grounded.stops, fun value done => enough value (grounded.result value done)⟩

private theorem ends {traced : Traced α} (grounded : traced.Grounded good) : traced.Ends :=
  grounded.weaken fun _ _ => trivial

/-- The result is also known as what the computation comes to. -/
theorem known {traced : Traced α} (grounded : traced.Grounded good) :
    traced.Grounded fun value => good value ∧ traced.outcome = .ok value :=
  ⟨grounded.stops, fun value done => ⟨grounded.result value done, done⟩⟩

theorem bind {first : Traced α} {next : α → Traced β} (start : first.Grounded good)
    (follow : ∀ value, good value → (next value).Grounded kept) :
    (first >>= next).Grounded kept := by
  constructor
  · rw [outcome_bind]
    exact start.stops.bind fun value done => (follow value (start.result value done)).stops
  · intro result done
    obtain ⟨value, first, later⟩ := bind_ok.mp done
    exact (follow value (start.result value first)).result result later

theorem bind_lift {outcome : Except Fault α} {next : α → Traced β}
    (stops : Stops (·.isDangling = false) outcome)
    (follow : ∀ value, outcome = .ok value → (next value).Grounded kept) :
    (liftM outcome >>= next).Grounded kept :=
  bind ⟨stops, fun _ => id⟩ follow

theorem mapM {action : α → Traced β} {items : List α} (each : ∀ item ∈ items, (action item).Ends) :
    (items.mapM action).Grounded fun results => results.length = items.length := by
  induction items with
  | nil => exact pure rfl
  | cons item rest ih =>
    obtain ⟨own, others⟩ := List.forall_mem_cons.mp each
    rw [List.mapM_cons]
    refine own.bind fun first _ => (ih others).bind fun results same => pure ?_
    rw [List.length_cons, List.length_cons, same]

theorem foldlM {step : β → α → Traced β} {items : List α}
    (each : ∀ value, ∀ item ∈ items, (step value item).Ends) (start : β) :
    (items.foldlM step start).Ends := by
  refine ⟨?_, fun _ _ => trivial⟩
  rw [outcome_foldlM]
  exact .foldlM (fun value item member => (each value item member).stops) start

/-- A fault that is caught is of another kind too. -/
theorem tryCatch {first : Traced α} {recover : Fault → Traced α} (tried : first.Ends)
    (caught : ∀ fault, fault.isDangling = false → (recover fault).Ends) :
    (tryCatch first recover).Ends := by
  refine ⟨?_, fun _ _ => trivial⟩
  cases ended : first.outcome with
  | ok value =>
    rw [tryCatch_of_ok ended]
    exact tried.stops
  | error fault =>
    rw [tryCatch_of_error ended]
    exact (caught fault (tried.stops fault ended)).stops

end Grounded

end Traced

/-- A part with a text, or refused for a fault of another kind. -/
def Part.Ends (part : Part) : Prop := part.text.Ends

private theorem Part.Ends.wrapped {part : Part} (ends : part.Ends) : part.wrapped.Ends := by
  refine ends.bind fun text _ => ?_
  refine .bind_lift part.node.instruction.reads_grounded.opcode fun opcode _ => ?_
  by_cases compound : opcode.isCompound = true
  · rw [if_pos compound]
    exact .pure trivial
  · rw [if_neg compound]
    exact .pure trivial

namespace Site

variable {site : Site} (parts : ∀ part ∈ site.parts, part.Ends)

private theorem refuse_grounded (site : Site) {good : α → Prop} :
    (site.refuse : Traced α).Grounded good := .throw rfl

include parts

private theorem separate_grounded : site.separate.Grounded fun both =>
    (∀ operand ∈ both.1, operand.Ends) ∧ ∀ statement ∈ both.2, statement.Ends := by
  refine .bind_lift site.instruction.reads_grounded.pops fun pops _ => ?_
  have taking : Stops (·.isDangling = false)
      (Node.takePushed (·.node.instruction.pushes) pops site.parts) :=
    Node.stops_takePushed (fun part _ => part.node.instruction.reads_grounded.pushes) pops
  refine .bind_lift taking fun taken known => .pure ?_
  rw [← Node.takePushed_append known] at parts
  exact List.forall_mem_append.mp parts

private theorem operands_grounded : site.operands.Grounded fun operands =>
    ∀ operand ∈ operands, operand.Ends :=
  (separate_grounded parts).bind fun _ both => .pure both.1

private theorem body_grounded : site.body.Grounded fun body => ∀ statement ∈ body, statement.Ends :=
  (separate_grounded parts).bind fun _ both => .pure both.2

/-- There are as many texts as operands. -/
theorem texts_grounded : site.texts.Grounded fun values =>
    ∃ operands, site.operands.outcome = .ok operands ∧ values.length = operands.length := by
  refine (operands_grounded parts).known.bind fun operands both => ?_
  exact (Traced.Grounded.mapM both.1).weaken fun values length => ⟨operands, both.2, length⟩

private theorem texts_ends : site.texts.Ends := (texts_grounded parts).ends

private theorem one_grounded : site.one.Grounded Part.Ends := by
  refine (operands_grounded parts).bind fun operands each => ?_
  split
  · exact .pure (each _ List.mem_cons_self)
  · exact site.refuse_grounded

private theorem two_grounded : site.two.Grounded fun pair => pair.1.Ends ∧ pair.2.Ends := by
  refine (operands_grounded parts).bind fun operands each => ?_
  split
  · exact .pure ⟨each _ (by simp), each _ (by simp)⟩
  · exact site.refuse_grounded

private theorem three_grounded :
    site.three.Grounded fun triple => triple.1.Ends ∧ triple.2.1.Ends ∧ triple.2.2.Ends := by
  refine (operands_grounded parts).bind fun operands each => ?_
  split
  · exact .pure ⟨each _ (by simp), each _ (by simp), each _ (by simp)⟩
  · exact site.refuse_grounded

omit parts in
/-- What is only written for a jump ahead. -/
theorem guarded_ends {write : Traced Text} (written : write.Ends) :
    (do
      if !(← (liftM site.instruction.skipsAhead : Traced Bool)) then site.refuse
      else write : Traced Text).Ends := by
  refine .bind_lift site.instruction.reads_grounded.skipsAhead fun ahead _ => ?_
  cases ahead with
  | false => exact site.refuse_grounded
  | true => exact written

end Site

namespace Scope

variable {scope : Scope} {site : Site}

private theorem addStatement_ends (layout : Layout) {part : Part} (ends : part.Ends) :
    (scope.addStatement layout part).Ends := by
  have tried : (some <$> part.text).Ends := by
    rw [map_eq_pure_bind]
    exact ends.bind fun _ _ => .pure trivial
  rw [addStatement_eq_bind]
  refine (tried.tryCatch fun fault other => ?_).bind fun text _ => ?_
  · cases strict : scope.options.strict with
    | true =>
      rw [spare_of_strict strict]
      exact .throw other
    | false =>
      cases fault with
      | unsupported opcode children index =>
        rw [spare_of_lenient strict]
        exact ⟨.ok none, fun _ _ => trivial⟩
      | _ => exact .throw other
  · exact ⟨layout.stops_addShown part.node.instruction.reads_grounded text, fun _ _ => trivial⟩

private theorem addStatements_ends (layout : Layout) {parts : List Part}
    (each : ∀ part ∈ parts, part.Ends) : (scope.addStatements layout parts).Ends :=
  .foldlM (fun next part member => addStatement_ends next (each part member)) layout

end Scope

private theorem Layout.inside_ends (layout : Layout) {write : Layout → Traced Layout}
    (written : (write layout.indent).Ends) : (layout.inside write).Ends := by
  refine written.bind fun inner _ => ⟨?_, fun _ _ => trivial⟩
  rw [Traced.outcome_ofExcept, dedent]
  cases inner.level with
  | zero => exact .error rfl
  | succ level => exact .ok _

namespace Scope

variable {scope : Scope} {site : Site} (parts : ∀ part ∈ site.parts, part.Ends)

include parts

private theorem conditional_ends (condition : Text) : (scope.conditional site condition).Ends := by
  refine (Site.body_grounded parts).bind fun body each => ?_
  exact (Layout.inside_ends _ (addStatements_ends _ each)).bind fun _ _ => .pure trivial

private theorem comparison_ends (operator : Text) : (scope.comparison site operator).Ends := by
  refine Site.guarded_ends ((Site.two_grounded parts).bind fun operands pair => ?_)
  exact pair.1.bind fun _ _ => pair.2.bind fun _ _ => conditional_ends parts _

private theorem truthTest_ends (negated : Bool) : (scope.truthTest site negated).Ends := by
  refine Site.guarded_ends ((Site.one_grounded parts).bind fun operand ends => ?_)
  cases negated with
  | false => exact ends.bind fun _ _ => conditional_ends parts _
  | true => exact ends.wrapped.bind fun _ _ => conditional_ends parts _

private theorem binary_ends (operator : Text) : (binary site operator).Ends := by
  refine (Site.two_grounded parts).bind fun operands pair => ?_
  exact pair.2.wrapped.bind fun _ _ => pair.1.wrapped.bind fun _ _ => .pure trivial

private theorem sumWithLiteral_ends : (sumWithLiteral site).Ends := by
  refine (Site.one_grounded parts).bind fun operand ends => ?_
  refine .bind_lift site.instruction.reads_grounded.s fun amount _ => ?_
  refine ends.wrapped.bind fun text _ => ?_
  split <;> exact .pure trivial

private theorem negation_ends : (negation site).Ends := by
  refine (Site.one_grounded parts).bind fun operand ends => ends.wrapped.bind fun text _ => ?_
  split <;> exact .pure trivial

omit parts in
private theorem constant_ends {pool : PoolKind} (items : List α) (number index : Int)
    (other : pool ≠ .function) : (constant pool items number index).Ends := by
  refine .bind_lift (.findItem (.inr rfl)) fun found _ => ?_
  cases found with
  | some item => exact .pure trivial
  | none =>
    apply Traced.Grounded.throw
    cases pool with
    | function => exact absurd rfl other
    | _ => rfl

omit parts in
private theorem stringAt_ends (scope : Scope) (site : Site) : (scope.stringAt site).Ends :=
  .bind_lift site.instruction.reads_grounded.u fun _ _ => constant_ends _ _ _ nofun

omit parts in
private theorem numberAt_ends (scope : Scope) (site : Site) : (scope.numberAt site).Ends :=
  .bind_lift site.instruction.reads_grounded.u fun _ _ => constant_ends _ _ _ nofun

omit parts in
private theorem localAt_ends (scope : Scope) (site : Site) : (scope.localAt site).Ends := by
  refine .bind_lift site.instruction.reads_grounded.u fun slot _ => ⟨?_, fun _ _ => trivial⟩
  exact Stops.bind (.findItem (.inr rfl)) fun _ _ => .ok _

omit parts in
private theorem upvalueName_ends (scope : Scope) (slot : Int) :
    (liftM (scope.upvalueName slot) : Traced Text).Ends :=
  ⟨Stops.bind (.findItem (.inr rfl)) fun _ _ => .ok _, fun _ _ => trivial⟩

end Scope

/-- A call has operands, and a closure names a function of the scope. -/
structure Site.Anchored (scope : Scope) (site : Site) : Prop where
  callee : site.opcode = .call → site.operands.outcome ≠ .ok []
  function : site.opcode = .closure → ∀ number, site.instruction.a = .ok number →
    ∃ function, itemAt? scope.functions number = some function

namespace Scope

variable {scope : Scope} {site : Site} (parts : ∀ part ∈ site.parts, part.Ends)
  (functions : ∀ function ∈ scope.functions, ∀ captured, (function captured).Ends)

include parts functions

private theorem closure_ends (closure : site.opcode = .closure) (anchored : site.Anchored scope) :
    (scope.closure site).Ends := by
  refine .bind_lift site.instruction.reads_grounded.a fun number reads => ?_
  obtain ⟨function, found⟩ := anchored.function closure number reads
  have named : (constant .function scope.functions number site.index).Grounded (· = function) := by
    have known : (constant .function scope.functions number site.index).outcome = .ok function :=
      constant_ok.mpr found
    exact ⟨known ▸ .ok function, fun other done => Except.ok.inj (done.symm.trans known)⟩
  refine named.bind fun _ same => ?_
  rw [same]
  refine (Site.texts_ends parts).bind fun captured _ => ?_
  exact functions function (mem_of_itemAt? found) _

/-- Writing an anchored site comes to no dangling operand. -/
theorem siteText_ends (anchored : site.Anchored scope) : (scope.siteText site).Ends := by
  obtain ⟨instruction, opcode, items, index⟩ := site
  -- the cases stand together by what they ask of the site
  cases opcode
  case endCode | createTable => exact .pure trivial
  case returnValues =>
    refine (Site.texts_ends parts).bind fun values _ => ?_
    split <;> exact .pure trivial
  case call =>
    refine (Site.texts_grounded parts).bind fun values same => ?_
    cases reversed : values.reverse with
    | cons callee arguments => exact .pure trivial
    | nil =>
      obtain rfl := List.reverse_eq_nil_iff.mp reversed
      obtain ⟨operands, taken, length⟩ := same
      obtain rfl := List.length_eq_zero_iff.mp length.symm
      exact absurd taken (anchored.callee rfl)
  case pop => exact (Site.texts_ends parts).bind fun _ _ => .pure trivial
  case pushNil => exact .bind_lift instruction.reads_grounded.u fun _ _ => .pure trivial
  case pushInt => exact .bind_lift instruction.reads_grounded.s fun _ _ => .pure trivial
  case pushUpvalue =>
    exact .bind_lift instruction.reads_grounded.u fun slot _ => upvalueName_ends scope slot
  case pushString => exact (stringAt_ends scope _).bind fun _ _ => .pure trivial
  case pushNumber | pushNegativeNumber =>
    exact (numberAt_ends scope _).bind fun _ _ => .pure trivial
  case getLocal => exact localAt_ends scope _
  case getGlobal => exact stringAt_ends scope _
  case getTable =>
    refine (Site.two_grounded parts).bind fun operands pair => ?_
    exact pair.1.bind fun _ _ => pair.2.bind fun _ _ => .pure trivial
  case getDotted | pushSelf =>
    refine (Site.one_grounded parts).bind fun operand ends => ends.bind fun _ _ => ?_
    exact (stringAt_ends scope _).bind fun _ _ => .pure trivial
  case setGlobal =>
    refine (Site.one_grounded parts).bind fun operand ends => ends.bind fun _ _ => ?_
    exact (stringAt_ends scope _).bind fun _ _ => .pure trivial
  case getIndexed | setLocal =>
    refine (Site.one_grounded parts).bind fun operand ends => ends.bind fun _ _ => ?_
    exact (localAt_ends scope _).bind fun _ _ => .pure trivial
  case setTable =>
    refine (Site.three_grounded parts).bind fun operands triple => triple.1.bind fun _ _ => ?_
    exact triple.2.1.bind fun _ _ => triple.2.2.bind fun _ _ => .pure trivial
  case addInt => exact sumWithLiteral_ends parts
  case concat =>
    refine (Site.operands_grounded parts).bind fun operands each => ?_
    refine (Traced.Grounded.mapM fun part member => (each part member).wrapped).bind fun _ _ => ?_
    exact .pure trivial
  case minus => exact negation_ends parts
  case not =>
    refine (Site.one_grounded parts).bind fun operand ends => ?_
    exact ends.wrapped.bind fun _ _ => .pure trivial
  case jumpIfTrue | jumpIfFalse => exact truthTest_ends parts _
  case closure => exact closure_ends parts functions rfl anchored
  case add | subtract | multiply | divide | power => exact binary_ends parts _
  case jumpNotEqual | jumpEqual | jumpLessThan | jumpLessThanEqual | jumpGreaterThan
    | jumpGreaterThanEqual => exact comparison_ends parts _
  all_goals exact Site.refuse_grounded _

end Scope

/-- A call with an operand below it, or a closure that names one of so many functions. -/
structure Node.Anchored (available : Nat) (node : Node) : Prop where
  separated : node.separate = .ok (node.operands, node.body)
  callee : node.instruction.opcode = .ok .call → node.operands ≠ []
  function : node.instruction.opcode = .ok .closure → ∀ number, node.instruction.a = .ok number →
    0 ≤ number ∧ number < available

private theorem exists_itemAt? {items : List α} {index : Int} (low : 0 ≤ index)
    (high : index < items.length) : ∃ item, itemAt? items index = some item := by
  obtain ⟨position, rfl⟩ := Int.eq_ofNat_of_zero_le low
  have inside : position < items.length := by omega
  exact ⟨items[position], by rw [itemAt?_natCast, List.getElem?_eq_getElem inside]⟩

/-- The site of an anchored node is anchored. -/
theorem Node.Anchored.site {scope : Scope} {node : Node}
    (anchored : node.Anchored scope.functions.length) (known : node.instruction.opcode = .ok opcode) :
    (scope.site node opcode).Anchored scope := by
  constructor
  · rintro rfl none
    simp only [Site.operands, Traced.outcome_bind,
      Scope.separate_site scope anchored.separated .call] at none
    exact anchored.callee known (List.map_eq_nil_iff.mp (Except.ok.inj none))
  · rintro rfl number reads
    obtain ⟨low, high⟩ := anchored.function known number reads
    exact exists_itemAt? low high

namespace Scope

variable {scope : Scope}
  (functions : ∀ function ∈ scope.functions, ∀ captured, (function captured).Ends)

include functions

private theorem nodeText_ends (node : Node)
    (anchored : ∀ inner ∈ node.preorder, inner.Anchored scope.functions.length) :
    (scope.nodeText node).Ends := by
  induction node using Node.induct with
  | step node ih =>
    rw [Node.preorder_eq] at anchored
    obtain ⟨own, below⟩ := List.forall_mem_cons.mp anchored
    rw [nodeText_eq]
    refine .bind_lift node.instruction.reads_grounded.opcode fun opcode known => ?_
    refine siteText_ends (List.forall_mem_map.mpr fun child member => ?_) functions (own.site known)
    refine ih child member fun inner inside => ?_
    exact below inner (Node.mem_preorderAll.mpr ⟨child, member, inside⟩)

private theorem forestText_ends {forest : List Node}
    (anchored : ∀ node ∈ Node.preorderAll forest, node.Anchored scope.functions.length) :
    (scope.forestText forest).Ends := by
  rw [forestText, parts_eq_map]
  refine (addStatements_ends _ (List.forall_mem_map.mpr fun node member => ?_)).bind
    fun _ _ => .pure trivial
  refine nodeText_ends functions node fun inner inside => ?_
  exact anchored inner (Node.mem_preorderAll.mpr ⟨node, member, inside⟩)

end Scope

namespace Forest

variable {forest : List Node} {code : List Instruction} {available : Nat} {detailed : Bool}

/-- What is built from words that are not negative is anchored at every depth. -/
theorem anchored_of_build (words : ∀ instruction ∈ code, 0 ≤ instruction.raw)
    (built : (build ⟨some available, detailed⟩ base code).outcome = .ok forest) :
    ∀ node ∈ Node.preorderAll forest, node.Anchored available := by
  intro node member
  have among := mem_code_of_build built member
  refine ⟨?_, ?_, ?_⟩
  · cases build_owns built node member with
    | intro _ _ separated => exact separated
  · intro known none
    obtain ⟨counts, needed, fed⟩ := fed_of_build built node member
    have pops := fed.pops
    rw [Instruction.pops_of_opcode known] at pops
    obtain ⟨number, reads, total⟩ := bind_eq_ok.mp pops
    have low := Instruction.nonneg_of_field (words _ among) reads
    have needed : 1 * number + 1 = needed := pure_eq_ok.mp total
    have pushes := fed.pushes
    rw [none] at pushes
    cases pushes
    have enough := fed.enough
    rw [List.sum_nil] at enough
    omega
  · intro known number reads
    obtain ⟨other, also, small⟩ := (build_checked.mp built).2 _ among known
    obtain rfl := Except.ok.inj (reads.symm.trans also)
    have field : node.instruction.field .a = .ok number := reads
    exact ⟨Instruction.nonneg_of_field (words _ among) field, small⟩

private theorem build_ends (watch : Watch) (base : Int) (code : List Instruction) :
    (build watch base code).Ends := by
  refine ⟨stops_build watch fun item _ => ⟨item.2.reads_grounded, ?_⟩, fun _ _ => trivial⟩
  intro problem forest
  cases problem
  case missingConstant | noCallee => cases forest
  all_goals rfl

end Forest

private theorem Options.functionText_ends (options : Options) (parameters : List Text)
    (body : Text) :
    (options.functionText parameters body).Ends := by
  refine Traced.Grounded.bind (Layout.inside_ends _ ?_) fun _ _ => .pure trivial
  exact .pure trivial

namespace Scope

variable {node : Node}

/-- A call without an operand below it is refused. -/
theorem nodeText_of_no_callee (scope : Scope) (known : node.instruction.opcode = .ok .call)
    (pops : node.instruction.pops = .ok needed) (bare : node.children = []) :
    (scope.nodeText node).outcome = .error (.malformed .noCallee (some node.index) none) := by
  have operands : (scope.site node .call).operands.outcome = .ok [] := by
    have separated : node.separate = .ok ([], []) := by
      rw [Node.separate, pops, bare]
      rfl
    rw [Site.operands, Traced.outcome_bind, separate_site scope separated .call]
    rfl
  have texts : (scope.site node .call).texts.outcome = .ok [] := by
    rw [Site.texts, Traced.outcome_bind, operands]
    rfl
  rw [nodeText_eq, Traced.outcome_bind, Traced.outcome_ofExcept, known]
  exact Traced.outcome_bind_of_ok _ texts

/-- A closure that names no function of the scope is refused. -/
theorem nodeText_of_no_function (scope : Scope) (known : node.instruction.opcode = .ok .closure)
    (reads : node.instruction.a = .ok number) (beyond : scope.functions.length ≤ number) :
    (scope.nodeText node).outcome = .error (.malformed
      (.missingConstant .function number scope.functions.length) (some node.index) none) := by
  have low : 0 ≤ number := (Int.natCast_nonneg _).trans beyond
  have missing : itemAt? scope.functions number = none := by
    obtain ⟨position, rfl⟩ := Int.eq_ofNat_of_zero_le low
    rw [itemAt?_natCast, List.getElem?_eq_none (Int.ofNat_le.mp beyond)]
  have found : (constant .function scope.functions number node.index).outcome =
      .error (.malformed (.missingConstant .function number scope.functions.length)
        (some node.index) none) := by
    rw [constant, findItem_of_nonneg _ low, missing]
    rfl
  rw [nodeText_eq, Traced.outcome_bind, Traced.outcome_ofExcept, known]
  change (scope.closure (scope.site node .closure)).outcome = _
  rw [closure, Traced.outcome_bind, Traced.outcome_ofExcept, site, reads]
  exact Traced.outcome_bind_of_error _ found

end Scope

namespace Prototype

private theorem bodyText_ends (options : Options) (detailed : Bool) (prototype : Prototype)
    (upvalues : List Text)
    (words : ∀ part ∈ prototype.all, ∀ instruction ∈ part.code, 0 ≤ instruction.raw) :
    (prototype.bodyText options detailed upvalues).Ends := by
  induction prototype using Prototype.induct generalizing upvalues with
  | step prototype ih =>
    obtain ⟨own, inside⟩ := forall_mem_all_iff.mp words
    rw [bodyText_eq]
    refine (Forest.build_ends _ 0 prototype.code).known.bind fun forest built => ?_
    have functions : (closureTexts options detailed prototype.functions).length =
        prototype.functions.length := by
      rw [closureTexts_eq_map, List.length_map]
    refine Scope.forestText_ends ?_ ?_
    · rw [scope, closureTexts_eq_map]
      refine List.forall_mem_map.mpr fun inner member captured => ?_
      exact (ih inner member captured (inside inner member)).bind
        fun body _ => options.functionText_ends _ body
    · rw [scope, functions]
      exact Forest.anchored_of_build own built.2

/-- Where closures are checked against a number of prototypes, a forest is built just where it is
built without a check and every closure of the code names one of them, and it is the same. So the
text of a function is never refused for a dangling operand, nor that of a function inside it. A node
that does not come from code can be refused for either. -/
theorem bodyText_grounded (options : Options) (detailed : Bool) (prototype : Prototype)
    (upvalues : List Text) :
    (∀ available base code forest,
        (Forest.build ⟨some available, detailed⟩ base code).outcome = .ok forest ↔
          (Forest.build ⟨none, detailed⟩ base code).outcome = .ok forest ∧
            ∀ instruction ∈ code, instruction.RefersBelow available) ∧
      ((∀ part ∈ prototype.all, ∀ instruction ∈ part.code, 0 ≤ instruction.raw) →
        ∀ fault, (prototype.bodyText options detailed upvalues).outcome = .error fault →
          fault.isDangling = false) ∧
      ∀ (scope : Scope) (node : Node),
        (∀ needed, node.instruction.opcode = .ok .call → node.instruction.pops = .ok needed →
          node.children = [] → (scope.nodeText node).outcome =
            .error (.malformed .noCallee (some node.index) none)) ∧
        ∀ number, node.instruction.opcode = .ok .closure → node.instruction.a = .ok number →
          scope.functions.length ≤ number → (scope.nodeText node).outcome =
            .error (.malformed (.missingConstant .function number scope.functions.length)
              (some node.index) none) := by
  refine ⟨fun _ _ _ _ => Forest.build_checked, fun words => ?_, fun scope node => ⟨?_, ?_⟩⟩
  · exact (bodyText_ends options detailed prototype upvalues words).stops
  · exact fun _ known pops bare => scope.nodeText_of_no_callee known pops bare
  · exact fun _ known reads beyond => scope.nodeText_of_no_function known reads beyond

/-- An inner function with a jump that is not modelled, and its closure in a function with one
function. A call and a closure that are made by hand stand beside it. -/
theorem bodyText_grounded_of_closure :
    let inner : Prototype := { (default : Prototype) with
      strings := ["done"]
      code := [⟨12, {}⟩, ⟨2147483687, {}⟩, ⟨2147483626, {}⟩, ⟨0, {}⟩] }
    let outer : Prototype := { (default : Prototype) with
      strings := ["run"]
      functions := [inner]
      code := [⟨48, {}⟩, ⟨19, {}⟩, ⟨0, {}⟩] }
    let fault : Fault := .unsupported "JUMP" 0 (some 2)
    let forest : List Node := [⟨⟨19, {}⟩, [⟨⟨48, {}⟩, [], 0⟩], 1⟩, ⟨⟨0, {}⟩, [], 2⟩]
    let scope := outer.scope {} false []
    (∀ part ∈ outer.all, ∀ instruction ∈ part.code, 0 ≤ instruction.raw) ∧
      (outer.bodyText {} false []).outcome = .error fault ∧ fault.isDangling = false ∧
      (Forest.build ⟨none, false⟩ 0 outer.code).outcome = .ok forest ∧
      (Forest.build ⟨some 1, false⟩ 0 outer.code).outcome = .ok forest ∧
      (Forest.build ⟨some 0, false⟩ 0 outer.code).outcome ≠ .ok forest ∧
      (scope.nodeText ⟨⟨2, {}⟩, [], 0⟩).outcome = .error (.malformed .noCallee (some 0) none) ∧
      (scope.nodeText ⟨⟨32816, {}⟩, [], 0⟩).outcome =
        .error (.malformed (.missingConstant .function 1 1) (some 0) none) := by
  intro inner outer fault forest scope
  have words : ∀ part ∈ outer.all, ∀ instruction ∈ part.code, 0 ≤ instruction.raw :=
    forall_mem_all_iff.mpr ⟨by decide, List.forall_mem_singleton.mpr
      (forall_mem_all_iff.mpr ⟨by decide, List.forall_mem_nil _⟩)⟩
  have refused : (outer.bodyText {} false []).outcome = .error fault := by cbv
  have built : (Forest.build ⟨none, false⟩ 0 outer.code).outcome = .ok forest := by cbv
  have number : (⟨48, {}⟩ : Instruction).a = .ok 0 := by cbv
  obtain ⟨checked, grounded, handmade⟩ := bodyText_grounded {} false outer []
  refine ⟨words, refused, grounded words fault refused, built,
    (checked 1 0 outer.code forest).mpr ⟨built, ?_⟩, fun passed => ?_,
    (handmade scope _).1 1 (by cbv) (by cbv) rfl,
    (handmade scope _).2 1 (by cbv) (by cbv) (by decide)⟩
  · refine List.forall_mem_cons.mpr ⟨fun _ => ⟨0, number, by decide⟩, ?_⟩
    exact List.forall_mem_cons.mpr ⟨fun closes => absurd closes (by decide),
      List.forall_mem_singleton.mpr fun closes => absurd closes (by decide)⟩
  · obtain ⟨_, refers⟩ := (checked 0 0 outer.code forest).mp passed
    obtain ⟨other, reads, small⟩ := refers ⟨48, {}⟩ List.mem_cons_self (by cbv)
    obtain rfl := Except.ok.inj (number.symm.trans reads)
    exact absurd small (by decide)

end Prototype

end LuaLift
