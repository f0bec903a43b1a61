import LuaLift.Proofs.Forest.ProgramOrder
import LuaLift.Proofs.Source.Rendering

/-! Strict text leaves nothing out. Where a function has a text under strict options, every one of
its instructions is of a kind that can be written, and so are those of the functions inside it that
are reached through closures. -/
namespace LuaLift

/-- An instruction that can be written; where it is a condition, what it may skip lies ahead. -/
def Instruction.Expressible (instruction : Instruction) : Prop :=
  ∃ opcode, instruction.opcode = .ok opcode ∧ opcode.isUnwritten = false ∧
    (opcode.isCondition = true → ∃ distance, instruction.s = .ok distance ∧ 0 < distance)

namespace Scope

variable {scope : Scope} {node : Node}

/-- A node below another one with its own text. -/
def part (scope : Scope) (node : Node) : Part := ⟨node, ⟨fun _ => scope.nodeText node⟩⟩

theorem parts_eq_map (scope : Scope) (nodes : List Node) :
    scope.parts nodes = nodes.map scope.part := by
  induction nodes with
  | nil => simp [parts]
  | cons node rest ih => simp [parts, ih, part]

/-- A node about to be written. -/
def site (scope : Scope) (node : Node) (opcode : Opcode) : Site :=
  ⟨node.instruction, opcode, node.children.map scope.part, node.index⟩

theorem nodeText_eq (scope : Scope) (node : Node) :
    scope.nodeText node = (do
      let opcode ← (liftM node.instruction.opcode : Traced Opcode)
      scope.siteText (scope.site node opcode)) := by
  cases node with
  | mk instruction children index =>
    rw [nodeText, parts_eq_map]
    rfl

/-- A node's site splits as the node does. -/
theorem separate_site (scope : Scope) {operands body : List Node}
    (separated : node.separate = .ok (operands, body)) (opcode : Opcode) :
    (scope.site node opcode).separate.outcome =
      .ok (operands.map scope.part, body.map scope.part) := by
  simp only [Node.separate, bind_eq_ok, pure_eq_ok] at separated
  obtain ⟨needed, pops, ⟨taken, others, missing⟩, split, same⟩ := separated
  obtain ⟨rfl, rfl⟩ := Prod.mk.inj same
  simp only [site, Site.separate, Traced.bind_ok, Traced.outcome_ofExcept, Traced.pure_ok]
  exact ⟨needed, pops, _, Node.takePushed_map scope.part split, rfl⟩

theorem operands_of_fixed_pops (separated : node.separate = .ok (node.operands, node.body))
    (known : node.instruction.opcode = .ok opcode) (fixed : opcode.pops = .fixed 0) :
    node.operands = [] := by
  have pops : node.instruction.pops = .ok 0 := by
    rw [Instruction.pops_of_opcode known, fixed]
    rfl
  simp only [Node.separate, pops, bind_eq_ok, pure_eq_ok, Except.ok.injEq, exists_eq_left',
    Node.takePushed_zero, Prod.mk.injEq] at separated
  exact separated.1.symm

private theorem operand_written (separated : node.separate = .ok (node.operands, node.body))
    (reads : (scope.site node opcode).Reads) :
    ∀ operand ∈ node.operands, ∃ text, (scope.nodeText operand).outcome = .ok text := by
  obtain ⟨operands, body, taken, writes⟩ := reads
  have split := separate_site scope separated opcode
  obtain ⟨rfl, _⟩ := Prod.mk.inj (Except.ok.inj (taken.symm.trans split))
  intro operand member
  exact writes (scope.part operand) (List.mem_map_of_mem member)

private theorem statement_written (separated : node.separate = .ok (node.operands, node.body))
    (fills : (scope.site node opcode).Fills) :
    ∀ statement ∈ node.body, ∃ text, (scope.nodeText statement).outcome = .ok text := by
  obtain ⟨operands, body, taken, writes⟩ := fills
  have split := separate_site scope separated opcode
  obtain ⟨_, rfl⟩ := Prod.mk.inj (Except.ok.inj (taken.symm.trans split))
  intro statement member
  exact writes (scope.part statement) (List.mem_map_of_mem member)

/-- Whatever skips ahead and can be written is written as a condition. -/
theorem isCondition_of_skipsAhead {instruction : Instruction}
    (known : instruction.opcode = .ok opcode) (modelled : opcode.isUnwritten = false)
    (ahead : instruction.skipsAhead = .ok true) : opcode.isCondition = true := by
  obtain ⟨jump, _⟩ := Instruction.skipsAhead_eq_true.mp ahead
  obtain ⟨other, also, jumps⟩ := Instruction.isJump_eq_ok.mp jump
  obtain rfl := Except.ok.inj (known.symm.trans also)
  exact Opcode.isCondition_of_isJump jumps modelled

/-- What a scope shows of an instruction it writes. -/
structure Renders (scope : Scope) (instruction : Instruction) : Prop where
  expressible : instruction.Expressible
  calls : instruction.opcode = .ok .closure → scope.Calls instruction

/-- A written node is of a kind that can be written, and nothing below it goes unwritten. -/
theorem nodeText_written (strict : scope.options.strict = true) (tidy : node.Tidy)
    (written : (scope.nodeText node).outcome = .ok text) :
    scope.Renders node.instruction ∧
      ∀ child ∈ node.children, ∃ shown, (scope.nodeText child).outcome = .ok shown := by
  rw [nodeText_eq] at written
  simp only [Traced.bind_ok, Traced.outcome_ofExcept] at written
  obtain ⟨opcode, known, written⟩ := written
  obtain ⟨modelled, reads, condition, calls⟩ := siteText_written strict written
  cases tidy with
  | node separated bodiless operandsTidy bodyTidy =>
    constructor
    · refine ⟨⟨opcode, known, modelled, ?_⟩, ?_⟩
      · intro asks
        exact (Instruction.skipsAhead_eq_true.mp (condition asks).1).2
      · intro closure
        exact calls (Except.ok.inj (known.symm.trans closure))
    · intro child member
      rw [← node.operands_append_body, List.mem_append] at member
      rcases member with operand | statement
      · rcases reads with fixed | reads
        · rw [operands_of_fixed_pops separated known fixed] at operand
          cases operand
        · exact operand_written separated reads child operand
      · rcases bodiless with ahead | empty
        · have asks := isCondition_of_skipsAhead known modelled ahead
          exact statement_written separated (condition asks).2 child statement
        · rw [empty] at statement
          cases statement

/-- A written tree holds nothing but instructions that the scope writes. -/
theorem renders_of_nodeText (strict : scope.options.strict = true) (tidy : node.Tidy)
    (written : (scope.nodeText node).outcome = .ok text) :
    ∀ item ∈ node.program, scope.Renders item.2 := by
  induction tidy generalizing text with
  | @node node separated bodiless operandsTidy bodyTidy ihOperands ihBody =>
    have tidy : node.Tidy := .node separated bodiless operandsTidy bodyTidy
    obtain ⟨own, below⟩ := nodeText_written strict tidy written
    intro item member
    rw [Node.program_eq, List.mem_append, List.mem_cons] at member
    rcases member with above | same | inside
    · obtain ⟨operand, among, member⟩ :=
        Node.mem_programOf.mp (Node.mem_programOf_reverse.mp above)
      have child : operand ∈ node.children := by
        rw [← node.operands_append_body]
        exact List.mem_append_left _ among
      obtain ⟨shown, text⟩ := below operand child
      exact ihOperands operand among text item member
    · subst item
      exact own
    · obtain ⟨statement, among, member⟩ := Node.mem_programOf.mp inside
      have child : statement ∈ node.children := by
        rw [← node.operands_append_body]
        exact List.mem_append_right _ among
      obtain ⟨shown, text⟩ := below statement child
      exact ihBody statement among text item member

/-- So does a written forest. -/
theorem renders_of_forestText (strict : scope.options.strict = true) {forest : List Node}
    (tidy : ∀ node ∈ forest, node.Tidy)
    (written : (scope.forestText forest).outcome = .ok text) :
    ∀ item ∈ Node.programOf forest, scope.Renders item.2 := by
  simp only [forestText, parts_eq_map, Traced.bind_ok] at written
  obtain ⟨layout, added, _⟩ := written
  intro item member
  obtain ⟨node, among, inside⟩ := Node.mem_programOf.mp member
  obtain ⟨shown, text⟩ :=
    writes_of_addStatements strict added (scope.part node) (List.mem_map_of_mem among)
  exact renders_of_nodeText strict (tidy node among) text item inside

end Scope

theorem itemAt?_map (view : α → β) (items : List α) (index : Int) :
    itemAt? (items.map view) index = (itemAt? items index).map view := by
  unfold itemAt?
  split <;> simp [← List.map_reverse]

namespace Prototype

variable {options : Options} {prototype : Prototype} {upvalues : List Text}

/-- The text of a closure of the prototype, given the texts of what it captures. -/
def closureText (options : Options) (detailed : Bool) (prototype : Prototype)
    (upvalues : List Text) : Traced Text := do
  let body ← bodyText options detailed prototype upvalues
  options.functionText (prototype.parameters options) body

theorem closureTexts_eq_map (options : Options) (detailed : Bool) (functions : List Prototype) :
    closureTexts options detailed functions = functions.map (closureText options detailed) := by
  induction functions with
  | nil => simp [closureTexts]
  | cons prototype rest ih =>
    rw [closureTexts, ih]
    rfl

theorem bodyText_eq (options : Options) (detailed : Bool) (prototype : Prototype)
    (upvalues : List Text) :
    prototype.bodyText options detailed upvalues = (do
      let forest ← Forest.build ⟨some prototype.functions.length, detailed⟩ 0 prototype.code
      (prototype.scope options detailed upvalues).forestText forest) := by
  cases prototype
  rw [bodyText]
  rfl

theorem bodyText_eq_ok : (prototype.bodyText options detailed upvalues).outcome = .ok text ↔
    ∃ forest, (Forest.build ⟨some prototype.functions.length, detailed⟩ 0
        prototype.code).outcome = .ok forest ∧
      ((prototype.scope options detailed upvalues).forestText forest).outcome = .ok text := by
  rw [bodyText_eq, Traced.bind_ok]

/-- A function with a text has all its instructions in that text. -/
theorem renders_of_bodyText (strict : options.strict = true)
    (written : (prototype.bodyText options detailed upvalues).outcome = .ok text) :
    ∀ instruction ∈ prototype.code,
      (prototype.scope options detailed upvalues).Renders instruction := by
  obtain ⟨forest, built, shown⟩ := bodyText_eq_ok.mp written
  have trace := Forest.build_sound built
  have rendered := Scope.renders_of_forestText strict (trace.tidy (by simp)) shown
  intro instruction member
  rw [← numbered_map_snd 0 prototype.code, List.mem_map] at member
  obtain ⟨item, among, rfl⟩ := member
  apply rendered item
  exact trace.perm.symm.subset (by simpa using among)

/-- The functions that closures lead to, from closure to closure. -/
inductive Reached (outer : Prototype) : Prototype → Prop where
  | self : Reached outer outer
  | closure {middle inner : Prototype} {instruction : Instruction} {number : Int}
      (reached : Reached outer middle) (member : instruction ∈ middle.code)
      (known : instruction.opcode = .ok .closure) (reads : instruction.a = .ok number)
      (named : itemAt? middle.functions number = some inner) : Reached outer inner

/-- A function that is reached has a text of its own, for some texts of what it captures. -/
theorem Reached.written {inner : Prototype} (reached : prototype.Reached inner)
    (strict : options.strict = true)
    (written : (prototype.bodyText options detailed upvalues).outcome = .ok text) :
    ∃ captured shown, (inner.bodyText options detailed captured).outcome = .ok shown := by
  induction reached with
  | self => exact ⟨upvalues, text, written⟩
  | @closure middle inner instruction number reached member known reads named ih =>
    obtain ⟨captured, shown, middleWritten⟩ := ih
    obtain ⟨other, function, values, text, also, found, called⟩ :=
      (renders_of_bodyText strict middleWritten instruction member).calls known
    obtain rfl := Except.ok.inj (also.symm.trans reads)
    rw [scope, closureTexts_eq_map, itemAt?_map, named, Option.map_some] at found
    obtain rfl := Option.some.inj found
    simp only [closureText, Traced.bind_ok] at called
    obtain ⟨body, inside, _⟩ := called
    exact ⟨values, body, inside⟩

/-- Where strict options give a text, nothing in the function, nor in any function that its closures
lead to, is left out of it. -/
theorem expressible_of_bodyText {inner : Prototype} (strict : options.strict = true)
    (written : (prototype.bodyText options detailed upvalues).outcome = .ok text)
    (reached : prototype.Reached inner) :
    ∀ instruction ∈ inner.code, instruction.Expressible := by
  obtain ⟨captured, shown, innerWritten⟩ := reached.written strict written
  intro instruction member
  exact (renders_of_bodyText strict innerWritten instruction member).expressible

/-- A condition in a function that is reached through a closure. -/
theorem expressible_of_closure :
    let inner : Prototype := { (default : Prototype) with
      strings := ["done"]
      code := [⟨12, {}⟩, ⟨2147483750, {}⟩, ⟨2147483654, {}⟩, ⟨19, {}⟩, ⟨0, {}⟩] }
    let outer : Prototype := { (default : Prototype) with
      strings := ["run"]
      functions := [inner]
      code := [⟨48, {}⟩, ⟨19, {}⟩, ⟨0, {}⟩] }
    (outer.bodyText {} false []).outcome =
        .ok "run = function()\n  if (not done) then\n    done = 1\n  end\nend" ∧
      outer.Reached inner ∧ ∀ instruction ∈ inner.code, instruction.Expressible := by
  intro inner outer
  have written : (outer.bodyText {} false []).outcome =
      .ok "run = function()\n  if (not done) then\n    done = 1\n  end\nend" := by cbv
  have reached : outer.Reached inner :=
    .closure .self List.mem_cons_self rfl rfl rfl
  exact ⟨written, reached, expressible_of_bodyText (by rfl) written reached⟩

end Prototype

end LuaLift
