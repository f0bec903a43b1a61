import LuaLift.Proofs.Forest.Ownership
import LuaLift.Proofs.Layout
import LuaLift.Proofs.Prototype.Induction
import LuaLift.Proofs.Source.Agree
import LuaLift.Proofs.Text.Rows

/-! Writing the same trees twice. What every single step of writing keeps, whole trees and whole
functions keep: a text is put together from the texts below it, a layout is filled line by line, and
what cannot be written is refused on both sides. -/
namespace LuaLift

/-- The same site with other parts below it. -/
def Site.over (site : Site) (items : List Part) : Site := { site with parts := items }

/-- A way to compare two computations that are run step by step. Both may stop at the same fault, if
it is an allowed one. -/
structure Coupling where
  runs {α β : Type} : (α → β → Prop) → Traced α → Traced β → Prop
  faults : Fault → Prop
  pure {α β : Type} {related : α → β → Prop} {value : α} {other : β} :
    related value other → runs related (Pure.pure value) (Pure.pure other)
  throw {α β : Type} {related : α → β → Prop} {fault : Fault} :
    faults fault → runs related (MonadExcept.throw fault) (MonadExcept.throw fault)
  bind {α β γ δ : Type} {related : α → β → Prop} {result : γ → δ → Prop} {first : Traced α}
    {second : Traced β} {next : α → Traced γ} {follow : β → Traced δ} :
    runs related first second →
      (∀ {value other}, related value other → runs result (next value) (follow other)) →
      runs result (first >>= next) (second >>= follow)

/-- A way to compare also the texts that computations come to, and the layouts they fill at some
level, which every step of writing keeps. -/
structure Comparison extends Coupling where
  texts : Text → Text → Prop
  layouts : Nat → Layout → Layout → Prop
  same (text : Text) : texts text text
  append {left right first second : Text} :
    texts left first → texts right second → texts (left ++ right) (first ++ second)
  head {text other : Text} : texts text other → text.head? = other.head?
  line {layout filled : Layout} {text other : Text} : layouts 0 layout filled → texts text other →
    text.Begun → layouts 0 (layout.addLine text) (filled.addLine other)
  block {level : Nat} {layout filled : Layout} {text other : Text} : layouts level layout filled →
    texts text other → layouts level (layout.addBlock text) (filled.addBlock other)
  indent {level : Nat} {layout filled : Layout} : layouts level layout filled →
    layout.started = true → layouts (level + 1) layout.indent filled.indent
  dedent {level : Nat} {layout filled : Layout} : layouts (level + 1) layout filled →
    ∃ outer outside, layout.dedent = .ok outer ∧ filled.dedent = .ok outside ∧
      layouts level outer outside
  text {layout filled : Layout} : layouts 0 layout filled → texts layout.text filled.text

private theorem Layout.started_of_begun {text : Text} (begun : text.Begun) (layout : Layout) :
    (layout.addLine text).started = true := by
  rw [started_addLine, List.isEmpty_eq_false_iff.mpr begun.ne_nil, Bool.not_false, Bool.or_true]

/-- The same texts and the same layouts on both sides. -/
def Coupling.exact (coupling : Coupling) : Comparison where
  toCoupling := coupling
  texts := Eq
  layouts level layout filled := layout = filled ∧ layout.level = level
  same _ := rfl
  append first second := congrArg₂ (· ++ ·) first second
  head same := congrArg List.head? same
  line := by
    rintro layout _ text _ ⟨rfl, level⟩ rfl _
    exact ⟨rfl, (layout.level_addLine text).trans level⟩
  block := by
    rintro level layout _ text _ ⟨rfl, here⟩ rfl
    exact ⟨rfl, (layout.level_addBlock text).trans here⟩
  indent := by
    rintro level layout _ ⟨rfl, here⟩ _
    exact ⟨rfl, congrArg (· + 1) here⟩
  dedent := by
    rintro level layout _ ⟨rfl, here⟩
    refine ⟨{ layout with level := level }, _, ?_, ?_, rfl, rfl⟩ <;> rw [Layout.dedent, here]
  text same := congrArg Layout.text same.1

/-- Where no item is asked for in front of the first one, nothing is refused. -/
theorem Stops.findItem {allowed : Fault → Prop} {row : RowKind} {items : List α} {index : Int}
    (reach : 0 ≤ index ∨ allowed (.indexUnderflow row)) :
    Stops allowed (findItem row items index) := by
  rw [LuaLift.findItem]
  split
  · exact .error (reach.resolve_left (by omega))
  · exact .ok _

namespace Comparison

variable {c : Comparison}

section Steps

variable {related : α → β → Prop} {result : γ → δ → Prop} {items : List α} {others : List β}

/-- What is known without writing anything is known on both sides. -/
theorem lift {outcome : Except Fault α} {other : Except Fault β}
    (agree : Agree related outcome other) (stops : Stops c.faults outcome) :
    c.runs related (liftM outcome) (liftM other) := by
  cases agree with
  | ok alike => exact c.pure alike
  | error fault => exact c.throw (stops fault rfl)

theorem bind_lift {outcome : Except Fault α} {next : α → Traced γ} {follow : α → Traced δ}
    (stops : Stops c.faults outcome)
    (after : ∀ value, outcome = .ok value → c.runs result (next value) (follow value)) :
    c.runs result (liftM outcome >>= next) (liftM outcome >>= follow) := by
  cases outcome with
  | ok value => exact after value rfl
  | error fault => exact c.throw (stops fault rfl)

theorem mapM {action : α → Traced γ} {other : β → Traced δ}
    (alike : List.Forall₂ related items others)
    (step : ∀ {item another}, related item another → c.runs result (action item) (other another)) :
    c.runs (List.Forall₂ result) (items.mapM action) (others.mapM other) := by
  induction alike with
  | nil => exact c.pure .nil
  | cons here rest ih =>
    rw [List.mapM_cons, List.mapM_cons]
    exact c.bind (step here) fun head => c.bind ih fun tail => c.pure (.cons head tail)

theorem foldlM {action : γ → α → Traced γ} {other : δ → β → Traced δ}
    (alike : List.Forall₂ related items others)
    (step : ∀ {start finish item another}, result start finish → related item another →
      c.runs result (action start item) (other finish another))
    {start : γ} {finish : δ} (begin : result start finish) :
    c.runs result (items.foldlM action start) (others.foldlM other finish) := by
  induction alike generalizing start finish with
  | nil => exact c.pure begin
  | cons here rest ih =>
    rw [List.foldlM_cons, List.foldlM_cons]
    exact c.bind (step begin here) fun next => ih next

theorem join {pieces others : List Text} (separator : Text)
    (alike : List.Forall₂ c.texts pieces others) :
    c.texts (Text.join separator pieces) (Text.join separator others) := by
  induction alike with
  | nil => exact c.same []
  | cons here rest ih =>
    cases rest with
    | nil => simpa [Text.join] using here
    | cons next more =>
      have joined := c.append here (c.append (c.same separator) ih)
      simpa [Text.join, List.intercalate, List.intersperse] using joined

end Steps

/-- A part and another one for the same node, with texts to compare. -/
structure Parts (c : Comparison) (part item : Part) : Prop where
  node : part.node = item.node
  reads : part.node.instruction.Confined c.faults
  text : c.runs c.texts part.text item.text

/-- A place where every fault of an instruction is an allowed one. -/
structure Admits (c : Comparison) (index : Int) (instruction : Instruction) : Prop where
  confined : instruction.ConfinedAt c.faults index
  refused : ∀ opcode children, c.faults (.unsupported opcode children (some index))
  reach : ∀ field number, instruction.field field = .ok number →
    0 ≤ number ∨ ∀ row, c.faults (.indexUnderflow row)

/-- A site, and other parts to write it with. -/
structure Sites (c : Comparison) (site : Site) (items : List Part) : Prop where
  parts : List.Forall₂ c.Parts site.parts items
  admits : c.Admits site.index site.instruction

private theorem Parts.reads_all {parts items : List Part}
    (alike : List.Forall₂ c.Parts parts items) :
    ∀ part ∈ parts, part.node.instruction.Confined c.faults := by
  induction alike with
  | nil => exact List.forall_mem_nil _
  | cons here _ ih => exact List.forall_mem_cons.mpr ⟨here.reads, ih⟩

private theorem Parts.wrapped {part item : Part} (parts : c.Parts part item) :
    c.runs c.texts part.wrapped item.wrapped := by
  refine c.bind parts.text fun {text shown} alike => ?_
  rw [← parts.node]
  refine bind_lift parts.reads.opcode fun opcode _ => ?_
  by_cases compound : opcode.isCompound = true
  · rw [if_pos compound, if_pos compound]
    exact c.pure (c.append (c.append (c.same _) alike) (c.same _))
  · rw [if_neg compound, if_neg compound]
    exact c.pure alike

namespace Sites

variable {site : Site} {items : List Part} (sites : c.Sites site items)

include sites

theorem refuse {related : α → β → Prop} :
    c.runs related (site.refuse : Traced α) ((site.over items).refuse : Traced β) := by
  simp only [Site.refuse, Site.over, ← sites.parts.length_eq]
  exact c.throw (sites.admits.refused _ _)

private theorem separate :
    c.runs (fun first second => List.Forall₂ c.Parts first.1 second.1 ∧
        List.Forall₂ c.Parts first.2 second.2)
      site.separate (site.over items).separate := by
  refine bind_lift sites.admits.confined.reads.pops fun pops _ => ?_
  have agree := Node.takePushed_agree (fun {part item} (parts : c.Parts part item) =>
    congrArg (·.instruction.pushes) parts.node) sites.parts pops
  have stops : Stops c.faults (Node.takePushed (·.node.instruction.pushes) pops site.parts) :=
    Node.stops_takePushed (fun part member => (Parts.reads_all sites.parts part member).pushes) pops
  refine c.bind (lift agree stops) fun taken => ?_
  exact c.pure ⟨taken.operands, taken.others⟩

private theorem operands :
    c.runs (List.Forall₂ c.Parts) site.operands (site.over items).operands :=
  c.bind sites.separate fun parts => c.pure parts.1

private theorem body : c.runs (List.Forall₂ c.Parts) site.body (site.over items).body :=
  c.bind sites.separate fun parts => c.pure parts.2

private theorem texts :
    c.runs (List.Forall₂ c.texts) site.texts (site.over items).texts :=
  c.bind sites.operands fun operands => mapM operands fun part => part.text

private theorem one : c.runs c.Parts site.one (site.over items).one := by
  refine c.bind sites.operands fun operands => ?_
  cases operands with
  | nil => exact sites.refuse
  | cons operand rest =>
    cases rest with
    | nil => exact c.pure operand
    | cons _ _ => exact sites.refuse

private theorem two :
    c.runs (fun first second => c.Parts first.1 second.1 ∧ c.Parts first.2 second.2)
    site.two (site.over items).two := by
  refine c.bind sites.operands fun operands => ?_
  cases operands with
  | nil => exact sites.refuse
  | cons later rest =>
    cases rest with
    | nil => exact sites.refuse
    | cons earlier rest =>
      cases rest with
      | nil => exact c.pure ⟨later, earlier⟩
      | cons _ _ => exact sites.refuse

private theorem three : c.runs (fun first second => c.Parts first.1 second.1 ∧
    c.Parts first.2.1 second.2.1 ∧ c.Parts first.2.2 second.2.2)
    site.three (site.over items).three := by
  refine c.bind sites.operands fun operands => ?_
  cases operands with
  | nil => exact sites.refuse
  | cons latest rest =>
    cases rest with
    | nil => exact sites.refuse
    | cons later rest =>
      cases rest with
      | nil => exact sites.refuse
      | cons earlier rest =>
        cases rest with
        | nil => exact c.pure ⟨latest, later, earlier⟩
        | cons _ _ => exact sites.refuse

/-- What is only written for a jump ahead. -/
theorem guarded {write another : Traced Text} (written : c.runs c.texts write another) :
    c.runs c.texts
      (do
        if !(← (liftM site.instruction.skipsAhead : Traced Bool)) then site.refuse
        else write)
      (do
        if !(← (liftM site.instruction.skipsAhead : Traced Bool)) then
          (site.over items).refuse
        else another) := by
  refine bind_lift sites.admits.confined.reads.skipsAhead fun ahead _ => ?_
  cases ahead with
  | false => exact sites.refuse
  | true => exact written

end Sites

/-- Two scopes with the same constants, whose names, functions and statements compare. -/
structure Scopes (c : Comparison) (scope other : Scope) : Prop where
  strings : scope.strings = other.strings
  numbers : scope.numbers = other.numbers
  localNames : scope.localNames = other.localNames
  localName (given : Option Text) (slot : Int) :
    c.texts (scope.options.localName given slot) (other.options.localName given slot)
  upvalues : List.Forall₂ c.texts scope.upvalues other.upvalues
  upvaluePrefix : c.texts scope.options.upvaluePrefix other.options.upvaluePrefix
  functions : List.Forall₂ (fun function another : List Text → Traced Text =>
    ∀ {captured values}, List.Forall₂ c.texts captured values →
      c.runs c.texts (function captured) (another values)) scope.functions other.functions
  start : c.layouts 0 scope.emptyLayout other.emptyLayout
  statement {level : Nat} {layout filled : Layout} {part item : Part} :
    c.layouts level layout filled → c.Parts part item →
      c.runs (c.layouts level) (scope.addStatement layout part) (other.addStatement filled item)

section Writing

variable {scope other : Scope} {site : Site} {items : List Part} (scopes : c.Scopes scope other)
  (sites : c.Sites site items)

include scopes

private theorem addStatements {level : Nat} {layout filled : Layout} {parts items : List Part}
    (start : c.layouts level layout filled) (alike : List.Forall₂ c.Parts parts items) :
    c.runs (c.layouts level) (scope.addStatements layout parts)
      (other.addStatements filled items) :=
  foldlM alike scopes.statement start

omit scopes in
/-- Lines written one level deeper, below a first line. -/
theorem inside {level : Nat} {layout filled : Layout} {write another : Layout → Traced Layout}
    (start : c.layouts level layout filled) (started : layout.started = true)
    (step : ∀ {layout filled}, c.layouts (level + 1) layout filled →
      c.runs (c.layouts (level + 1)) (write layout) (another filled)) :
    c.runs (c.layouts level) (layout.inside write) (filled.inside another) := by
  refine c.bind (step (c.indent start started)) fun inner => ?_
  obtain ⟨outer, outside, left, right, same⟩ := c.dedent inner
  rw [left, right]
  exact c.pure same

include sites

private theorem conditional {condition shown : Text} (asked : c.texts condition shown) :
    c.runs c.texts (scope.conditional site condition)
      (other.conditional (site.over items) shown) := by
  refine c.bind sites.body fun body => ?_
  have begun : Text.Begun ("if (" ++ condition ++ ") then") := ⟨.char 'i', _, rfl, by decide⟩
  have opened := c.line scopes.start (c.append (c.append (c.same "if (") asked) (c.same ") then"))
    begun
  refine c.bind (inside opened (Layout.started_of_begun begun _) fun start =>
    addStatements scopes start body) fun filled => ?_
  exact c.pure (c.text (c.line filled (c.same "end") ⟨.char 'e', _, rfl, by decide⟩))

private theorem comparison (operator : Text) :
    c.runs c.texts (scope.comparison site operator)
      (other.comparison (site.over items) operator) := by
  refine sites.guarded (c.bind sites.two fun operands => ?_)
  refine c.bind operands.1.text fun right => c.bind operands.2.text fun left => ?_
  exact conditional scopes sites (c.append (c.append (c.append (c.append left (c.same " "))
    (c.same operator)) (c.same " ")) right)

private theorem truthTest (negated : Bool) :
    c.runs c.texts (scope.truthTest site negated) (other.truthTest (site.over items) negated) := by
  refine sites.guarded (c.bind sites.one fun operand => ?_)
  cases negated with
  | false => exact c.bind operand.text fun shown => conditional scopes sites shown
  | true =>
    refine c.bind operand.wrapped fun shown => ?_
    exact c.bind (c.pure (c.append (c.same "not ") shown)) fun asked =>
      conditional scopes sites asked

omit scopes in
private theorem binary (operator : Text) :
    c.runs c.texts (Scope.binary site operator) (Scope.binary (site.over items) operator) := by
  refine c.bind sites.two fun operands => ?_
  refine c.bind operands.2.wrapped fun left => c.bind operands.1.wrapped fun right => ?_
  exact c.pure (c.append (c.append (c.append (c.append left (c.same " ")) (c.same operator))
    (c.same " ")) right)

omit scopes in
private theorem stops_findItem {field : Field} {number : Int}
    (reads : site.instruction.field field = .ok number) (row : RowKind) (values : List α) :
    Stops c.faults (findItem row values number) :=
  .findItem ((sites.admits.reach field number reads).imp_right fun all => all row)

omit scopes in
/-- Where one pool has no item at some index, the other has none either. -/
theorem constant {related : α → β → Prop} {values : List α} {others : List β}
    (alike : List.Forall₂ related values others) (pool : PoolKind) (field : Field) {number : Int}
    (reads : site.instruction.field field = .ok number) :
    c.runs related (Scope.constant pool values number site.index)
      (Scope.constant pool others number site.index) := by
  rw [Scope.constant, Scope.constant, alike.length_eq]
  have found := lift (findItem_agree .list alike number) (stops_findItem sites reads .list values)
  refine c.bind found fun same => ?_
  cases same with
  | none => exact c.throw (sites.admits.confined.malformed _)
  | some here => exact c.pure here

private theorem stringAt : c.runs Eq (scope.stringAt site) (other.stringAt (site.over items)) := by
  refine bind_lift sites.admits.confined.reads.u fun number reads => ?_
  rw [← scopes.strings]
  exact constant sites (List.forall₂_refl _) .string .u reads

private theorem nameAt :
    c.runs c.texts (scope.stringAt site) (other.stringAt (site.over items)) := by
  have named : c.runs c.texts (scope.stringAt site >>= Pure.pure)
      (other.stringAt (site.over items) >>= Pure.pure) := by
    refine c.bind (stringAt scopes sites) fun {name shown} same => ?_
    subst same
    exact c.pure (c.same name)
  simpa only [bind_pure] using named

private theorem numberAt : c.runs Eq (scope.numberAt site) (other.numberAt (site.over items)) := by
  refine bind_lift sites.admits.confined.reads.u fun number reads => ?_
  rw [← scopes.numbers]
  exact constant sites (List.forall₂_refl _) .number .u reads

private theorem localAt :
    c.runs c.texts (scope.localAt site) (other.localAt (site.over items)) := by
  refine bind_lift sites.admits.confined.reads.u fun slot reads => lift ?_ ?_
  · rw [Scope.localName, Scope.localName, ← scopes.localNames]
    exact .bind_same rfl fun given _ => .ok (scopes.localName given slot)
  · have reach : site.instruction.field .u = .ok slot := reads
    exact (stops_findItem sites reach .list scope.localNames).bind fun _ _ => .ok _

/-- A captured value is shown by its text on both sides, or by its slot. -/
theorem upvalueAt {slot : Int} (reads : site.instruction.field .u = .ok slot) :
    c.runs c.texts (liftM (scope.upvalueName slot)) (liftM (other.upvalueName slot)) := by
  have stops := stops_findItem sites reads .tuple scope.upvalues
  refine lift ((findItem_agree .tuple scopes.upvalues slot).bind fun captured => ?_)
    (stops.bind fun _ _ => .ok _)
  refine .ok (c.append (c.same "%") ?_)
  cases captured with
  | none => exact c.append scopes.upvaluePrefix (c.same _)
  | some same => exact same

omit scopes in
private theorem sumWithLiteral :
    c.runs c.texts (Scope.sumWithLiteral site) (Scope.sumWithLiteral (site.over items)) := by
  refine c.bind sites.one fun operand => ?_
  refine bind_lift sites.admits.confined.reads.s fun amount _ => ?_
  refine c.bind operand.wrapped fun text => ?_
  by_cases negative : amount < 0
  · rw [if_pos negative, if_pos negative]
    exact c.pure (c.append (c.append text (c.same _)) (c.same _))
  · rw [if_neg negative, if_neg negative]
    exact c.pure (c.append (c.append text (c.same _)) (c.same _))

omit scopes in
private theorem negation :
    c.runs c.texts (Scope.negation site) (Scope.negation (site.over items)) := by
  refine c.bind sites.one fun operand => c.bind operand.wrapped fun {text shown} alike => ?_
  rw [c.head alike]
  by_cases minus : shown.head? = some (.char '-')
  · rw [if_pos minus, if_pos minus]
    exact c.pure (c.append (c.append (c.same _) alike) (c.same _))
  · rw [if_neg minus, if_neg minus]
    exact c.pure (c.append (c.same _) alike)

private theorem closure :
    c.runs c.texts (scope.closure site) (other.closure (site.over items)) := by
  refine bind_lift sites.admits.confined.reads.a fun number reads => ?_
  refine c.bind (constant sites scopes.functions .function .a reads) fun function => ?_
  exact c.bind sites.texts fun captured => function (List.forall₂_reverse_iff.mpr captured)

/-- A site has texts that compare, or is refused on both sides. -/
theorem siteText : c.runs c.texts (scope.siteText site) (other.siteText (site.over items)) := by
  obtain ⟨instruction, opcode, parts, index⟩ := site
  -- the cases stand together by what they ask of the site
  cases opcode
  case endCode | createTable => exact c.pure (c.same _)
  case returnValues =>
    refine c.bind sites.texts fun values => ?_
    cases values with
    | nil => exact c.pure (c.same _)
    | cons latest others =>
      have reversed := List.forall₂_reverse_iff.mpr (.cons latest others)
      exact c.pure (c.append (c.same _) (join _ reversed))
  case call =>
    refine c.bind sites.texts fun {values texts} alike => ?_
    have reversed := List.forall₂_reverse_iff.mpr alike
    generalize values.reverse = captured at reversed
    generalize texts.reverse = shown at reversed
    cases reversed with
    | nil => exact c.throw (sites.admits.confined.malformed _)
    | cons callee arguments =>
      exact c.pure (c.append (c.append (c.append callee (c.same _)) (join _ arguments)) (c.same _))
  case pop =>
    refine c.bind sites.texts fun values => ?_
    exact c.pure (join _ (List.forall₂_reverse_iff.mpr values))
  case pushNil => exact bind_lift sites.admits.confined.reads.u fun count _ => c.pure (c.same _)
  case pushInt => exact bind_lift sites.admits.confined.reads.s fun number _ => c.pure (c.same _)
  case pushUpvalue =>
    exact bind_lift sites.admits.confined.reads.u fun slot reads => upvalueAt scopes sites reads
  case pushString =>
    refine c.bind (stringAt scopes sites) fun {text shown} same => ?_
    subst same
    exact c.pure (c.same _)
  case pushNumber | pushNegativeNumber =>
    refine c.bind (numberAt scopes sites) fun {number shown} same => ?_
    subst same
    exact c.pure (c.same _)
  case getLocal => exact localAt scopes sites
  case getGlobal => exact nameAt scopes sites
  case getTable =>
    refine c.bind sites.two fun operands => c.bind operands.1.text fun key => ?_
    refine c.bind operands.2.text fun table => ?_
    exact c.pure (c.append (c.append (c.append table (c.same _)) key) (c.same _))
  case getDotted | pushSelf =>
    refine c.bind sites.one fun operand => c.bind operand.text fun table => ?_
    refine c.bind (nameAt scopes sites) fun name => ?_
    exact c.pure (c.append (c.append table (c.same _)) name)
  case getIndexed =>
    refine c.bind sites.one fun operand => c.bind operand.text fun table => ?_
    refine c.bind (localAt scopes sites) fun key => ?_
    exact c.pure (c.append (c.append (c.append table (c.same _)) key) (c.same _))
  case setLocal =>
    refine c.bind sites.one fun operand => c.bind operand.text fun value => ?_
    refine c.bind (localAt scopes sites) fun name => ?_
    exact c.pure (c.append (c.append name (c.same _)) value)
  case setGlobal =>
    refine c.bind sites.one fun operand => c.bind operand.text fun value => ?_
    refine c.bind (nameAt scopes sites) fun name => ?_
    exact c.pure (c.append (c.append name (c.same _)) value)
  case setTable =>
    refine c.bind sites.three fun operands => c.bind operands.1.text fun value => ?_
    refine c.bind operands.2.1.text fun key => c.bind operands.2.2.text fun table => ?_
    exact c.pure (c.append (c.append (c.append (c.append table (c.same _)) key) (c.same _)) value)
  case addInt => exact sumWithLiteral sites
  case concat =>
    refine c.bind sites.operands fun operands => ?_
    refine c.bind (mapM operands fun part => part.wrapped) fun values => ?_
    exact c.pure (join _ (List.forall₂_reverse_iff.mpr values))
  case minus => exact negation sites
  case not =>
    refine c.bind sites.one fun operand => c.bind operand.wrapped fun text => ?_
    exact c.pure (c.append (c.same _) text)
  case jumpIfTrue | jumpIfFalse => exact truthTest scopes sites _
  case closure => exact closure scopes sites
  case add | subtract | multiply | divide | power => exact binary sites _
  case jumpNotEqual | jumpEqual | jumpLessThan | jumpLessThanEqual | jumpGreaterThan
    | jumpGreaterThanEqual => exact comparison scopes sites _
  all_goals exact sites.refuse

end Writing

/-- Every fault of the nodes, at any depth, is an allowed one. -/
def AdmitsAll (c : Comparison) (nodes : List Node) : Prop :=
  ∀ inner ∈ Node.preorderAll nodes, c.Admits inner.index inner.instruction

/-- Where all faults are allowed ones, no node raises another. -/
theorem admitsAll (allowed : ∀ fault, c.faults fault) (nodes : List Node) : c.AdmitsAll nodes := by
  intro inner _
  have reads := Instruction.confined_of_word (fun fault _ => allowed fault) inner.instruction
  exact ⟨⟨reads, fun _ => allowed _⟩, fun _ _ => allowed _, fun _ _ _ => .inr fun _ => allowed _⟩

/-- The parts of some nodes compare where the texts of the nodes do. -/
theorem parts_of_nodes {scope other : Scope} {nodes : List Node} (admits : c.AdmitsAll nodes)
    (texts : ∀ node ∈ nodes, c.runs c.texts (scope.nodeText node) (other.nodeText node)) :
    List.Forall₂ c.Parts (scope.parts nodes) (other.parts nodes) := by
  rw [Scope.parts_eq_map, Scope.parts_eq_map, List.forall₂_map_left_iff, List.forall₂_map_right_iff,
    List.forall₂_same]
  intro node member
  have own : node ∈ Node.preorderAll nodes := by
    refine Node.mem_preorderAll.mpr ⟨node, member, ?_⟩
    rw [Node.preorder_eq]
    exact List.mem_cons_self
  exact ⟨rfl, (admits node own).confined.reads, texts node member⟩

section Trees

variable {scope other : Scope} (scopes : c.Scopes scope other)

include scopes

/-- A tree has texts that compare. -/
theorem nodeText (node : Node) (admits : c.AdmitsAll [node]) :
    c.runs c.texts (scope.nodeText node) (other.nodeText node) := by
  induction node using Node.induct with
  | step node ih =>
    rw [AdmitsAll, Node.preorderAll_singleton, Node.preorder_eq] at admits
    obtain ⟨own, below⟩ := List.forall_mem_cons.mp admits
    have parts : List.Forall₂ c.Parts (scope.parts node.children) (other.parts node.children) := by
      refine parts_of_nodes below fun child member => ih child member ?_
      intro inner inside
      rw [Node.preorderAll_singleton] at inside
      exact below inner (Node.mem_preorderAll.mpr ⟨child, member, inside⟩)
    rw [Scope.parts_eq_map, Scope.parts_eq_map] at parts
    rw [Scope.nodeText_eq, Scope.nodeText_eq]
    refine bind_lift own.confined.reads.opcode fun opcode _ => ?_
    exact siteText scopes ⟨parts, own⟩

private theorem forestText {forest : List Node} (admits : c.AdmitsAll forest) :
    c.runs c.texts (scope.forestText forest) (other.forestText forest) := by
  have parts : List.Forall₂ c.Parts (scope.parts forest) (other.parts forest) := by
    refine parts_of_nodes admits fun node member => nodeText scopes node ?_
    intro inner inside
    rw [Node.preorderAll_singleton] at inside
    exact admits inner (Node.mem_preorderAll.mpr ⟨node, member, inside⟩)
  exact c.bind (addStatements scopes scopes.start parts) fun layout => c.pure (c.text layout)

end Trees

/-- Two ways to write functions whose names, empty layouts and statements compare. -/
structure Settings (c : Comparison) (options other : Options) : Prop where
  localName (given : Option Text) (slot : Int) :
    c.texts (options.localName given slot) (other.localName given slot)
  upvaluePrefix : c.texts options.upvaluePrefix other.upvaluePrefix
  start : c.layouts 0 { unit := options.indent } { unit := other.indent }
  statement {scope another : Scope} : scope.options = options → another.options = other →
    ∀ {level layout filled part item}, c.layouts level layout filled → c.Parts part item →
      c.runs (c.layouts level) (scope.addStatement layout part) (another.addStatement filled item)

section Functions

variable {options other : Options} {detailed : Bool} {prototype : Prototype}
  (settings : c.Settings options other)

include settings

private theorem functionText {parameters names : List Text} {body text : Text}
    (alike : List.Forall₂ c.texts parameters names) (same : c.texts body text) :
    c.runs c.texts (options.functionText parameters body) (other.functionText names text) := by
  have begun : Text.Begun ("function(" ++ Text.join ", " parameters ++ ")") :=
    ⟨.char 'f', _, rfl, by decide⟩
  have opened := c.line settings.start
    (c.append (c.append (c.same "function(") (join ", " alike)) (c.same ")")) begun
  refine c.bind (inside opened (Layout.started_of_begun begun _) fun {layout filled} start => ?_)
    fun filled => c.pure (c.text (c.line filled (c.same "end") ⟨.char 'e', _, rfl, by decide⟩))
  have empty : body.isEmpty = text.isEmpty := by
    rw [Bool.eq_iff_iff, List.isEmpty_iff, List.isEmpty_iff, ← List.head?_eq_none_iff,
      ← List.head?_eq_none_iff, c.head same]
  rw [empty]
  by_cases nothing : text.isEmpty = true
  · rw [if_pos nothing, if_pos nothing]
    exact c.pure start
  · rw [if_neg nothing, if_neg nothing]
    exact c.pure (c.block start same)

private theorem parameters (prototype : Prototype) :
    List.Forall₂ c.texts (prototype.parameters options) (prototype.parameters other) := by
  refine List.rel_append ?_ ?_
  · rw [List.forall₂_map_left_iff, List.forall₂_map_right_iff, List.forall₂_same]
    exact fun slot _ => settings.localName _ slot
  · exact List.forall₂_same.mpr fun text _ => c.same text

/-- The forest of a prototype is built on both sides, and its nodes raise no other faults than the
allowed ones. -/
def Builds (c : Comparison) (detailed : Bool) (prototype : Prototype) : Prop :=
  let forest := Forest.build ⟨some prototype.functions.length, detailed⟩ 0 prototype.code
  c.runs (fun trees others => trees = others ∧ c.AdmitsAll trees) forest forest

/-- A function has bodies that compare, and so have all functions inside it. -/
theorem bodyText (builds : ∀ part ∈ prototype.all, c.Builds detailed part)
    {upvalues values : List Text} (alike : List.Forall₂ c.texts upvalues values) :
    c.runs c.texts (prototype.bodyText options detailed upvalues)
      (prototype.bodyText other detailed values) := by
  induction prototype using Prototype.induct generalizing upvalues values with
  | step prototype ih =>
    obtain ⟨own, inside⟩ := Prototype.forall_mem_all_iff.mp builds
    have scopes : c.Scopes (prototype.scope options detailed upvalues)
        (prototype.scope other detailed values) := by
      refine ⟨rfl, rfl, rfl, settings.localName, alike, settings.upvaluePrefix, ?_, settings.start,
        settings.statement rfl rfl⟩
      simp only [Prototype.scope]
      rw [Prototype.closureTexts_eq_map, Prototype.closureTexts_eq_map, List.forall₂_map_left_iff,
        List.forall₂_map_right_iff, List.forall₂_same]
      intro inner member captured shown same
      refine c.bind (ih inner member (inside inner member) same) fun body => ?_
      exact functionText settings (parameters settings inner) body
    rw [Prototype.bodyText_eq, Prototype.bodyText_eq]
    refine c.bind own fun {forest trees} built => ?_
    obtain ⟨rfl, admits⟩ := built
    exact forestText scopes admits

end Functions

end Comparison

/-- A statement's text in a layout, or the comment that stands for a statement without one. -/
def Layout.addShown (layout : Layout) (node : Node) : Option Text → Traced Layout
  | some [] => pure layout
  | some text => pure (layout.addBlock text)
  | none => do
    let shown ← (liftM node.instruction.text : Traced Text)
    pure (layout.addComment
      ("unsupported: " ++ shown ++ " at " ++ Text.decimal node.index))

/-- A text can always be written, and a comment where its instruction can be shown. -/
theorem Layout.stops_addShown {allowed : Fault → Prop} (layout : Layout) {node : Node}
    (reads : node.instruction.Confined allowed) (text : Option Text) :
    Stops allowed (layout.addShown node text).outcome := by
  cases text with
  | none =>
    simp only [addShown, Traced.outcome_bind, Traced.outcome_ofExcept]
    exact reads.text.bind fun _ _ => .ok _
  | some text =>
    cases text with
    | nil => exact .ok layout
    | cons symbol rest => exact .ok _

theorem Coupling.addShown (coupling : Coupling) {level : Nat} {layout : Layout}
    (here : layout.level = level) {node : Node}
    (reads : node.instruction.Confined coupling.faults) (text : Option Text) :
    coupling.runs (coupling.exact.layouts level) (layout.addShown node text)
      (layout.addShown node text) := by
  cases text with
  | none =>
    refine Comparison.bind_lift (c := coupling.exact) reads.text fun shown _ => ?_
    exact coupling.pure ⟨rfl, (layout.level_addLine _).trans here⟩
  | some text =>
    cases text with
    | nil => exact coupling.pure ⟨rfl, here⟩
    | cons symbol rest => exact coupling.pure ⟨rfl, (layout.level_addBlock _).trans here⟩

namespace Scope

variable {scope : Scope}

/-- What comes of a statement that is refused: under lenient options a placeholder. -/
def spare (scope : Scope) : Fault → Traced (Option Text)
  | .unsupported opcode children index =>
    let fault := Fault.unsupported opcode children index
    if scope.options.strict then throw fault
    else do
      Traced.note (.placeholder fault)
      pure none
  | fault => throw fault

theorem addStatement_eq_bind (layout : Layout) (part : Part) :
    scope.addStatement layout part =
      tryCatch (some <$> part.text) scope.spare >>= layout.addShown part.node := rfl

theorem spare_of_strict (strict : scope.options.strict = true) (fault : Fault) :
    scope.spare fault = throw fault := by
  cases fault with
  | unsupported opcode children index => rw [spare, if_pos strict]
  | _ => rfl

theorem spare_of_lenient (lenient : scope.options.strict = false) (opcode : Text) (children : Nat)
    (index : Option Int) :
    scope.spare (.unsupported opcode children index) =
      ⟨.ok none, [.placeholder (.unsupported opcode children index)]⟩ := by
  simp only [spare, lenient]
  rfl

end Scope

end LuaLift
