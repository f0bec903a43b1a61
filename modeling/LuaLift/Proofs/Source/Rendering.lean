import LuaLift.Proofs.Forest.Fold
import LuaLift.Source.Function

/-! What has to be written for a node to be written. Under strict options a node has a text only if
all its operands and all statements of its body have one, and if its own instruction is one of those
that can be written. -/
namespace LuaLift

namespace Opcode

/-- The instructions without a faithful text. -/
def isUnwritten : Opcode → Bool
  | tailCall | setList | setMap | jumpOnTrue | jumpOnFalse | jump | pushNilJump | forPrep | forLoop
  | lforPrep | lforLoop => true
  | _ => false

/-- The jumps that are written as conditions. -/
def isCondition (opcode : Opcode) : Bool :=
  opcode.isComparisonJump || opcode = jumpIfTrue || opcode = jumpIfFalse

/-- A jump that can be written is written as a condition. -/
theorem isCondition_of_isJump {opcode : Opcode} (jumps : opcode.isJump = true)
    (modelled : opcode.isUnwritten = false) : opcode.isCondition = true := by
  cases opcode <;> first | rfl | exact absurd jumps (by decide) | exact absurd modelled (by decide)

end Opcode

def Part.Writes (part : Part) : Prop := ∃ text, part.text.outcome = .ok text

private theorem Part.writes_of_wrapped {part : Part} {text : Text}
    (written : part.wrapped.outcome = .ok text) : part.Writes := by
  simp only [wrapped, Traced.bind_ok] at written
  obtain ⟨inner, found, _⟩ := written
  exact ⟨inner, found⟩

namespace Site

variable {site : Site} {operands body : List Part} {operand latest later earlier : Part}

/-- All operands of the site have a text. -/
def Reads (site : Site) : Prop :=
  ∃ operands body, site.separate.outcome = .ok (operands, body) ∧
    ∀ operand ∈ operands, operand.Writes

/-- All statements that the site may skip have a text. -/
def Fills (site : Site) : Prop :=
  ∃ operands body, site.separate.outcome = .ok (operands, body) ∧
    ∀ statement ∈ body, statement.Writes

private theorem fills_of_body (taken : site.body.outcome = .ok body)
    (writes : ∀ statement ∈ body, statement.Writes) : site.Fills := by
  simp only [Site.body, Traced.bind_ok, Traced.pure_ok] at taken
  obtain ⟨⟨operands, body⟩, separated, rfl⟩ := taken
  exact ⟨operands, body, separated, writes⟩

private theorem separate_of_operands (taken : site.operands.outcome = .ok operands) :
    ∃ body, site.separate.outcome = .ok (operands, body) := by
  obtain ⟨⟨operands, body⟩, separated, same⟩ := Traced.bind_ok.mp taken
  obtain rfl := Traced.pure_ok.mp same
  exact ⟨body, separated⟩

private theorem reads_of_operands (taken : site.operands.outcome = .ok operands)
    (writes : ∀ operand ∈ operands, operand.Writes) : site.Reads := by
  obtain ⟨body, separated⟩ := separate_of_operands taken
  exact ⟨operands, body, separated, writes⟩

private theorem reads_of_texts (written : site.texts.outcome = .ok values) : site.Reads := by
  simp only [texts, Traced.bind_ok] at written
  obtain ⟨operands, taken, mapped⟩ := written
  exact reads_of_operands taken fun operand member => Traced.exists_of_mapM mapped member

theorem separate_of_one (single : site.one.outcome = .ok operand) :
    ∃ body, site.separate.outcome = .ok ([operand], body) := by
  obtain ⟨operands, taken, chosen⟩ := Traced.bind_ok.mp single
  split at chosen
  · obtain rfl := Traced.pure_ok.mp chosen
    exact separate_of_operands taken
  · cases chosen

theorem separate_of_two (pair : site.two.outcome = .ok (later, earlier)) :
    ∃ body, site.separate.outcome = .ok ([later, earlier], body) := by
  obtain ⟨operands, taken, chosen⟩ := Traced.bind_ok.mp pair
  split at chosen
  · obtain ⟨rfl, rfl⟩ := Prod.mk.inj (Traced.pure_ok.mp chosen)
    exact separate_of_operands taken
  · cases chosen

theorem separate_of_three (triple : site.three.outcome = .ok (latest, later, earlier)) :
    ∃ body, site.separate.outcome = .ok ([latest, later, earlier], body) := by
  obtain ⟨operands, taken, chosen⟩ := Traced.bind_ok.mp triple
  split at chosen
  · obtain ⟨rfl, rest⟩ := Prod.mk.inj (Traced.pure_ok.mp chosen)
    obtain ⟨rfl, rfl⟩ := Prod.mk.inj rest
    exact separate_of_operands taken
  · cases chosen

private theorem reads_of_one (single : site.one.outcome = .ok operand) (writes : operand.Writes) :
    site.Reads := by
  obtain ⟨body, separated⟩ := separate_of_one single
  exact ⟨_, body, separated, List.forall_mem_singleton.mpr writes⟩

private theorem reads_of_two (pair : site.two.outcome = .ok (later, earlier))
    (laterWrites : later.Writes) (earlierWrites : earlier.Writes) : site.Reads := by
  obtain ⟨body, separated⟩ := separate_of_two pair
  exact ⟨_, body, separated, by simpa using ⟨laterWrites, earlierWrites⟩⟩

private theorem reads_of_three (triple : site.three.outcome = .ok (latest, later, earlier))
    (latestWrites : latest.Writes) (laterWrites : later.Writes) (earlierWrites : earlier.Writes) :
    site.Reads := by
  obtain ⟨body, separated⟩ := separate_of_three triple
  exact ⟨_, body, separated, by simpa using ⟨latestWrites, laterWrites, earlierWrites⟩⟩

/-- What is only written for a jump ahead was written for one. -/
theorem ahead_of_guarded {write : Traced Text}
    (written : (do
      if !(← (liftM site.instruction.skipsAhead : Traced Bool)) then site.refuse
      else write : Traced Text).outcome = .ok text) :
    site.instruction.skipsAhead = .ok true ∧ write.outcome = .ok text := by
  simp only [Traced.bind_ok, Traced.outcome_ofExcept] at written
  obtain ⟨ahead, known, chosen⟩ := written
  cases ahead with
  | false => cases chosen
  | true => exact ⟨known, chosen⟩

end Site

namespace Scope

variable {scope : Scope} {site : Site} {layout next : Layout} {part : Part} {items : List Part}

/-- Under strict options a statement is only passed over where its text is empty. -/
theorem writes_of_addStatement (strict : scope.options.strict = true)
    (added : (scope.addStatement layout part).outcome = .ok next) : part.Writes := by
  cases written : part.text.outcome with
  | ok text => exact ⟨text, written⟩
  | error fault =>
    have failed : (some <$> part.text).outcome = .error fault := by
      rw [map_eq_pure_bind, Traced.outcome_bind, written]
      rfl
    simp only [addStatement, Traced.bind_ok] at added
    obtain ⟨text, caught, _⟩ := added
    simp only [tryCatch, tryCatchThe, MonadExceptOf.tryCatch, failed] at caught
    cases fault <;> simp [strict] at caught

theorem writes_of_addStatements (strict : scope.options.strict = true)
    (added : (scope.addStatements layout items).outcome = .ok next) :
    ∀ part ∈ items, part.Writes := by
  intro part member
  obtain ⟨before, after, step⟩ := Traced.exists_of_foldlM added member
  exact writes_of_addStatement strict step

/-- A condition is written with all statements that run under it. -/
theorem fills_of_conditional (strict : scope.options.strict = true)
    (written : (scope.conditional site condition).outcome = .ok text) : site.Fills := by
  simp only [conditional, Layout.inside, Traced.bind_ok] at written
  obtain ⟨body, taken, filled, ⟨inner, added, _⟩, _⟩ := written
  exact Site.fills_of_body taken (writes_of_addStatements strict added)

private theorem comparison_written (strict : scope.options.strict = true)
    (written : (scope.comparison site operator).outcome = .ok text) :
    site.instruction.skipsAhead = .ok true ∧ site.Reads ∧ site.Fills := by
  obtain ⟨ahead, guarded⟩ := Site.ahead_of_guarded written
  simp only [Traced.bind_ok] at guarded
  obtain ⟨⟨later, earlier⟩, pair, right, laterText, left, earlierText, condition⟩ := guarded
  refine ⟨ahead, ?_, fills_of_conditional strict condition⟩
  exact Site.reads_of_two pair ⟨right, laterText⟩ ⟨left, earlierText⟩

private theorem truthTest_written (strict : scope.options.strict = true)
    (written : (scope.truthTest site negated).outcome = .ok text) :
    site.instruction.skipsAhead = .ok true ∧ site.Reads ∧ site.Fills := by
  obtain ⟨ahead, guarded⟩ := Site.ahead_of_guarded written
  simp only [Traced.bind_ok] at guarded
  obtain ⟨operand, single, asked⟩ := guarded
  by_cases opposite : negated = true
  · simp only [opposite, ↓reduceIte, Traced.bind_ok] at asked
    obtain ⟨shown, wrapped, _, _, condition⟩ := asked
    refine ⟨ahead, ?_, fills_of_conditional strict condition⟩
    exact Site.reads_of_one single (Part.writes_of_wrapped wrapped)
  · simp only [opposite, Bool.false_eq_true, ↓reduceIte, Traced.bind_ok] at asked
    obtain ⟨shown, rendered, condition⟩ := asked
    refine ⟨ahead, ?_, fills_of_conditional strict condition⟩
    exact Site.reads_of_one single ⟨shown, rendered⟩

/-- A closure calls one of the functions inside, for the texts of what it captures. -/
def Calls (scope : Scope) (instruction : Instruction) : Prop :=
  ∃ number function captured text, instruction.a = .ok number ∧
    itemAt? scope.functions number = some function ∧ (function captured).outcome = .ok text

end Scope

/-- What the text of a site rests on. -/
structure Site.Written (scope : Scope) (site : Site) : Prop where
  modelled : site.opcode.isUnwritten = false
  reads : site.opcode.pops = .fixed 0 ∨ site.Reads
  condition : site.opcode.isCondition = true →
    site.instruction.skipsAhead = .ok true ∧ site.Fills
  calls : site.opcode = .closure → scope.Calls site.instruction

namespace Scope

variable {scope : Scope} {site : Site}

theorem constant_ok {pool : PoolKind} {items : List α} {number index : Int} {item : α} :
    (constant pool items number index).outcome = .ok item ↔ itemAt? items number = some item := by
  rw [constant, Traced.bind_ok, ← findItem_some .list]
  constructor
  · rintro ⟨found, known, chosen⟩
    cases found with
    | none => cases chosen
    | some other =>
      obtain rfl := Traced.pure_ok.mp chosen
      exact known
  · intro known
    exact ⟨some item, known, rfl⟩

private theorem closure_written (written : (scope.closure site).outcome = .ok text) :
    site.Reads ∧ scope.Calls site.instruction := by
  simp only [closure, Traced.bind_ok, Traced.outcome_ofExcept] at written
  obtain ⟨number, reads, function, found, captured, texts, called⟩ := written
  exact ⟨Site.reads_of_texts texts, number, function, captured.reverse, text, reads,
    constant_ok.mp found, called⟩

private theorem binary_reads (written : (binary site operator).outcome = .ok text) :
    site.Reads := by
  simp only [binary, Traced.bind_ok] at written
  obtain ⟨⟨later, earlier⟩, pair, left, earlierText, right, laterText, _⟩ := written
  exact Site.reads_of_two pair (Part.writes_of_wrapped laterText) (Part.writes_of_wrapped earlierText)

/-- Whatever has a text rests on the texts of its operands and of its body. -/
theorem siteText_written (strict : scope.options.strict = true)
    (written : (scope.siteText site).outcome = .ok text) : Site.Written scope site := by
  obtain ⟨instruction, opcode, parts, index⟩ := site
  -- the cases stand together by how they ask for their operands
  cases opcode
  case endCode | pushNil | pushInt | pushString | pushNumber | pushNegativeNumber | pushUpvalue
    | getLocal | getGlobal | createTable =>
    exact ⟨rfl, .inl rfl, nofun, nofun⟩
  case returnValues | call | pop =>
    simp only [siteText, Traced.bind_ok] at written
    obtain ⟨values, texts, _⟩ := written
    exact ⟨rfl, .inr (Site.reads_of_texts texts), nofun, nofun⟩
  case concat =>
    simp only [siteText, Traced.bind_ok] at written
    obtain ⟨operands, taken, values, mapped, _⟩ := written
    refine ⟨rfl, .inr (Site.reads_of_operands taken ?_), nofun, nofun⟩
    intro operand member
    obtain ⟨shown, wrapped⟩ := Traced.exists_of_mapM mapped member
    exact Part.writes_of_wrapped wrapped
  case getDotted | getIndexed | pushSelf | setLocal | setGlobal =>
    simp only [siteText, Traced.bind_ok] at written
    obtain ⟨operand, single, shown, rendered, _⟩ := written
    exact ⟨rfl, .inr (Site.reads_of_one single ⟨shown, rendered⟩), nofun, nofun⟩
  case minus | not =>
    simp only [siteText, negation, Traced.bind_ok] at written
    obtain ⟨operand, single, shown, wrapped, _⟩ := written
    exact ⟨rfl, .inr (Site.reads_of_one single (Part.writes_of_wrapped wrapped)), nofun, nofun⟩
  case addInt =>
    simp only [siteText, sumWithLiteral, Traced.bind_ok] at written
    obtain ⟨operand, single, amount, _, shown, wrapped, _⟩ := written
    exact ⟨rfl, .inr (Site.reads_of_one single (Part.writes_of_wrapped wrapped)), nofun, nofun⟩
  case getTable =>
    simp only [siteText, Traced.bind_ok] at written
    obtain ⟨⟨later, earlier⟩, pair, key, laterText, table, earlierText, _⟩ := written
    exact ⟨rfl, .inr (Site.reads_of_two pair ⟨key, laterText⟩ ⟨table, earlierText⟩), nofun, nofun⟩
  case setTable =>
    simp only [siteText, Traced.bind_ok] at written
    obtain ⟨⟨latest, later, earlier⟩, triple, value, latestText, key, laterText, table, earlierText,
      _⟩ := written
    exact ⟨rfl, .inr (Site.reads_of_three triple ⟨value, latestText⟩ ⟨key, laterText⟩
      ⟨table, earlierText⟩), nofun, nofun⟩
  case add | subtract | multiply | divide | power =>
    exact ⟨rfl, .inr (binary_reads written), nofun, nofun⟩
  case jumpNotEqual | jumpEqual | jumpLessThan | jumpLessThanEqual | jumpGreaterThan
    | jumpGreaterThanEqual =>
    obtain ⟨ahead, reads, fills⟩ := comparison_written strict written
    exact ⟨rfl, .inr reads, fun _ => ⟨ahead, fills⟩, nofun⟩
  case jumpIfTrue | jumpIfFalse =>
    obtain ⟨ahead, reads, fills⟩ := truthTest_written strict written
    exact ⟨rfl, .inr reads, fun _ => ⟨ahead, fills⟩, nofun⟩
  case closure =>
    obtain ⟨reads, calls⟩ := closure_written written
    exact ⟨rfl, .inr reads, nofun, fun _ => calls⟩
  all_goals cases written

end Scope

end LuaLift
