import LuaLift.Proofs.Source.Comparison

/-! Strict and lenient text. Lenient options refuse no statement; where strict options give a text
they give the same, and wherever they do more, the journal has a placeholder. -/
namespace LuaLift

/-- A place in the journal where a comment stands for a statement. -/
def Event.isPlaceholder : Event → Bool
  | placeholder _ => true
  | _ => false

/-- The fault of a statement without a faithful text. -/
def Fault.isUnsupported : Fault → Bool
  | unsupported _ _ _ => true
  | _ => false

namespace Traced

/-- Nothing was left out on the way. -/
def Quiet (traced : Traced α) : Prop := ∀ event ∈ traced.journal, event.isPlaceholder = false

private theorem quiet_pure (value : α) : (pure value : Traced α).Quiet := List.forall_mem_nil _

private theorem quiet_ofExcept (outcome : Except Fault α) : (liftM outcome : Traced α).Quiet :=
  List.forall_mem_nil _

theorem Quiet.bind {first : Traced α} {next : α → Traced β} (quiet : first.Quiet)
    (follow : ∀ value, first.outcome = .ok value → (next value).Quiet) :
    (first >>= next).Quiet := by
  cases done : first.outcome with
  | ok value =>
    rw [Quiet, journal_bind_of_ok next done]
    exact List.forall_mem_append.mpr ⟨quiet, follow value done⟩
  | error fault =>
    rw [Quiet, journal_bind_of_error next done]
    exact quiet

/-- What a first step left out stays left out. -/
theorem Quiet.of_bind {first : Traced α} {next : α → Traced β} (quiet : (first >>= next).Quiet) :
    first.Quiet := by
  cases done : first.outcome with
  | ok value =>
    rw [Quiet, journal_bind_of_ok next done] at quiet
    exact (List.forall_mem_append.mp quiet).1
  | error fault =>
    rw [Quiet, journal_bind_of_error next done] at quiet
    exact quiet

private theorem Quiet.rest {first : Traced α} {next : α → Traced β} {value : α}
    (quiet : (first >>= next).Quiet) (done : first.outcome = .ok value) : (next value).Quiet := by
  rw [Quiet, journal_bind_of_ok next done] at quiet
  exact (List.forall_mem_append.mp quiet).2

private theorem Quiet.of_tryCatch {first : Traced α} {recover : Fault → Traced α}
    (quiet : (tryCatch first recover).Quiet) : first.Quiet := by
  cases done : first.outcome with
  | ok value =>
    rw [tryCatch_of_ok done] at quiet
    exact quiet
  | error fault =>
    rw [tryCatch_of_error done] at quiet
    exact (List.forall_mem_append.mp quiet).1

end Traced

/-- Either nothing was left out and both come to the same, or the strict computation was refused and
the lenient one left something out. -/
inductive Milder (related : α → β → Prop) (strict : Traced α) (lenient : Traced β) : Prop where
  | same (agree : Agree related strict.outcome lenient.outcome) (quiet : lenient.Quiet)
  | spared (fault : Fault) (refused : strict.outcome = .error fault)
      (unsupported : fault.isUnsupported = true) (marked : ¬ lenient.Quiet)

namespace Milder

variable {related : α → β → Prop} {result : γ → δ → Prop}

theorem pure {value : α} {other : β} (alike : related value other) :
    Milder related (pure value) (pure other) := .same (.ok alike) (Traced.quiet_pure other)

theorem throw (fault : Fault) :
    Milder related (MonadExcept.throw fault) (MonadExcept.throw fault) :=
  .same (.error fault) (List.forall_mem_nil _)

theorem bind {first : Traced α} {second : Traced β} {next : α → Traced γ} {follow : β → Traced δ}
    (milder : Milder related first second)
    (step : ∀ {value other}, related value other → Milder result (next value) (follow other)) :
    Milder result (first >>= next) (second >>= follow) := by
  cases milder with
  | spared fault refused unsupported marked =>
    have stopped := Traced.outcome_bind_of_error next refused
    exact .spared fault stopped unsupported fun quiet => marked quiet.of_bind
  | same agree quiet =>
    rcases agree.outcomes with ⟨value, other, left, right, alike⟩ | ⟨fault, left, right⟩
    · cases step alike with
      | same agree rest =>
        refine .same ?_ (quiet.bind fun another done => ?_)
        · rw [Traced.outcome_bind_of_ok next left, Traced.outcome_bind_of_ok follow right]
          exact agree
        · obtain rfl := Except.ok.inj (right.symm.trans done)
          exact rest
      | spared fault refused unsupported marked =>
        have stopped := (Traced.outcome_bind_of_ok next left).trans refused
        exact .spared fault stopped unsupported fun quiet => marked (quiet.rest right)
    · refine .same ?_ (quiet.bind fun value done => ?_)
      · rw [Traced.outcome_bind_of_error next left, Traced.outcome_bind_of_error follow right]
        exact .error fault
      · cases right.symm.trans done

/-- What strict computations refuse may be caught, if the journal says so. -/
theorem tryCatch {first : Traced α} {second : Traced β} {strictly : Fault → Traced α}
    {leniently : Fault → Traced β} (milder : Milder related first second)
    (refuses : ∀ fault, strictly fault = MonadExcept.throw fault)
    (marks : ∀ fault, fault.isUnsupported = true → ¬ (leniently fault).Quiet)
    (passes : ∀ fault, fault.isUnsupported = false → leniently fault = MonadExcept.throw fault) :
    Milder related (MonadExcept.tryCatch first strictly)
      (MonadExcept.tryCatch second leniently) := by
  cases milder with
  | spared fault refused unsupported marked =>
    refine .spared fault ?_ unsupported fun quiet => marked quiet.of_tryCatch
    rw [Traced.tryCatch_of_error refused, refuses]
    rfl
  | same agree quiet =>
    rcases agree.outcomes with ⟨value, other, left, right, alike⟩ | ⟨fault, left, right⟩
    · rw [Traced.tryCatch_of_ok left, Traced.tryCatch_of_ok right]
      exact .same agree quiet
    · rw [Traced.tryCatch_of_error left, Traced.tryCatch_of_error right, refuses]
      cases unsupported : fault.isUnsupported with
      | true =>
        refine .spared fault rfl unsupported fun all => ?_
        exact marks fault unsupported (List.forall_mem_append.mp all).2
      | false =>
        rw [passes fault unsupported]
        exact .same (.error fault) (List.forall_mem_append.mpr ⟨quiet, List.forall_mem_nil _⟩)

end Milder

/-- Strict and lenient computations, side by side. -/
def lenience : Comparison := Coupling.exact {
  runs := Milder
  faults := fun _ => True
  pure := Milder.pure
  throw := fun _ => Milder.throw _
  bind := Milder.bind }

/-- One statement, written under strict options and under lenient ones. -/
theorem Scope.addStatement_milder {strict lenient : Scope} (refuses : strict.options.strict = true)
    (spares : lenient.options.strict = false) {level : Nat} {layout : Layout}
    (here : layout.level = level) {part item : Part} (parts : lenience.Parts part item) :
    Milder (lenience.layouts level) (strict.addStatement layout part)
      (lenient.addStatement layout item) := by
  have found : Milder Eq (some <$> part.text) (some <$> item.text) := by
    rw [map_eq_pure_bind, map_eq_pure_bind]
    exact Milder.bind parts.text fun alike => .pure (congrArg some alike)
  rw [addStatement_eq_bind, addStatement_eq_bind, ← parts.node]
  refine (found.tryCatch (spare_of_strict refuses) ?_ ?_).bind fun {text shown} same => ?_
  · intro fault unsupported quiet
    cases fault with
    | unsupported opcode children index =>
      rw [spare_of_lenient spares] at quiet
      cases quiet (.placeholder (.unsupported opcode children index)) List.mem_cons_self
    | _ => cases unsupported
  · intro fault passed
    cases fault with
    | unsupported opcode children index => cases passed
    | _ => rfl
  · subst same
    exact Coupling.addShown _ here parts.reads text

private theorem Instruction.confinedAt_of_word (index : Int) (instruction : Instruction) :
    instruction.ConfinedAt (·.isUnsupported = false) index where
  reads := by
    apply confined_of_word
    intro fault word
    cases fault with
    | unsupported opcode children index => cases word
    | _ => rfl
  malformed _ := rfl

/-- Under lenient options a statement is written, or a comment stands for it. -/
theorem Scope.stops_addStatement {scope : Scope} (spares : scope.options.strict = false)
    (layout : Layout) (part : Part) :
    Stops (·.isUnsupported = false) (scope.addStatement layout part).outcome := by
  have reads := (part.node.instruction.confinedAt_of_word part.node.index).reads
  rw [addStatement_eq_bind, Traced.outcome_bind]
  refine Stops.bind ?_ fun text _ => layout.stops_addShown reads text
  cases done : (some <$> part.text).outcome with
  | ok text =>
    rw [Traced.tryCatch_of_ok done, done]
    exact .ok text
  | error fault =>
    rw [Traced.tryCatch_of_error done]
    cases fault with
    | unsupported opcode children index =>
      rw [spare_of_lenient spares]
      exact .ok none
    | _ => exact .error rfl

namespace Forest

/-- Building makes no comments. -/
theorem quiet_replay (watch : Watch) (pending statements : List Node) (index : Int)
    (code : List Instruction) : (replay watch pending statements index code).Quiet := by
  induction pending, statements, index, code using replay.induct with
  | case1 pending statements index =>
    rw [replay]
    exact Traced.quiet_ofExcept _
  | case2 pending statements index instruction code ihBody ihStatement ihProducer =>
    have noted (pops pushes : Int) :
        (noteStep watch instruction index pops pushes pending).Quiet := by
      rw [noteStep]
      split
      · refine (Traced.quiet_ofExcept _).bind fun shown _ => ?_
        refine (Traced.quiet_ofExcept _).bind fun values _ => ?_
        exact List.forall_mem_singleton.mpr rfl
      · exact Traced.quiet_pure ()
    rw [replay]
    refine (Traced.quiet_ofExcept _).bind fun pushed _ => ?_
    refine (Traced.quiet_ofExcept _).bind fun needed _ => ?_
    refine (noted _ _).bind fun _ _ => (Traced.quiet_ofExcept _).bind fun _ _ => ?_
    refine (Traced.quiet_ofExcept _).bind fun taken _ => ?_
    refine (Traced.quiet_ofExcept _).bind fun skip _ => (ihBody skip).bind fun body _ => ?_
    obtain ⟨operands, left⟩ := taken
    by_cases leaves : pushed = 0
    · rw [if_pos leaves]
      exact ihStatement operands left skip body
    · rw [if_neg leaves]
      exact ihProducer operands left skip body

end Forest

namespace Prototype

private theorem builds_lenience (detailed : Bool) (prototype : Prototype) :
    lenience.Builds detailed prototype := by
  refine .same ?_ (Forest.quiet_replay _ [] [] 0 prototype.code)
  let watch : Watch := ⟨some prototype.functions.length, detailed⟩
  cases built : (Forest.build watch 0 prototype.code).outcome with
  | ok forest => exact .ok ⟨rfl, Comparison.admitsAll (fun _ => trivial) forest⟩
  | error fault => exact .error fault

/-- The strict text of a function and the lenient one, step by step. -/
theorem bodyText_milder (options : Options) (detailed : Bool) (prototype : Prototype)
    (upvalues : List Text) :
    Milder Eq (prototype.bodyText { options with strict := true } detailed upvalues)
      (prototype.bodyText { options with strict := false } detailed upvalues) := by
  refine Comparison.bodyText ?_ (fun part _ => builds_lenience detailed part)
    (List.forall₂_same.mpr fun text _ => rfl)
  refine ⟨fun _ _ => rfl, rfl, ⟨rfl, rfl⟩, ?_⟩
  intro scope another strict lenient level layout filled part item same parts
  obtain ⟨rfl, here⟩ := same
  exact Scope.addStatement_milder (congrArg Options.strict strict) (congrArg Options.strict lenient)
    here parts

private theorem stops_bodyText_lenient {options : Options} (lenient : options.strict = false)
    (detailed : Bool) (prototype : Prototype) (upvalues : List Text) :
    Stops (·.isUnsupported = false) (prototype.bodyText options detailed upvalues).outcome := by
  rw [bodyText_eq, Traced.outcome_bind]
  refine Stops.bind (Forest.stops_build _ fun item _ => ?_) fun forest _ => ?_
  · exact (item.2.confinedAt_of_word item.1).built
  · rw [Scope.forestText, Traced.outcome_bind]
    refine Stops.bind ?_ fun layout _ => .ok layout.text
    rw [Scope.addStatements, Traced.outcome_foldlM]
    exact .foldlM (fun layout part _ => Scope.stops_addStatement lenient layout part) _

/-- Lenient options extend strict ones: they refuse no statement, they change no text that strict
options give, and where strict options refuse a statement the journal has a placeholder. -/
theorem bodyText_lenient (options : Options) (detailed : Bool) (prototype : Prototype)
    (upvalues : List Text) :
    let strict := prototype.bodyText { options with strict := true } detailed upvalues
    let lenient := prototype.bodyText { options with strict := false } detailed upvalues
    (∀ opcode children index,
        lenient.outcome ≠ .error (Fault.unsupported opcode children index)) ∧
      (∀ text, strict.outcome = .ok text →
        lenient.outcome = .ok text ∧ ∀ fault, Event.placeholder fault ∉ lenient.journal) ∧
      ∀ opcode children index, strict.outcome = .error (.unsupported opcode children index) →
        ∃ fault, Event.placeholder fault ∈ lenient.journal := by
  intro strict lenient
  have spares : Stops (·.isUnsupported = false) lenient.outcome :=
    stops_bodyText_lenient rfl detailed prototype upvalues
  have milder : Milder Eq strict lenient := bodyText_milder options detailed prototype upvalues
  have never : ∀ opcode children index,
      lenient.outcome ≠ .error (.unsupported opcode children index) := by
    intro opcode children index refused
    cases spares _ refused
  refine ⟨never, ?_, ?_⟩
  · intro text written
    cases milder with
    | same agree quiet =>
      refine ⟨agree.eq.symm.trans written, fun fault member => ?_⟩
      cases quiet (.placeholder fault) member
    | spared fault refused =>
      cases written.symm.trans refused
  · intro opcode children index refused
    cases milder with
    | same agree quiet =>
      exact (never opcode children index (agree.eq.symm.trans refused)).elim
    | spared fault refused unsupported marked =>
      by_contra missing
      refine marked fun event member => ?_
      cases event with
      | placeholder fault => exact (missing ⟨fault, member⟩).elim
      | _ => rfl

/-- An inner function with a condition, once with a jump inside it and once with nothing. -/
theorem bodyText_lenient_of_jump :
    let outer (statement : Instruction) : Prototype :=
      let inner : Prototype := { (default : Prototype) with
        strings := ["done"]
        code := [⟨12, {}⟩, ⟨2147483687, {}⟩, statement, ⟨0, {}⟩] }
      { (default : Prototype) with
        strings := ["run"]
        functions := [inner]
        code := [⟨48, {}⟩, ⟨19, {}⟩, ⟨0, {}⟩] }
    let jump : Instruction := ⟨2147483626, {}⟩
    let stop : Instruction := ⟨0, {}⟩
    let spared := (outer jump).bodyText { strict := false } false []
    let written := (outer stop).bodyText { strict := false } false []
    ((outer jump).bodyText {} false []).outcome = .error (.unsupported "JUMP" 0 (some 2)) ∧
      spared.outcome =
        .ok "run = function()\n  if (done) then\n    -- unsupported: JUMP(0) at 2\n  end\nend" ∧
      (∃ fault, .placeholder fault ∈ spared.journal) ∧
      written.outcome = .ok "run = function()\n  if (done) then\n  end\nend" ∧
      ∀ fault, .placeholder fault ∉ written.journal := by
  intro outer jump stop spared written
  have refused : ((outer jump).bodyText {} false []).outcome =
      .error (.unsupported "JUMP" 0 (some 2)) := by cbv
  have strict : ((outer stop).bodyText {} false []).outcome =
      .ok "run = function()\n  if (done) then\n  end\nend" := by cbv
  obtain ⟨same, silent⟩ := (bodyText_lenient {} false (outer stop) []).2.1 _ strict
  refine ⟨refused, ?_, ?_, same, silent⟩
  · have lenient : ((outer jump).bodyText { strict := false } false []).outcome =
        .ok "run = function()\n  if (done) then\n    -- unsupported: JUMP(0) at 2\n  end\nend" := by
      cbv
    exact lenient
  · exact (bodyText_lenient {} false (outer jump) []).2.2 _ _ _ refused

end Prototype

end LuaLift
