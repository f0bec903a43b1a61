import LuaLift.Proofs.Chunk.Faults
import LuaLift.Proofs.Forest.Ownership
import LuaLift.Proofs.Source.Comparison
import LuaLift.Source.Function

/-! Where a run over the bytes of a chunk may stop. Loading stops at a byte. Once a chunk is loaded,
writing its text stops at an instruction of one of its functions, and not in any other way. -/
namespace LuaLift

/-- A fault at an instruction of a function or of one inside it, as the chunk is malformed there or
the instruction has no faithful text. -/
def Fault.PointsInto (main : Prototype) : Fault → Prop
  | malformed _ (some index) none | unsupported _ _ (some index) =>
    ∃ part ∈ main.all, 0 ≤ index ∧ index < part.code.length
  | _ => False

/-- Both come to related values, or both stop at one fault that is an allowed one. -/
inductive Checked (allowed : Fault → Prop) (related : α → β → Prop) (first : Traced α)
    (second : Traced β) : Prop where
  | ok {value : α} {other : β} (left : first.outcome = .ok value)
      (right : second.outcome = .ok other) (alike : related value other)
  | error {fault : Fault} (left : first.outcome = .error fault)
      (right : second.outcome = .error fault) (among : allowed fault)

namespace Checked

variable {allowed : Fault → Prop} {related : α → β → Prop} {result : γ → δ → Prop}

theorem pure {value : α} {other : β} (alike : related value other) :
    Checked allowed related (pure value) (pure other) := .ok rfl rfl alike

theorem throw {fault : Fault} (among : allowed fault) :
    Checked allowed related (MonadExcept.throw fault) (MonadExcept.throw fault) :=
  .error rfl rfl among

theorem bind {first : Traced α} {second : Traced β} {next : α → Traced γ} {follow : β → Traced δ}
    (checked : Checked allowed related first second)
    (step : ∀ {value other}, related value other →
      Checked allowed result (next value) (follow other)) :
    Checked allowed result (first >>= next) (second >>= follow) := by
  cases checked with
  | error left right among =>
    have stopped := Traced.outcome_bind_of_error next left
    exact .error stopped (Traced.outcome_bind_of_error follow right) among
  | ok left right alike =>
    have goes := Traced.outcome_bind_of_ok next left
    have follows := Traced.outcome_bind_of_ok follow right
    cases step alike with
    | ok here there same => exact .ok (goes.trans here) (follows.trans there) same
    | error here there among => exact .error (goes.trans here) (follows.trans there) among

/-- A fault that is caught is an allowed one. -/
theorem tryCatch {first : Traced α} {second : Traced β} {recover : Fault → Traced α}
    {rescue : Fault → Traced β} (checked : Checked allowed related first second)
    (caught : ∀ fault, allowed fault → Checked allowed related (recover fault) (rescue fault)) :
    Checked allowed related (tryCatch first recover) (tryCatch second rescue) := by
  cases checked with
  | ok left right alike =>
    rw [Traced.tryCatch_of_ok left, Traced.tryCatch_of_ok right]
    exact .ok left right alike
  | error left right among =>
    rw [Traced.tryCatch_of_error left, Traced.tryCatch_of_error right]
    cases caught _ among with
    | ok here there same => exact .ok here there same
    | error here there later => exact .error here there later

private theorem stops {first : Traced α} {second : Traced β}
    (checked : Checked allowed related first second) :
    Stops allowed first.outcome := by
  cases checked with
  | ok left => exact left ▸ .ok _
  | error left _ among => exact left ▸ .error among

end Checked

/-- A computation beside itself, with a check of the faults it stops at. -/
def checking (allowed : Fault → Prop) : Comparison := Coupling.exact {
  runs := Checked allowed
  faults := allowed
  pure := Checked.pure
  throw := Checked.throw
  bind := Checked.bind }

variable {allowed : Fault → Prop}

/-- A statement stops where its text does, or where its instruction cannot be shown in a comment. -/
theorem Scope.addStatement_checked {scope other : Scope} (same : scope.options = other.options)
    {level : Nat} {layout : Layout} (here : layout.level = level) {part item : Part}
    (parts : (checking allowed).Parts part item) :
    Checked allowed ((checking allowed).layouts level) (scope.addStatement layout part)
      (other.addStatement layout item) := by
  have found : Checked allowed Eq (some <$> part.text) (some <$> item.text) := by
    rw [map_eq_pure_bind, map_eq_pure_bind]
    exact Checked.bind parts.text fun alike => .pure (congrArg some alike)
  rw [addStatement_eq_bind, addStatement_eq_bind, ← parts.node]
  refine (found.tryCatch fun fault among => ?_).bind fun {text shown} alike => ?_
  · cases strict : scope.options.strict with
    | true =>
      rw [spare_of_strict strict, spare_of_strict (same ▸ strict)]
      exact .throw among
    | false =>
      cases fault with
      | unsupported opcode children index =>
        rw [spare_of_lenient strict, spare_of_lenient (same ▸ strict)]
        exact .ok rfl rfl rfl
      | _ => exact .throw among
  · subst alike
    exact Coupling.addShown _ here parts.reads text

private theorem Options.settings_checking (options : Options) :
    (checking allowed).Settings options options := by
  refine ⟨fun _ _ => rfl, rfl, ⟨rfl, rfl⟩, ?_⟩
  intro scope another left right level layout filled part item start parts
  obtain ⟨rfl, here⟩ := start
  exact Scope.addStatement_checked (left.trans right.symm) here parts

namespace Prototype

variable {main part : Prototype}

/-- Every fault of an instruction that can be read points to it. -/
theorem admits_of_sound (member : part ∈ main.all)
    (sound : ∀ instruction ∈ part.code, instruction.Sound) :
    ∀ item ∈ numbered 0 part.code, (checking (Fault.PointsInto main)).Admits item.1 item.2 := by
  intro item among
  obtain ⟨low, high⟩ := mem_positions_numbered.mp (List.mem_map_of_mem among)
  have inside : item.1 < part.code.length := by omega
  have own : item.2 ∈ part.code := by
    rw [← numbered_map_snd 0 part.code]
    exact List.mem_map_of_mem among
  have points : ∃ part ∈ main.all, 0 ≤ item.1 ∧ item.1 < part.code.length :=
    ⟨part, member, low, inside⟩
  exact ⟨⟨(sound item.2 own).confined _, fun _ => points⟩, fun _ _ => points,
    fun _ _ reads => .inl ((sound item.2 own).nonneg_field reads)⟩

private theorem builds_of_sound (detailed : Bool) (member : part ∈ main.all)
    (sound : ∀ instruction ∈ part.code, instruction.Sound) :
    (checking (Fault.PointsInto main)).Builds detailed part := by
  have admits := admits_of_sound member sound
  have stops := Forest.stops_build ⟨some part.functions.length, detailed⟩ fun item among =>
    (admits item among).confined.built
  cases built : (Forest.build ⟨some part.functions.length, detailed⟩ 0 part.code).outcome with
  | error fault => exact .error built built (stops fault built)
  | ok forest =>
    refine .ok built built ⟨rfl, fun node inside => ?_⟩
    have owns := Forest.build_owns built node inside
    refine admits (node.index, node.instruction) ?_
    generalize part.code = code at owns
    cases owns with
    | intro position =>
      rw [numbered_append, numbered_cons, position]
      exact List.mem_append_right _ List.mem_cons_self

/-- Writing a function whose instructions can all be read stops at one of them or not at all. -/
theorem stops_bodyText (options : Options) (detailed : Bool) (upvalues : List Text)
    (sound : ∀ part ∈ main.all, ∀ instruction ∈ part.code, instruction.Sound) :
    Stops (Fault.PointsInto main) (main.bodyText options detailed upvalues).outcome := by
  have checked := Comparison.bodyText options.settings_checking
    (fun part member => builds_of_sound detailed member (sound part member))
    (List.forall₂_same.mpr fun text (_ : text ∈ upvalues) => rfl)
  exact Checked.stops checked

end Prototype

/-- For any bytes and any options, a preamble is read or its fault names a place among the bytes.
The chunk is refused for such a fault too, or it is loaded, and then there is a text or a fault at
one of its instructions. -/
theorem liftBytes_stops (options : Options) (detailed : Bool) (bytes : List UInt8) :
    let lifted := (liftBytes options detailed bytes).outcome
    ((∃ found, (Preamble.read bytes).outcome = .ok found) ∨
        ∃ fault, (Preamble.read bytes).outcome = .error fault ∧ fault.LocatedIn bytes.length) ∧
      ((∃ fault, (Chunk.ofBytes bytes).outcome = .error fault ∧ lifted = .error fault ∧
          fault.LocatedIn bytes.length) ∨
        ∃ chunk, (Chunk.ofBytes bytes).outcome = .ok chunk ∧
          ((∃ text, lifted = .ok text) ∨
            ∃ fault, lifted = .error fault ∧ fault.PointsInto chunk.main)) := by
  intro lifted
  constructor
  · rw [Preamble.outcome_read]
    have located := Preamble.located_of_ofBytes bytes
    cases read : Preamble.ofBytes bytes with
    | ok found => exact .inl ⟨found, rfl⟩
    | error fault => exact .inr ⟨fault, rfl, located fault read⟩
  · have whole : lifted = (Chunk.ofBytes bytes).outcome >>= fun chunk =>
        (chunk.main.bodyText options detailed []).outcome := Traced.outcome_bind _ _
    cases loaded : (Chunk.ofBytes bytes).outcome with
    | error fault =>
      rw [loaded] at whole
      exact .inl ⟨fault, rfl, whole, Chunk.located_of_chunk bytes fault loaded⟩
    | ok chunk =>
      rw [loaded] at whole
      have stops := Prototype.stops_bodyText options detailed [] (Chunk.sound_of_chunk loaded)
      refine .inr ⟨chunk, rfl, ?_⟩
      cases ended : lifted with
      | ok text => exact .inl ⟨text, rfl⟩
      | error fault => exact .inr ⟨fault, rfl, stops fault (whole.symm.trans ended)⟩

end LuaLift
