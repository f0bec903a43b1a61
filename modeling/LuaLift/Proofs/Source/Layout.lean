import LuaLift.Proofs.Chunk.Whole
import LuaLift.Proofs.Source.Agree

/-! The text of a chunk does not depend on its layout. Byte order, widths and field sizes leave no
trace in it, nor do source names, lines, stack sizes and the places where locals are live. -/
namespace LuaLift

namespace Prototype

/-- Prototypes of the same program: the same parameters, names and constants, the same operands for
the same opcodes, and as many functions inside that are of the same program in turn. -/
inductive Agrees : Prototype → Prototype → Prop where
  | prototype {left right : Prototype} (paramCount : left.paramCount = right.paramCount)
      (isVararg : left.isVararg = right.isVararg)
      (localNames : left.locals.map Local.name = right.locals.map Local.name)
      (strings : left.strings = right.strings)
      (numbers : List.Forall₂ Double.Alike left.numbers right.numbers)
      (code : List.Forall₂ Instruction.Alike left.code right.code)
      (functions : List.Forall₂ Agrees left.functions right.functions) : Agrees left right

variable {left right : Prototype}

private theorem Agrees.parameters (agrees : left.Agrees right) (options : Options) :
    left.parameters options = right.parameters options := by
  cases agrees with
  | prototype paramCount isVararg localNames =>
    rw [Prototype.parameters, Prototype.parameters, paramCount, isVararg, localNames]

theorem Agrees.refl (prototype : Prototype) : prototype.Agrees prototype := by
  induction prototype using induct with
  | step prototype ih =>
    exact .prototype rfl rfl rfl rfl (List.forall₂_same.mpr fun number _ => .inl rfl)
      (List.forall₂_same.mpr fun instruction _ => ⟨rfl, rfl⟩) (List.forall₂_same.mpr ih)

/-- Every instruction of the code is known, and its fields fit into a word. -/
def Known (prototype : Prototype) : Prop :=
  ∀ instruction ∈ prototype.code,
    instruction.widths.Fit ∧ ∃ opcode, instruction.opcode = .ok opcode

theorem Known.same (known : left.Known)
    (alike : List.Forall₂ Instruction.Alike left.code right.code) :
    List.Forall₂ Instruction.Same left.code right.code := by
  refine (forall₂_mem alike).imp fun instruction other here => ?_
  obtain ⟨member, _, same⟩ := here
  obtain ⟨fit, opcode, reads⟩ := known instruction member
  exact same.same reads fit

/-- Prototypes of the same program have the same text, whatever is noted on the way. -/
theorem bodyText_eq_of_agrees (options : Options) (detailed noted : Bool)
    (agrees : left.Agrees right) (known : ∀ part ∈ left.all, part.Known) (upvalues : List Text) :
    (left.bodyText options detailed upvalues).outcome =
      (right.bodyText options noted upvalues).outcome := by
  induction left using induct generalizing right upvalues with
  | step left ih =>
    obtain ⟨own, inside⟩ := forall_mem_all_iff.mp known
    cases agrees with
    | prototype paramCount isVararg localNames strings numbers code functions =>
      have same := own.same code
      have closures : List.Forall₂ (fun function other : List Text → Traced Text =>
          ∀ captured, (function captured).outcome = (other captured).outcome)
          (closureTexts options detailed left.functions)
          (closureTexts options noted right.functions) := by
        rw [closureTexts_eq_map, closureTexts_eq_map, List.forall₂_map_left_iff,
          List.forall₂_map_right_iff]
        refine (forall₂_mem functions).imp fun inner other here captured => ?_
        obtain ⟨member, _, agrees⟩ := here
        simp only [closureText, Traced.outcome_bind, agrees.parameters options,
          ih inner member agrees (inside inner member) captured]
      have scopes : (left.scope options detailed upvalues).Alike
          (right.scope options noted upvalues) :=
        ⟨rfl, localNames, strings, numbers, closures, rfl⟩
      apply Agree.eq
      rw [bodyText_eq, bodyText_eq]
      simp only [Traced.outcome_bind]
      refine (Forest.build_agree ?_ same 0).bind fun forest => ?_
      · rw [functions.length_eq]
      · exact .of_eq (Scope.forestText_eq scopes forest)

end Prototype

/-- Two chunks of the same program give the same text, or the same fault. -/
theorem liftBytes_eq (options : Options) (detailed noted : Bool) {bytes others : List UInt8}
    {chunk other : Chunk} (read : (Chunk.ofBytes bytes).outcome = .ok chunk)
    (also : (Chunk.ofBytes others).outcome = .ok other) (agrees : chunk.main.Agrees other.main) :
    (liftBytes options detailed bytes).outcome = (liftBytes options noted others).outcome := by
  simp only [liftBytes, Traced.outcome_bind, read, also]
  exact Prototype.bodyText_eq_of_agrees options detailed noted agrees
    (Chunk.instruction_of_ofBytes read) []

/-- What is noted on the way makes no difference to the text of a chunk, nor to its fault. -/
theorem liftBytes_detailed (options : Options) (detailed noted : Bool) (bytes : List UInt8) :
    (liftBytes options detailed bytes).outcome = (liftBytes options noted bytes).outcome := by
  cases loaded : (Chunk.ofBytes bytes).outcome with
  | error fault =>
    rw [liftBytes, liftBytes, Traced.outcome_bind_of_error _ loaded,
      Traced.outcome_bind_of_error _ loaded]
  | ok chunk =>
    have known := Chunk.instruction_of_ofBytes loaded
    rw [liftBytes, liftBytes, Traced.outcome_bind_of_ok _ loaded,
      Traced.outcome_bind_of_ok _ loaded]
    exact Prototype.bodyText_eq_of_agrees options detailed noted (.refl chunk.main) known []

/-- A function of one value that the global `run` is set to, with instructions of some widths. The
last two words add a literal and return one value. -/
def runner (widths : FieldWidths) (lines : List Int) (decrement single : Int) : Prototype :=
  let inner : Prototype := { (default : Prototype) with
    paramCount := 1
    locals := [⟨"x", 0, lines.length⟩]
    numbers := [.ofBits 0x3FE0000000000000]
    code := [⟨11, widths⟩, ⟨8, widths⟩, ⟨23, widths⟩, ⟨decrement, widths⟩, ⟨single, widths⟩,
      ⟨0, widths⟩] }
  { (default : Prototype) with
    lines
    strings := ["run"]
    functions := [inner]
    code := [⟨48, widths⟩, ⟨19, widths⟩, ⟨0, widths⟩] }

/-- Least significant bytes first, eight bytes for numbers, and words of three fields of eight bits
or fewer. -/
def wide : Preamble := ⟨1, 4, 8, 4, ⟨24, 8, 7⟩, 8, [0, 0, 0, 0, 0, 0, 0, 0]⟩

def wideEncoding : Encoding := ⟨.little, 4, 8, 4, .double⟩

theorem liftBytes_eq_of_runner :
    let first := runner {} [] 2147483544 65
    let second := runner ⟨24, 8, 7⟩ [1, 2, 3] 8388120 257
    let bytes := Chunk.compact.toBytes ++ first.toBytes Chunk.compactEncoding
    let others := wide.toBytes ++ second.toBytes wideEncoding
    (liftBytes {} false bytes).outcome = (liftBytes {} true others).outcome ∧
      (liftBytes {} true others).outcome =
        .ok "run = function(x)\n  return (x + 0.5) - 1\nend" := by
  intro first second bytes others
  have firstFits : ∀ part ∈ first.all, part.Fits Chunk.compactEncoding Chunk.compact.widths := by
    decide
  have secondFits : ∀ part ∈ second.all, part.Fits wideEncoding wide.widths := by decide
  have read := Chunk.ofBytes_of_stands (Chunk.stands_image Chunk.compact_readable firstFits)
  have also := Chunk.ofBytes_of_stands (Chunk.stands_image ⟨rfl, rfl, rfl⟩ secondFits)
  rw [Chunk.standing, Prototype.bytes_image] at read also
  have agrees : (first.reread Chunk.compactEncoding).Agrees (second.reread wideEncoding) := by
    refine .prototype rfl rfl rfl rfl .nil ?_ (.cons ?_ .nil)
    · exact .cons ⟨by cbv, by cbv⟩ (.cons ⟨by cbv, by cbv⟩ (.cons ⟨by cbv, by cbv⟩ .nil))
    · refine .prototype rfl rfl rfl rfl (.cons (.inl (by decide)) .nil) ?_ .nil
      exact .cons ⟨by cbv, by cbv⟩ (.cons ⟨by cbv, by cbv⟩ (.cons ⟨by cbv, by cbv⟩
        (.cons ⟨by cbv, by cbv⟩ (.cons ⟨by cbv, by cbv⟩ (.cons ⟨by cbv, by cbv⟩ .nil)))))
  refine ⟨liftBytes_eq {} false true read also agrees, ?_⟩
  simp only [liftBytes, Traced.outcome_bind, others, also]
  cbv

end LuaLift
