import LuaLift.Proofs.Instruction.Operands
import LuaLift.Proofs.Stops

/-! Where the reading of an instruction may stop. All that is read of a word comes from its opcode
and its operands, so it stops where one of these does. -/
namespace LuaLift

/-- The faults of a word and of the widths of its fields. -/
def Fault.isOfWord : Fault → Bool
  | invalidOpcode _ _ _ _ | negativeShift => true
  | _ => false

/-- The faults of a word that is read by itself, wherever it stands. -/
def Fault.isUnplaced : Fault → Bool
  | invalidOpcode _ _ none none | negativeShift => true
  | _ => false

private theorem Fault.isOfWord_of_isUnplaced {fault : Fault} (unplaced : fault.isUnplaced = true) :
    fault.isOfWord = true := by
  cases fault with
  | invalidOpcode raw opcode index offset => rfl
  | negativeShift => rfl
  | _ => cases unplaced

namespace Instruction

/-- The opcode and the operands can be read, or else the fault is one of the allowed ones. -/
structure Confined (allowed : Fault → Prop) (instruction : Instruction) : Prop where
  opcode : Stops allowed instruction.opcode
  u : Stops allowed instruction.u
  s : Stops allowed instruction.s
  a : Stops allowed instruction.a
  b : Stops allowed instruction.b

/-- The opcode is known and every operand can be read; only the signed one may be negative. -/
structure Sound (instruction : Instruction) : Prop where
  opcode : ∃ opcode, instruction.opcode = .ok opcode
  u : ∃ value, instruction.u = .ok value ∧ 0 ≤ value
  s : ∃ value, instruction.s = .ok value
  a : ∃ value, instruction.a = .ok value ∧ 0 ≤ value
  b : ∃ value, instruction.b = .ok value ∧ 0 ≤ value

theorem sound_of_fit {instruction : Instruction} (fit : instruction.widths.Fit)
    (known : ∃ opcode, instruction.opcode = .ok opcode) (nonneg : 0 ≤ instruction.raw) :
    instruction.Sound where
  opcode := known
  u := by
    obtain ⟨value, reads⟩ := u_of_fit fit
    exact ⟨value, reads, nonneg_of_field nonneg (show instruction.field .u = .ok value from reads)⟩
  s := s_of_fit fit
  a := by
    obtain ⟨value, reads⟩ := a_of_fit fit
    exact ⟨value, reads, nonneg_of_field nonneg (show instruction.field .a = .ok value from reads)⟩
  b := by
    obtain ⟨value, reads⟩ := b_of_fit fit
    exact ⟨value, reads, nonneg_of_field nonneg (show instruction.field .b = .ok value from reads)⟩

/-- No operand that counts values or names items is negative. -/
theorem Sound.nonneg_field {instruction : Instruction} (sound : instruction.Sound) {field : Field}
    {number : Int} (reads : instruction.field field = .ok number) : 0 ≤ number := by
  have each : ∃ value, instruction.field field = .ok value ∧ 0 ≤ value := by
    cases field with
    | u => exact sound.u
    | a => exact sound.a
    | b => exact sound.b
  obtain ⟨value, known, nonneg⟩ := each
  obtain rfl := Except.ok.inj (known.symm.trans reads)
  exact nonneg

theorem Sound.confined {instruction : Instruction} (sound : instruction.Sound)
    (allowed : Fault → Prop) : instruction.Confined allowed where
  opcode := .of_exists sound.opcode
  u := .of_exists (sound.u.imp fun _ reads => reads.1)
  s := .of_exists sound.s
  a := .of_exists (sound.a.imp fun _ reads => reads.1)
  b := .of_exists (sound.b.imp fun _ reads => reads.1)

/-- A word that cannot be read has a fault of its own. -/
theorem confined_of_unplaced {allowed : Fault → Prop}
    (word : ∀ fault, fault.isUnplaced = true → allowed fault) (instruction : Instruction) :
    instruction.Confined allowed := by
  have shift {width : Int} {value : Except Fault Int}
      (reads : width < 0 ∨ ∃ result, value = .ok result) :
      Stops allowed (if width < 0 then .error .negativeShift else value) := by
    by_cases negative : width < 0
    · rw [if_pos negative]
      exact .error (word _ rfl)
    · rw [if_neg negative]
      exact .of_exists (reads.resolve_left negative)
  have low (value width : Int) : Stops allowed (lowBits value width) := shift (.inr ⟨_, rfl⟩)
  have down (value width : Int) : Stops allowed (shiftDown value width) := shift (.inr ⟨_, rfl⟩)
  have middle (width : Int) : Stops allowed (bias width) := shift (.inr ⟨_, rfl⟩)
  refine ⟨(low _ _).bind fun number _ => ?_, down _ _, (down _ _).bind fun unsigned _ => ?_,
    down _ _, (down _ _).bind fun unsigned _ => low _ _⟩
  · cases Opcode.ofNumber? number with
    | some opcode => exact .ok opcode
    | none => exact .error (word _ rfl)
  · exact (middle _).bind fun _ _ => .ok _

theorem confined_of_word {allowed : Fault → Prop}
    (word : ∀ fault, fault.isOfWord = true → allowed fault) (instruction : Instruction) :
    instruction.Confined allowed :=
  confined_of_unplaced (fun fault unplaced => word fault (Fault.isOfWord_of_isUnplaced unplaced))
    instruction

namespace Confined

variable {instruction : Instruction} {allowed : Fault → Prop}
  (confined : instruction.Confined allowed)

include confined

private theorem count (effect : Effect) : Stops allowed (instruction.count effect) := by
  cases effect with
  | fixed number => exact .ok _
  | operand field factor extra =>
    refine Stops.bind ?_ fun value _ => .ok _
    cases field with
    | u => exact confined.u
    | a => exact confined.a
    | b => exact confined.b

theorem pushes : Stops allowed instruction.pushes :=
  confined.opcode.bind fun _ _ => confined.count _

theorem pops : Stops allowed instruction.pops :=
  confined.opcode.bind fun _ _ => confined.count _

theorem skipsAhead : Stops allowed instruction.skipsAhead := by
  refine (confined.opcode.bind fun _ _ => .ok _).bind fun jumps _ => ?_
  cases jumps with
  | false => exact .ok false
  | true => exact confined.s.bind fun _ _ => .ok _

private theorem operandText : Stops allowed instruction.operandText := by
  refine confined.opcode.bind fun opcode _ => ?_
  cases opcode.mode with
  | unsigned => exact confined.u.bind fun _ _ => .ok _
  | signed => exact confined.s.bind fun _ _ => .ok _
  | pair => exact confined.a.bind fun _ _ => confined.b.bind fun _ _ => .ok _
  | plain => exact .ok []

theorem text : Stops allowed instruction.text :=
  confined.opcode.bind fun _ _ => confined.operandText.bind fun _ _ => .ok _

end Confined

end Instruction

end LuaLift
