import LuaLift.Instruction
import LuaLift.Proofs.Outcome

/-! What an instruction does to the stack, and whether it may skip others. A jump leaves nothing,
and no word of a chunk takes or leaves fewer values than none. -/
namespace LuaLift

private theorem shiftDown_nonneg {value width result : Int} (nonneg : 0 ≤ value)
    (shifted : shiftDown value width = .ok result) : 0 ≤ result := by
  unfold shiftDown at shifted
  split at shifted
  · cases shifted
  · cases shifted
    exact Int.ediv_nonneg nonneg (Int.pow_nonneg (by decide))

private theorem lowBits_nonneg {value width result : Int}
    (kept : lowBits value width = .ok result) :
    0 ≤ result := by
  unfold lowBits at kept
  split at kept
  · cases kept
  · cases kept
    exact Int.emod_nonneg _ (Int.pow_ne_zero (by decide))

private theorem Opcode.pushes_of_isJump {opcode : Opcode} (jumps : opcode.isJump = true) :
    opcode.pushes = .fixed 0 := by
  cases opcode <;> first | rfl | exact absurd jumps (by decide)

namespace Instruction

variable {instruction : Instruction} {opcode : Opcode} {pushed value : Int}

theorem isJump_eq_ok : instruction.isJump = .ok flag ↔
    ∃ opcode, instruction.opcode = .ok opcode ∧ opcode.isJump = flag := by
  simp only [isJump, bind_eq_ok, pure_eq_ok]

theorem pushes_of_opcode (known : instruction.opcode = .ok opcode) :
    instruction.pushes = instruction.count opcode.pushes := by
  simp only [pushes, known]
  rfl

theorem pops_of_opcode (known : instruction.opcode = .ok opcode) :
    instruction.pops = instruction.count opcode.pops := by
  simp only [pops, known]
  rfl

theorem opcode_of_pushes (pushes : instruction.pushes = .ok pushed) :
    ∃ opcode, instruction.opcode = .ok opcode := by
  simp only [Instruction.pushes, bind_eq_ok] at pushes
  obtain ⟨opcode, known, _⟩ := pushes
  exact ⟨opcode, known⟩

/-- What may skip the instructions after it leaves nothing on the stack. -/
theorem pushes_of_isJump (jumps : instruction.isJump = .ok true) :
    instruction.pushes = .ok 0 := by
  obtain ⟨opcode, known, isJump⟩ := isJump_eq_ok.mp jumps
  rw [pushes_of_opcode known, Opcode.pushes_of_isJump isJump]
  rfl

theorem isJump_of_pushes (pushes : instruction.pushes = .ok pushed)
    (leaves : pushed ≠ 0) : instruction.isJump = .ok false := by
  obtain ⟨opcode, known⟩ := opcode_of_pushes pushes
  cases jumps : opcode.isJump with
  | false => exact isJump_eq_ok.mpr ⟨opcode, known, jumps⟩
  | true =>
    have none := pushes_of_isJump (isJump_eq_ok.mpr ⟨opcode, known, jumps⟩)
    exact absurd (Except.ok.inj (pushes.symm.trans none)) leaves

theorem skipsAhead_of_not_jump (stays : instruction.isJump = .ok false) :
    instruction.skipsAhead = .ok false := by
  simp only [skipsAhead, stays]
  rfl

/-- An instruction skips others exactly when it is a jump over a positive distance. -/
theorem skipsAhead_eq_true :
    instruction.skipsAhead = .ok true ↔
      instruction.isJump = .ok true ∧ ∃ distance, instruction.s = .ok distance ∧ 0 < distance := by
  simp only [skipsAhead, bind_eq_ok]
  constructor
  · rintro ⟨jumps, known, skips⟩
    cases jumps with
    | false => cases skips
    | true =>
      simp only [↓reduceIte, bind_eq_ok, pure_eq_ok, decide_eq_true_eq] at skips
      exact ⟨known, skips⟩
  · rintro ⟨known, ahead⟩
    refine ⟨true, known, ?_⟩
    simpa only [↓reduceIte, bind_eq_ok, pure_eq_ok, decide_eq_true_eq] using ahead

theorem nonneg_of_field (nonneg : 0 ≤ instruction.raw) {field : Field}
    (reads : instruction.field field = .ok value) : 0 ≤ value := by
  cases field with
  | u => exact shiftDown_nonneg nonneg reads
  | a => exact shiftDown_nonneg nonneg reads
  | b =>
    obtain ⟨_, _, low⟩ := bind_eq_ok.mp reads
    exact lowBits_nonneg low

theorem nonneg_of_count (nonneg : 0 ≤ instruction.raw) {effect : Effect}
    (counted : instruction.count effect = .ok value) : 0 ≤ value := by
  cases effect with
  | fixed number =>
    have same : (number : Int) = value := pure_eq_ok.mp counted
    omega
  | operand field factor extra =>
    simp only [count, bind_eq_ok, pure_eq_ok] at counted
    obtain ⟨operand, reads, rfl⟩ := counted
    have small := nonneg_of_field nonneg reads
    have product := Int.mul_nonneg (Int.natCast_nonneg factor) small
    omega

theorem nonneg_of_pushes (nonneg : 0 ≤ instruction.raw) (pushes : instruction.pushes = .ok pushed) :
    0 ≤ pushed := by
  obtain ⟨opcode, known⟩ := opcode_of_pushes pushes
  rw [pushes_of_opcode known] at pushes
  exact nonneg_of_count nonneg pushes

end Instruction

end LuaLift
