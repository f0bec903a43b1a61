import LuaLift.Proofs.Instruction.Effect
import LuaLift.Proofs.Instruction.Fields
import LuaLift.Proofs.Text.Numeral

/-! Instructions that differ only in how their words are laid out. What an instruction does, and
how it is shown, rests on its opcode and on the operands that the opcode's mode reads. -/
namespace LuaLift

/-- The effect takes no operand that the mode does not read. -/
def Effect.Within : Effect → Mode → Prop
  | .fixed _, _ => True
  | .operand .u _ _, mode => mode = .unsigned
  | .operand .a _ _, mode | .operand .b _ _, mode => mode = .pair

private theorem Opcode.pushes_within (opcode : Opcode) : opcode.pushes.Within opcode.mode := by
  cases opcode <;> trivial

private theorem Opcode.pops_within (opcode : Opcode) : opcode.pops.Within opcode.mode := by
  cases opcode <;> trivial

private theorem Opcode.mode_of_isJump {opcode : Opcode} (jumps : opcode.isJump = true) :
    opcode.mode = .signed := by
  cases opcode <;> first | rfl | exact absurd jumps (by decide)

namespace Instruction

variable {left right : Instruction} {opcode : Opcode}

/-- The same opcode, and the same operands in the reading of its mode. -/
structure Alike (left right : Instruction) : Prop where
  opcode : left.opcode = right.opcode
  operands : left.operandText = right.operandText

/-- The operands that a mode reads can be read, and are the same. -/
def Shares (left right : Instruction) : Mode → Prop
  | .unsigned => ∃ value, left.u = .ok value ∧ right.u = .ok value
  | .signed => ∃ value, left.s = .ok value ∧ right.s = .ok value
  | .pair => (∃ high, left.a = .ok high ∧ right.a = .ok high) ∧
      ∃ low, left.b = .ok low ∧ right.b = .ok low
  | .plain => True

/-- Two readable instructions of the same opcode with the same operands. -/
def Same (left right : Instruction) : Prop :=
  ∃ opcode, left.opcode = .ok opcode ∧ right.opcode = .ok opcode ∧ left.Shares right opcode.mode

section Readable

variable {instruction : Instruction} (fit : instruction.widths.Fit)

include fit

theorem opcodeField_of_fit : ∃ number, instruction.opcodeField = .ok number :=
  ⟨_, opcodeField_eq fit⟩

theorem u_of_fit : ∃ value, instruction.u = .ok value := ⟨_, u_eq fit⟩

theorem s_of_fit : ∃ value, instruction.s = .ok value := ⟨_, s_eq fit⟩

theorem a_of_fit : ∃ value, instruction.a = .ok value := ⟨_, a_eq fit⟩

theorem b_of_fit : ∃ value, instruction.b = .ok value := ⟨_, b_eq fit⟩

end Readable

theorem operandText_of_opcode (known : left.opcode = .ok opcode) :
    left.operandText = (match opcode.mode with
      | .unsigned => do pure (Text.decimal (← left.u))
      | .signed => do pure (Text.decimal (← left.s))
      | .pair => do pure (Text.decimal (← left.a) ++ ", " ++ Text.decimal (← left.b))
      | .plain => pure []) := by
  simp only [operandText, known]
  rfl

private theorem skipsAhead_of_opcode (known : left.opcode = .ok opcode) :
    left.skipsAhead =
      if opcode.isJump = true then (do pure (decide (0 < (← left.s)))) else pure false := by
  simp only [skipsAhead, isJump, known]
  rfl

/-- Operands that are shown alike are alike, as numerals tell numbers apart. -/
theorem Shares.of_operandText {operands : Text} (known : left.opcode = .ok opcode)
    (also : right.opcode = .ok opcode) (shown : left.operandText = .ok operands)
    (shows : right.operandText = .ok operands) : left.Shares right opcode.mode := by
  rw [operandText_of_opcode known] at shown
  rw [operandText_of_opcode also] at shows
  cases mode : opcode.mode with
  | unsigned =>
    simp only [mode, bind_eq_ok, pure_eq_ok] at shown shows
    obtain ⟨value, reads, rfl⟩ := shown
    obtain ⟨other, others, same⟩ := shows
    obtain rfl := Text.decimal_inj same
    exact ⟨other, reads, others⟩
  | signed =>
    simp only [mode, bind_eq_ok, pure_eq_ok] at shown shows
    obtain ⟨value, reads, rfl⟩ := shown
    obtain ⟨other, others, same⟩ := shows
    obtain rfl := Text.decimal_inj same
    exact ⟨other, reads, others⟩
  | pair =>
    simp only [mode, bind_eq_ok, pure_eq_ok] at shown shows
    obtain ⟨high, reads, low, lowReads, rfl⟩ := shown
    obtain ⟨other, others, another, lowOthers, same⟩ := shows
    obtain ⟨rfl, rfl⟩ := Text.decimal_pair_inj same
    exact ⟨⟨other, reads, others⟩, another, lowReads, lowOthers⟩
  | plain => trivial

private theorem operandText_of_fit (known : left.opcode = .ok opcode) (fit : left.widths.Fit) :
    ∃ operands, left.operandText = .ok operands := by
  obtain ⟨value, u⟩ := u_of_fit fit
  obtain ⟨distance, s⟩ := s_of_fit fit
  obtain ⟨high, a⟩ := a_of_fit fit
  obtain ⟨low, b⟩ := b_of_fit fit
  rw [operandText_of_opcode known, u, s, a, b]
  cases opcode.mode <;> exact ⟨_, rfl⟩

theorem Alike.same (alike : left.Alike right) (known : left.opcode = .ok opcode)
    (fit : left.widths.Fit) : left.Same right := by
  have also : right.opcode = .ok opcode := alike.opcode ▸ known
  obtain ⟨operands, shown⟩ := operandText_of_fit known fit
  exact ⟨opcode, known, also, .of_operandText known also shown (alike.operands ▸ shown)⟩

namespace Same

variable (same : left.Same right)

include same

theorem opcode_eq : left.opcode = right.opcode := by
  obtain ⟨opcode, known, rightKnown, _⟩ := same
  rw [known, rightKnown]

theorem shares (known : left.opcode = .ok opcode) : left.Shares right opcode.mode := by
  obtain ⟨other, otherKnown, _, shared⟩ := same
  obtain rfl := Except.ok.inj (known.symm.trans otherKnown)
  exact shared

private theorem count_eq {effect : Effect} (known : left.opcode = .ok opcode)
    (within : effect.Within opcode.mode) : left.count effect = right.count effect := by
  have shared := same.shares known
  cases effect with
  | fixed number => rfl
  | operand field factor extra =>
    cases field with
    | u =>
      rw [within] at shared
      obtain ⟨value, reads, also⟩ := shared
      simp only [Instruction.count, field, reads, also]
    | a =>
      rw [within] at shared
      obtain ⟨⟨value, reads, also⟩, _⟩ := shared
      simp only [Instruction.count, field, reads, also]
    | b =>
      rw [within] at shared
      obtain ⟨_, value, reads, also⟩ := shared
      simp only [Instruction.count, field, reads, also]

theorem pushes_eq : left.pushes = right.pushes := by
  obtain ⟨opcode, known, rightKnown, _⟩ := id same
  rw [pushes_of_opcode known, pushes_of_opcode rightKnown,
    same.count_eq known opcode.pushes_within]

theorem pops_eq : left.pops = right.pops := by
  obtain ⟨opcode, known, rightKnown, _⟩ := id same
  rw [pops_of_opcode known, pops_of_opcode rightKnown, same.count_eq known opcode.pops_within]

theorem skipsAhead_eq : left.skipsAhead = right.skipsAhead := by
  obtain ⟨opcode, known, rightKnown, shared⟩ := same
  rw [skipsAhead_of_opcode known, skipsAhead_of_opcode rightKnown]
  by_cases jumps : opcode.isJump = true
  · rw [Opcode.mode_of_isJump jumps] at shared
    obtain ⟨value, reads, also⟩ := shared
    rw [reads, also]
  · rw [if_neg jumps, if_neg jumps]

/-- What skips others is read as a signed distance. -/
theorem s_eq_of_skipsAhead (ahead : left.skipsAhead = .ok true) : left.s = right.s := by
  obtain ⟨opcode, known, jumps⟩ := isJump_eq_ok.mp (skipsAhead_eq_true.mp ahead).1
  have shared := same.shares known
  rw [Opcode.mode_of_isJump jumps] at shared
  obtain ⟨value, reads, also⟩ := shared
  rw [reads, also]

private theorem operandText :
    ∃ shown, left.operandText = .ok shown ∧ right.operandText = .ok shown := by
  obtain ⟨opcode, known, rightKnown, shared⟩ := same
  rw [operandText_of_opcode known, operandText_of_opcode rightKnown]
  cases mode : opcode.mode with
  | unsigned =>
    rw [mode] at shared
    obtain ⟨value, reads, also⟩ := shared
    rw [reads, also]
    exact ⟨_, rfl, rfl⟩
  | signed =>
    rw [mode] at shared
    obtain ⟨value, reads, also⟩ := shared
    rw [reads, also]
    exact ⟨_, rfl, rfl⟩
  | pair =>
    rw [mode] at shared
    obtain ⟨⟨high, reads, also⟩, low, lowReads, lowAlso⟩ := shared
    rw [reads, also, lowReads, lowAlso]
    exact ⟨_, rfl, rfl⟩
  | plain => exact ⟨_, rfl, rfl⟩

/-- Both are shown, and alike. -/
theorem text : ∃ shown, left.text = .ok shown ∧ right.text = .ok shown := by
  obtain ⟨shown, leftShown, rightShown⟩ := same.operandText
  obtain ⟨opcode, known, rightKnown, _⟩ := same
  simp only [Instruction.text, known, rightKnown, leftShown, rightShown]
  exact ⟨_, rfl, rfl⟩

end Same

end Instruction

end LuaLift
