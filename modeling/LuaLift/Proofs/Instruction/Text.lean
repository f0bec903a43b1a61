import LuaLift.Proofs.Instruction.Operands

/-! The text of an instruction. It is one line, and it tells instructions apart by all that they do:
by the opcode and by the operands that its mode reads. -/
namespace LuaLift

namespace Opcode

@[simp] theorem ofName?_name (opcode : Opcode) : ofName? opcode.name = some opcode := by
  cases opcode <;> rfl

private theorem name_inj {left right : Opcode} (same : left.name = right.name) : left = right := by
  have found := ofName?_name left
  rw [same, ofName?_name] at found
  exact (Option.some.inj found).symm

/-- A name is made of letters and low lines. -/
theorem not_mem_name {mark : Char} (other : mark.isUpper = false) (line : mark ≠ '_')
    (opcode : Opcode) : Symbol.char mark ∉ Text.ofString opcode.name := by
  have letters : opcode.name.toList.all (fun letter => letter.isUpper || letter == '_') = true := by
    cases opcode <;> decide
  intro member
  obtain ⟨letter, among, same⟩ := List.mem_map.mp member
  obtain rfl := Symbol.char.inj same
  have known := List.all_eq_true.mp letters letter among
  simp [other, line] at known

end Opcode

namespace Text

private theorem ofString_inj {left right : String} (same : ofString left = ofString right) :
    left = right := by
  have chars : left.toList = right.toList :=
    (List.map_inj_right fun _ _ => Symbol.char.inj).mp same
  exact String.toList_inj.mp chars

end Text

namespace Instruction

variable {instruction left right : Instruction} {opcode : Opcode} {operands shown : Text}

private theorem text_eq_ok : instruction.text = .ok shown ↔
    ∃ opcode operands, instruction.opcode = .ok opcode ∧ instruction.operandText = .ok operands ∧
      Text.ofString opcode.name ++ "(" ++ operands ++ ")" = shown := by
  simp only [text, bind_eq_ok, pure_eq_ok]
  constructor
  · intro written
    obtain ⟨opcode, known, operands, reads, same⟩ := written
    exact ⟨opcode, operands, known, reads, same⟩
  · intro written
    obtain ⟨opcode, operands, known, reads, same⟩ := written
    exact ⟨opcode, known, operands, reads, same⟩

/-- The opcode is known, and no field has a negative width. -/
structure Writable (instruction : Instruction) : Prop where
  known : ∃ opcode, instruction.opcode = .ok opcode
  low : 0 ≤ instruction.widths.low
  inside : instruction.widths.opcode ≤ instruction.widths.word

theorem Writable.exists_text (writable : instruction.Writable) :
    ∃ shown, instruction.text = .ok shown := by
  obtain ⟨⟨opcode, known⟩, low, inside⟩ := writable
  have first : ¬ instruction.widths.opcode < 0 := by
    intro negative
    simp only [Instruction.opcode, opcodeField, lowBits, if_pos negative] at known
    cases known
  obtain ⟨value, u⟩ : ∃ value, instruction.u = .ok value := ⟨_, if_neg first⟩
  obtain ⟨distance, s⟩ : ∃ distance, instruction.s = .ok distance := by
    have middle : bias (instruction.widths.word - instruction.widths.opcode) = .ok _ :=
      if_neg (by omega)
    simp only [s, u, middle]
    exact ⟨_, rfl⟩
  obtain ⟨high, a⟩ : ∃ high, instruction.a = .ok high := ⟨_, if_neg (by omega)⟩
  obtain ⟨bits, b⟩ : ∃ bits, instruction.b = .ok bits := by
    simp only [b, u]
    exact ⟨_, if_neg (by omega)⟩
  have reads : ∃ operands, instruction.operandText = .ok operands := by
    rw [operandText_of_opcode known, u, s, a, b]
    cases opcode.mode <;> exact ⟨_, rfl⟩
  obtain ⟨operands, reads⟩ := reads
  exact ⟨_, text_eq_ok.mpr ⟨opcode, operands, known, reads, rfl⟩⟩

private theorem not_mem_operandText {mark : Char} (minus : mark ≠ '-')
    (other : mark.isDigit = false)
    (comma : mark ≠ ',') (blank : mark ≠ ' ') (shown : instruction.operandText = .ok operands) :
    Symbol.char mark ∉ operands := by
  have absent (value : Int) : Symbol.char mark ∉ Text.decimal value :=
    Text.not_mem_decimal minus other value
  have between : Symbol.char mark ∉ Text.ofString ", " := by
    simp [Text.ofString, Text.ofChars, comma, blank]
  obtain ⟨opcode, known, read⟩ := bind_eq_ok.mp shown
  cases mode : opcode.mode with
  | unsigned =>
    simp only [mode, bind_eq_ok, pure_eq_ok] at read
    obtain ⟨value, _, rfl⟩ := read
    exact absent value
  | signed =>
    simp only [mode, bind_eq_ok, pure_eq_ok] at read
    obtain ⟨value, _, rfl⟩ := read
    exact absent value
  | pair =>
    simp only [mode, bind_eq_ok, pure_eq_ok] at read
    obtain ⟨high, _, low, _, rfl⟩ := read
    simp [absent, between]
  | plain =>
    simp only [mode, pure_eq_ok] at read
    subst operands
    exact List.not_mem_nil

theorem unbroken_text (written : instruction.text = .ok shown) : Text.lineFeed ∉ shown := by
  obtain ⟨opcode, operands, _, reads, rfl⟩ := text_eq_ok.mp written
  have name : Text.lineFeed ∉ Text.ofString opcode.name :=
    Opcode.not_mem_name (by decide) (by decide) opcode
  have inner : Text.lineFeed ∉ operands :=
    not_mem_operandText (by decide) (by decide) (by decide) (by decide) reads
  simp only [List.mem_append, not_or]
  exact ⟨⟨⟨name, by decide⟩, inner⟩, by decide⟩

/-- Instructions with the same text are the same. -/
theorem Same.of_text (written : left.text = .ok shown) (writes : right.text = .ok shown) :
    left.Same right := by
  obtain ⟨opcode, operands, known, reads, rfl⟩ := text_eq_ok.mp written
  obtain ⟨other, others, also, shows, same⟩ := text_eq_ok.mp writes
  have bracket (opcode : Opcode) : Symbol.char '(' ∉ Text.ofString opcode.name :=
    Opcode.not_mem_name (by decide) (by decide) opcode
  simp only [List.append_assoc] at same
  obtain ⟨name, behind⟩ := cut_inj (bracket other) (bracket opcode) same
  have ends : others ++ Text.ofString ")" = operands ++ Text.ofString ")" := behind
  obtain rfl := Opcode.name_inj (Text.ofString_inj name)
  obtain rfl := List.append_cancel_right ends
  exact ⟨other, known, also, .of_operandText known also reads shows⟩

end Instruction

end LuaLift
