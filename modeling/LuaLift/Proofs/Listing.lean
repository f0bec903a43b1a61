import LuaLift.Listing
import LuaLift.Proofs.Instruction.Faults
import LuaLift.Proofs.Prototype.Induction
import LuaLift.Proofs.Text.Plain

/-! The lines of instructions that can be read. There is one for each of them, and what cannot be
shown as itself comes into it only with the name of a local. -/
namespace LuaLift

/-- There is a result, and it is a good one. -/
def Yields (good : α → Prop) (outcome : Except ε α) : Prop :=
  ∃ value, outcome = .ok value ∧ good value

namespace Yields

variable {good : α → Prop} {kept : β → Prop}

theorem ok {value : α} (fine : good value) : Yields good (.ok value : Except ε α) :=
  ⟨value, rfl, fine⟩

theorem bind {first : Except ε α} {next : α → Except ε β} (start : Yields good first)
    (follow : ∀ value, good value → Yields kept (next value)) : Yields kept (first >>= next) := by
  obtain ⟨value, rfl, fine⟩ := start
  exact follow value fine

/-- Nothing but a result needs to be known of a step whose value does not matter. -/
theorem known {first : Except ε α} {next : α → Except ε β} (start : ∃ value, first = .ok value)
    (follow : ∀ value, Yields kept (next value)) : Yields kept (first >>= next) := by
  obtain ⟨value, rfl⟩ := start
  exact follow value

end Yields

variable {names : Symbol → Prop}

/-- A text found in a list, or else none, is legible where all that can be found is. -/
theorem Text.legible_itemAt? {items : List α} {index : Int} {view : α → Text}
    (each : ∀ item ∈ items, (view item).Legible names) :
    Text.Legible names (((itemAt? items index).map view).getD []) := by
  cases found : itemAt? items index with
  | none => exact legible_nil
  | some item => exact each item (mem_of_itemAt? found)

private theorem Opcode.isAscii_mnemonic (opcode : Opcode) :
    (Text.ofString opcode.mnemonic).all Symbol.isAscii = true := by
  cases opcode <;> decide

namespace Instruction.Sound

variable {instruction : Instruction} (sound : instruction.Sound)

include sound

private theorem exists_u : ∃ value, instruction.u = .ok value := sound.u.imp fun _ reads => reads.1

private theorem exists_a : ∃ value, instruction.a = .ok value := sound.a.imp fun _ reads => reads.1

private theorem exists_b : ∃ value, instruction.b = .ok value := sound.b.imp fun _ reads => reads.1

private theorem legible_operandText : Yields (Text.Legible names) instruction.operandText := by
  refine .known sound.opcode fun opcode => ?_
  cases opcode.mode with
  | unsigned => exact .known sound.exists_u fun value => .ok (Text.legible_decimal value)
  | signed => exact .known sound.s fun value => .ok (Text.legible_decimal value)
  | pair =>
    have comma : Text.Legible names ", " := Text.legible_of_ascii (by decide)
    exact .known sound.exists_a fun high => .known sound.exists_b fun low => .ok (by simp [comma])
  | plain => exact .ok Text.legible_nil

end Instruction.Sound

namespace Listing

variable {prototype : Prototype} {instruction : Instruction}

/-- The text of a constant or of a variable, if the prototype has it. -/
theorem legible_found {items : List α} {view : α → Text}
    (each : ∀ item ∈ items, (view item).Legible names) (sound : instruction.Sound) :
    Yields (Text.Legible names) (do
      let number ← instruction.u
      let found ← findItem .list items number
      pure ((found.map view).getD [])) := by
  obtain ⟨number, reads, nonneg⟩ := sound.u
  rw [reads]
  change Yields _ (findItem .list items number >>= _)
  rw [findItem_of_nonneg _ nonneg]
  exact .ok (Text.legible_itemAt? each)

private theorem legible_comment (legible : prototype.Legible names) (sound : instruction.Sound)
    (index : Int) : Yields (Text.Legible names) (comment prototype index instruction) := by
  have worded {word : String} (ascii : (Text.ofString word).all Symbol.isAscii = true)
      (value : Int) : Text.Legible names (word ++ Text.decimal value) :=
    Text.legible_append.mpr ⟨Text.legible_of_ascii ascii, Text.legible_decimal value⟩
  refine .known sound.opcode fun opcode => ?_
  split
  iterate 5 exact legible_found (fun text _ => text.legible_shown) sound
  iterate 2 exact legible_found (fun number _ => number.legible_general) sound
  iterate 3 exact legible_found legible.locals sound
  · exact .known sound.exists_a fun value => .ok (worded (by decide) value)
  · split
    · exact .known sound.s fun value => .ok (worded (by decide) _)
    · exact .ok Text.legible_nil

theorem legible_instructionLine (legible : prototype.Legible names) (sound : instruction.Sound)
    (index : Nat) : Yields (Text.Legible names) (instructionLine prototype index instruction) := by
  have operands : Yields (Text.Legible names) instruction.operandText := sound.legible_operandText
  refine .known sound.opcode fun opcode => operands.bind fun operands shown => ?_
  refine (legible_comment legible sound index).bind fun comment noted =>
    .ok (Text.legible_trimEnd ?_)
  have mnemonic : Text.Legible names opcode.mnemonic :=
    Text.legible_of_ascii opcode.isAscii_mnemonic
  split
  · simp only [Text.legible_append, Text.legible_padLeft, Text.legible_padRight,
      Text.legible_decimal, Text.legible_paddedHex, mnemonic, shown, true_and, and_true]
    and_intros <;> exact Text.legible_of_ascii (by decide)
  · simp only [Text.legible_append, Text.legible_padLeft, Text.legible_padRight,
      Text.legible_decimal, Text.legible_paddedHex, mnemonic, shown, noted, true_and,
      and_true]
    and_intros <;> exact Text.legible_of_ascii (by decide)

theorem legible_localLine (slot : Nat) {entry : Local} (legible : entry.name.Legible names) :
    (localLine slot entry).Legible names := by
  simp only [localLine, Text.legible_append, Text.legible_decimal, legible, and_true]
  and_intros <;> exact Text.legible_of_ascii (by decide)

end Listing

end LuaLift
