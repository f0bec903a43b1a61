import LuaLift.Proofs.Chunk.Whole

/-! Reading and writing chunks undo each other. A chunk that is written is read back, and a chunk
that is read is written as the bytes it was read from, unless these spell something in a way that is
never written. -/
namespace LuaLift

namespace Chunk

variable {bytes : List UInt8} {chunk : Chunk} {encoding : Encoding} {image : Image}

private theorem toBytes?_eq {preamble : Preamble} {main : Prototype}
    (layout : preamble.encoding = .ok encoding) :
    toBytes? ⟨preamble, main⟩ = some (preamble.toBytes ++ main.toBytes encoding) := by
  rw [toBytes?, layout]
  rfl

/-- Writing a chunk and reading it gives the chunk again. The texts and numbers of the chunk that is
read are those its bytes stand for, which are the same wherever any bytes stand for them. -/
theorem ofBytes_of_toBytes {start : List UInt8} {preamble : Preamble} {main : Prototype}
    (accepted : (Preamble.read start).outcome = .ok (preamble, encoding))
    (fits : ∀ part ∈ main.all, part.Fits encoding preamble.widths) :
    ∃ bytes, toBytes? ⟨preamble, main⟩ = some bytes ∧
      (leading bytes).outcome = .ok (⟨preamble, main.reread encoding⟩, bytes.length) ∧
      (ofBytes bytes).outcome = .ok ⟨preamble, main.reread encoding⟩ ∧
      ((∀ part ∈ main.all, part.Readable encoding) → main.reread encoding = main) := by
  rw [Preamble.outcome_read] at accepted
  obtain ⟨readable, _⟩ := Preamble.ofBytes_eq_ok_iff.mp accepted
  have stands := stands_image readable fits
  have bytes : standing ⟨preamble, main.reread encoding⟩ encoding (main.image encoding) =
      preamble.toBytes ++ main.toBytes encoding := by
    rw [standing, Prototype.bytes_image]
  have first := leading_of_stands stands []
  have whole := ofBytes_of_stands stands
  rw [List.append_nil, bytes] at first
  rw [bytes] at whole
  exact ⟨_, toBytes?_eq readable.encoding, first, whole, Prototype.reread_of_readable⟩

/-- Texts, numbers, and a function inside another one are written and read. -/
theorem ofBytes_of_toBytes_nested :
    (Preamble.read compact.toBytes).outcome = .ok (compact, compactEncoding) ∧
      ∃ bytes, toBytes? ⟨compact, nested⟩ = some bytes ∧
        (ofBytes bytes).outcome = .ok ⟨compact, nested.reread compactEncoding⟩ := by
  have accepted : (Preamble.read compact.toBytes).outcome = .ok (compact, compactEncoding) := by
    rw [Preamble.outcome_read]
    exact Preamble.ofBytes_eq_ok_iff.mpr ⟨compact_readable, [], (List.append_nil _).symm⟩
  obtain ⟨bytes, written, _, read, _⟩ := ofBytes_of_toBytes accepted nested_fits
  exact ⟨accepted, bytes, written, read⟩

/-- Only chunks that are laid out as chunks are read: their widths leave room for every field, the
code of every prototype ends the function, and its instructions are known ones of these widths.
Unless a flag is neither zero nor one or a text is a zero byte alone, writing such a chunk gives the
bytes it was read from, those of its numbers included. -/
theorem toBytes_of_ofBytes (read : (ofBytes bytes).outcome = .ok chunk) :
    (chunk.preamble.widths.Fit ∧
      chunk.preamble.widths.word ≤ 8 * chunk.preamble.wordSize) ∧
    (∀ part ∈ chunk.main.all,
      (∃ last, part.code.getLast? = some last ∧ last.opcode = .ok .endCode) ∧
      ∀ instruction ∈ part.code,
        (∃ opcode, instruction.opcode = .ok opcode) ∧
        0 ≤ instruction.raw ∧ instruction.raw < 2 ^ (8 * chunk.preamble.wordSize).toNat ∧
        instruction.widths = chunk.preamble.widths) ∧
    ∃ encoding, chunk.preamble.encoding = .ok encoding ∧
      (∃ image, chunk.Stands encoding image ∧ bytes = chunk.standing encoding image) ∧
      ∀ image, chunk.Stands encoding image → bytes = chunk.standing encoding image →
        (∀ part ∈ image.all, part.Plain) → chunk.toBytes? = some bytes := by
  obtain ⟨encoding, image, stands, rfl⟩ := exists_stands_of_ofBytes read
  obtain ⟨_, _, _, ⟨words, _⟩, _⟩ := Preamble.encoding_eq_ok_iff.mp stands.preamble.encoding
  have width : (8 * chunk.preamble.wordSize).toNat = 8 * encoding.wordSize := by omega
  refine ⟨Preamble.checkWidths_eq_ok_iff.mp stands.preamble.widths, ?_, encoding,
    stands.preamble.encoding, ⟨image, stands, rfl⟩, ?_⟩
  · intro part member
    rw [← stands.main] at member
    obtain ⟨ends, all⟩ := Image.code_of_fitsAll stands.fits part member
    refine ⟨ends, fun instruction inside => ?_⟩
    have fits := all instruction inside
    rw [width]
    exact ⟨fits.opcode, fits.positive, fits.small, fits.widths⟩
  · intro other shown same plain
    rw [same, standing, toBytes?_eq shown.preamble.encoding, ← shown.main, ← Prototype.bytes_image,
      Image.image_prototype shown.fits plain]

/-- A chunk of two functions comes back byte for byte. -/
theorem toBytes_of_ofBytes_nested :
    let bytes : List UInt8 := [27, 76, 117, 97, 64, 0, 2, 4, 4, 32, 6, 9, 4, 77, 149, 205, 5, 0,
      0, 0, 4, 61, 195, 169, 0, 0, 0, 255, 255, 1, 0, 0, 0, 1, 0, 0, 0, 2, 120, 0, 0, 0, 0, 2, 0,
      1, 1, 2, 0, 2, 0, 0, 0, 4, 114, 117, 110, 0, 0, 0, 0, 0, 0, 1, 63, 192, 0, 0, 0, 1, 0, 0,
      0, 0, 255, 253, 0, 0, 0, 0, 0, 0, 0, 0, 0, 0, 0, 0, 0, 0, 0, 0, 1, 0, 0, 0, 0, 0, 2, 0, 0,
      0, 12, 0, 0, 0, 0]
    ∃ chunk, (ofBytes bytes).outcome = .ok chunk ∧ chunk.toBytes? = some bytes := by
  intro bytes
  have layout : bytes = standing ⟨compact, nested.reread compactEncoding⟩ compactEncoding
      (nested.image compactEncoding) := by rfl
  have read := ofBytes_of_stands nested_stands
  rw [← layout] at read
  obtain ⟨_, _, _, chosen, _, written⟩ := toBytes_of_ofBytes read
  obtain rfl := Except.ok.inj (compact_readable.encoding.symm.trans chosen)
  exact ⟨_, read, written _ nested_stands layout (Image.plain_image nested)⟩

end Chunk

end LuaLift
