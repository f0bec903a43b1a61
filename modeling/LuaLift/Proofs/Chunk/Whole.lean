import LuaLift.Proofs.Chunk.Canonical
import LuaLift.Proofs.Chunk.Exact
import LuaLift.Proofs.Preamble

/-! Whole chunks. The bytes of a chunk are those of its preamble and of an image of its prototype;
what comes behind them changes nothing, and a part of them is no chunk. -/
namespace LuaLift.Chunk

variable {bytes : List UInt8} {chunk : Chunk} {encoding : Encoding} {image : Image}

/-- A chunk as it stands in bytes: with the layout its preamble chooses, and an image of its main
prototype. -/
structure Stands (chunk : Chunk) (encoding : Encoding) (image : Image) : Prop where
  preamble : chunk.preamble.Readable encoding
  fits : image.FitsAll encoding chunk.preamble.widths
  main : image.prototype encoding chunk.preamble.widths = chunk.main

/-- The chunk that is read where a prototype was written behind a preamble. -/
theorem stands_image {preamble : Preamble} {main : Prototype} (readable : preamble.Readable encoding)
    (fits : ∀ part ∈ main.all, part.Fits encoding preamble.widths) :
    Stands ⟨preamble, main.reread encoding⟩ encoding (main.image encoding) where
  preamble := readable
  fits := Prototype.fitsAll_image fits
  main := Prototype.prototype_image fits

/-- The bytes in which a chunk stands. -/
def standing (chunk : Chunk) (encoding : Encoding) (image : Image) : List UInt8 :=
  chunk.preamble.toBytes ++ image.bytes encoding

theorem outcome_leading (bytes : List UInt8) :
    (leading bytes).outcome = (do
      let (preamble, encoding) ← Preamble.ofBytes bytes
      let (main, finish) ← (Prototype.parse encoding preamble.widths).reading
        (.start bytes preamble.size.toNat)
      pure (⟨preamble, main⟩, finish.offset)) := by
  simp only [leading, Traced.outcome_bind, Preamble.outcome_read, Traced.outcome_pure]
  rfl

/-- Behind a preamble that can be read, a prototype is read from the bytes that are left. -/
theorem outcome_leading_append {preamble : Preamble} (readable : preamble.Readable encoding)
    (rest : List UInt8) :
    (leading (preamble.toBytes ++ rest)).outcome = (do
      let (main, finish) ← (Prototype.parse encoding preamble.widths).reading
        (.before preamble.toBytes.length rest)
      pure (⟨preamble, main⟩, finish.offset)) := by
  have read := Preamble.ofBytes_eq_ok_iff.mpr ⟨readable, rest, rfl⟩
  have size : preamble.size.toNat = preamble.toBytes.length := by
    rw [← readable.length_toBytes, Int.toNat_natCast]
  have start : Cursor.start (preamble.toBytes ++ rest) preamble.size.toNat =
      .before preamble.toBytes.length rest := by
    rw [size, Cursor.start_append]
  rw [outcome_leading, read, ← start]
  rfl

/-- A chunk that stands at the start of the bytes is read from there, whatever comes behind it. -/
theorem leading_of_stands (stands : chunk.Stands encoding image) (rest : List UInt8) :
    (leading (chunk.standing encoding image ++ rest)).outcome =
      .ok (chunk, (chunk.standing encoding image).length) := by
  have parsed := (Prototype.exact_parse encoding chunk.preamble.widths).complete
    chunk.preamble.toBytes.length rest (Nat.le_refl _) ⟨image, stands.fits, rfl, stands.main⟩
  rw [standing, List.append_assoc, outcome_leading_append stands.preamble, parsed, List.length_append]
  rfl

/-- Only a chunk that stands at the start of the bytes is read from them. -/
theorem exists_stands_of_leading {consumed : Nat}
    (read : (leading bytes).outcome = .ok (chunk, consumed)) :
    ∃ encoding image rest, chunk.Stands encoding image ∧
      bytes = chunk.standing encoding image ++ rest ∧
      consumed = (chunk.standing encoding image).length := by
  have first := read
  rw [outcome_leading, bind_eq_ok] at first
  obtain ⟨⟨preamble, encoding⟩, found, _⟩ := first
  obtain ⟨readable, rest, rfl⟩ := Preamble.ofBytes_eq_ok_iff.mp found
  rw [outcome_leading_append readable, bind_eq_ok] at read
  obtain ⟨⟨main, finish⟩, parsed, made⟩ := read
  obtain ⟨rfl, rfl⟩ := Prod.mk.inj (pure_eq_ok.mp made)
  obtain ⟨_, behind, rfl, ⟨image, fits, rfl, shown⟩, rfl⟩ :=
    (Prototype.exact_parse encoding preamble.widths).sound (Nat.le_refl _) parsed
  refine ⟨encoding, image, behind, ⟨readable, fits, shown⟩, (List.append_assoc _ _ _).symm, ?_⟩
  rw [standing, List.length_append]
  rfl

/-- A part of a chunk's bytes ends within the preamble or within the prototype. -/
theorem leading_of_cut (stands : chunk.Stands encoding image) {lost : List UInt8}
    (split : chunk.standing encoding image = bytes ++ lost) (more : lost ≠ []) :
    ∃ fault, (leading bytes).outcome = .error fault ∧
      if (bytes.length : Int) < chunk.preamble.size then
        ∃ problem offset, fault = .preamble problem offset
      else ∃ problem index offset, fault = .malformed problem index offset := by
  have size := stands.preamble.length_toBytes
  rcases Exact.ends_of_append split.symm with ⟨present, rfl, rest⟩ | ⟨missing, whole, some⟩
  · obtain ⟨problem, index, offset, fails⟩ :=
      (Prototype.exact_parse encoding chunk.preamble.widths).cut chunk.preamble.toBytes.length
        (Nat.le_refl _) ⟨image, stands.fits, rest, stands.main⟩ more
    refine ⟨.malformed problem index offset, ?_, ?_⟩
    · rw [outcome_leading_append stands.preamble, fails]
      rfl
    · rw [if_neg (by rw [List.length_append]; omega)]
      exact ⟨problem, index, offset, rfl⟩
  · obtain ⟨problem, offset, fails⟩ := stands.preamble.ofBytes_of_cut whole some
    refine ⟨.preamble problem offset, ?_, ?_⟩
    · rw [outcome_leading, fails]
      rfl
    · have nonempty := List.length_pos_iff.mpr some
      rw [whole, List.length_append] at size
      rw [if_pos (by omega)]
      exact ⟨problem, offset, rfl⟩

theorem outcome_ofBytes (bytes : List UInt8) :
    (ofBytes bytes).outcome = (do
      let (chunk, consumed) ← (leading bytes).outcome
      if consumed = bytes.length then pure chunk
      else throw (.malformed (.trailingBytes (bytes.length - consumed)) none (some consumed))) := by
  simp only [ofBytes, Traced.outcome_bind]
  congr 1
  funext ⟨chunk, consumed⟩
  split <;> rfl

theorem ofBytes_of_stands (stands : chunk.Stands encoding image) :
    (ofBytes (chunk.standing encoding image)).outcome = .ok chunk := by
  have read := leading_of_stands stands []
  rw [List.append_nil] at read
  rw [outcome_ofBytes, read]
  exact if_pos rfl

/-- The chunks that are read are those that stand in all of the bytes. -/
theorem exists_stands_of_ofBytes (read : (ofBytes bytes).outcome = .ok chunk) :
    ∃ encoding image, chunk.Stands encoding image ∧ bytes = chunk.standing encoding image := by
  rw [outcome_ofBytes, bind_eq_ok] at read
  obtain ⟨⟨found, consumed⟩, first, checked⟩ := read
  obtain ⟨encoding, image, rest, stands, rfl, rfl⟩ := exists_stands_of_leading first
  by_cases whole : (found.standing encoding image).length =
      (found.standing encoding image ++ rest).length
  · obtain rfl : rest = [] := by simpa using whole
    simp only [whole, ↓reduceIte, pure_eq_ok] at checked
    obtain rfl := checked
    exact ⟨encoding, image, stands, List.append_nil _⟩
  · simp only [whole, ↓reduceIte, throw_eq_ok] at checked

/-- The instructions of a chunk that is read are known ones, and their fields fit into a word. -/
theorem instruction_of_ofBytes (read : (ofBytes bytes).outcome = .ok chunk) :
    ∀ part ∈ chunk.main.all, ∀ instruction ∈ part.code,
      instruction.widths.Fit ∧ ∃ opcode, instruction.opcode = .ok opcode := by
  obtain ⟨encoding, image, stands, rfl⟩ := exists_stands_of_ofBytes read
  obtain ⟨fit, _⟩ := Preamble.checkWidths_eq_ok_iff.mp stands.preamble.widths
  rw [← stands.main]
  intro part member instruction inside
  have fits := (Image.code_of_fitsAll stands.fits part member).2 instruction inside
  exact ⟨fits.widths ▸ fit, fits.opcode⟩

/-- A function with another one inside it. -/
def nested : Prototype := { (default : Prototype) with
  source := "=é"
  paramCount := -1
  isVararg := true
  locals := [⟨"x", 0, 2⟩]
  lines := [258]
  strings := ["run", []]
  numbers := [.ofSingleBits 0x3FC00000]
  functions := [{ (default : Prototype) with line := -3, code := [⟨0, {}⟩] }]
  code := [⟨12, {}⟩, ⟨0, {}⟩] }

/-- Most significant bytes first, and four bytes for numbers. -/
def compact : Preamble := ⟨0, 2, 4, 4, {}, 4, [77, 149, 205, 5]⟩

def compactEncoding : Encoding := ⟨.big, 2, 4, 4, .single⟩

theorem compact_readable : compact.Readable compactEncoding := ⟨rfl, rfl, rfl⟩

theorem nested_fits : ∀ part ∈ nested.all, part.Fits compactEncoding compact.widths := by decide

theorem nested_stands :
    Stands ⟨compact, nested.reread compactEncoding⟩ compactEncoding (nested.image compactEncoding) :=
  stands_image compact_readable nested_fits

/-- No chunk is the beginning of another one. With more bytes behind it a chunk is still read first
and the bytes are counted as too many; a part of it that ends in the preamble is no preamble, and
any other part is malformed. -/
theorem prefix_free (read : (ofBytes bytes).outcome = .ok chunk) :
    (∀ more, (leading (bytes ++ more)).outcome = .ok (chunk, bytes.length) ∧
      (more ≠ [] → (ofBytes (bytes ++ more)).outcome =
        .error (.malformed (.trailingBytes more.length) none (some bytes.length)))) ∧
    ∀ count < bytes.length, ∃ fault, (ofBytes (bytes.take count)).outcome = .error fault ∧
      if (count : Int) < chunk.preamble.size then
        ∃ problem offset, fault = .preamble problem offset
      else ∃ problem index offset, fault = .malformed problem index offset := by
  obtain ⟨encoding, image, stands, rfl⟩ := exists_stands_of_ofBytes read
  refine ⟨fun more => ?_, fun count short => ?_⟩
  · have first := leading_of_stands stands more
    refine ⟨first, fun some => ?_⟩
    have nonempty := List.length_pos_iff.mpr some
    have longer : (chunk.standing encoding image).length ≠
        (chunk.standing encoding image ++ more).length := by
      rw [List.length_append]
      omega
    have count : (chunk.standing encoding image ++ more).length -
        (chunk.standing encoding image).length = more.length := by
      rw [List.length_append, Nat.add_sub_cancel_left]
    rw [outcome_ofBytes, first]
    change (if _ = _ then pure chunk else throw _ : Except Fault Chunk) = _
    rw [if_neg longer, count]
    rfl
  · have split := (List.take_append_drop count (chunk.standing encoding image)).symm
    have more : (chunk.standing encoding image).drop count ≠ [] := by
      simp only [ne_eq, List.drop_eq_nil_iff]
      omega
    obtain ⟨fault, fails, kind⟩ := leading_of_cut stands split more
    rw [List.length_take_of_le (Nat.le_of_lt short)] at kind
    refine ⟨fault, ?_, kind⟩
    rw [outcome_ofBytes, fails]
    rfl

/-- More bytes behind two functions, and the bytes cut off within the inner one. -/
theorem prefix_free_of_nested :
    let bytes := standing ⟨compact, nested⟩ compactEncoding (nested.image compactEncoding)
    (∃ chunk, (ofBytes bytes).outcome = .ok chunk) ∧
      (ofBytes (bytes ++ [0, 0])).outcome =
        .error (.malformed (.trailingBytes 2) none (some 107)) ∧
      ∃ problem index offset, (ofBytes (bytes.take 80)).outcome =
        .error (.malformed problem index offset) := by
  intro bytes
  have read := ofBytes_of_stands nested_stands
  obtain ⟨extended, cut⟩ := prefix_free read
  obtain ⟨fault, fails, kind⟩ := cut 80 (by decide)
  rw [if_neg (by decide)] at kind
  obtain ⟨problem, index, offset, rfl⟩ := kind
  exact ⟨⟨_, read⟩, (extended [0, 0]).2 (by decide), problem, index, offset, fails⟩

end LuaLift.Chunk
