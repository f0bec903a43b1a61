import LuaLift.Proofs.Chunk.Whole
import LuaLift.Proofs.Instruction.Faults
import LuaLift.Proofs.Reading.Faults

/-! What can be wrong with the bytes of a chunk. Every fault of loading says at which byte it was
found, and the instructions of a chunk that was loaded can all be read. -/
namespace LuaLift

namespace Prototype

open Reading (Safe)

variable {size : Nat} (encoding : Encoding) {widths : FieldWidths}

private theorem safe_list {parse : Parse α} (safe : Safe size parse.reading) (what : Text) :
    Safe size (parseList encoding what parse).reading := by
  simp only [parseList, Parse.reading_bind, Parse.reading_read]
  exact (Read.Onward.count encoding what).safe.bind fun count => safe.times count

private theorem safe_local : Safe size (parseLocal encoding).reading := by
  simp only [parseLocal, Parse.reading_bind, Parse.reading_read, Parse.reading_pure]
  exact (Read.Onward.text encoding).safe.bind fun _ => (Read.Onward.int encoding).safe.bind fun _ =>
    (Read.Onward.int encoding).safe.bind fun _ => .pure _

private theorem safe_instructions (fit : widths.Fit) (index count : Nat) :
    Safe size (parseInstructions encoding widths index count).reading := by
  induction count generalizing index with
  | zero => exact .pure []
  | succ count ih =>
    simp only [parseInstructions, Parse.reading_bind, Parse.reading_read, Parse.reading_outcome,
      apply_ite Parse.reading, Parse.reading_throw, Parse.reading_pure]
    refine .offset fun place inside => (Read.Onward.word encoding).safe.bind fun raw => ?_
    have field : ∃ number, (⟨raw, widths⟩ : Instruction).opcodeField = .ok number :=
      Instruction.opcodeField_of_fit fit
    refine .known field fun number => .choice (.throw_bind ?_ _) ?_
    · exact ⟨Int.natCast_nonneg place, Int.ofNat_le.mpr inside⟩
    · exact (ih (index + 1)).bind fun rest => .pure _

/-- The last of some instructions was read from as many bytes as a word has. -/
theorem last_of_instructions {code : List Instruction} {last : Instruction} {cursor finish : Cursor}
    (within : cursor.Within size)
    (read : (parseInstructions encoding widths index count).reading cursor = .ok (code, finish))
    (found : code.getLast? = some last) :
    encoding.FitsInstruction widths last ∧ encoding.wordSize ≤ finish.offset := by
  obtain ⟨offset, rest, rfl, rfl⟩ := within
  obtain ⟨word, behind, rfl, ⟨words, ⟨count, all⟩, rfl, rfl⟩, rfl⟩ :=
    (exact_instructions encoding widths index count).sound (Nat.le_refl _) read
  rw [List.getLast?_map, Option.map_eq_some_iff] at found
  obtain ⟨raw, final, rfl⟩ := found
  refine ⟨Image.fitsInstruction_of_fitsWord (all raw (List.mem_of_getLast? final)), ?_⟩
  obtain ⟨others, rfl⟩ := List.getLast?_eq_some_iff.mp final
  simp only [Cursor.before, List.flatMap_append, List.length_append, List.flatMap_cons,
    List.flatMap_nil, List.append_nil, ByteOrder.length_bytesOfNat]
  omega

private theorem safe_code (fit : widths.Fit) : Safe size (parseCode encoding widths).reading := by
  simp only [parseCode, Parse.reading_bind, Parse.reading_read]
  refine .offset fun start inside => (Read.Onward.count encoding _).safe.bind fun count => ?_
  intro cursor within
  refine (safe_instructions encoding fit 0 count cursor within).bind fun code finish read ends => ?_
  cases found : code.getLast? with
  | none => exact .throw (Read.located_malformed _ _ inside)
  | some last =>
    obtain ⟨fits, least⟩ := last_of_instructions encoding within read found
    have sound := Instruction.sound_of_fit (fits.widths ▸ fit) fits.opcode fits.positive
    obtain ⟨opcode, known⟩ := fits.opcode
    obtain ⟨shown, text⟩ := (sound.confined fun _ => False).text.exists_ok
    simp only [Parse.reading_bind, Parse.reading_outcome, apply_ite Parse.reading,
      Parse.reading_pure, Parse.reading_offset]
    refine .known known ?_
    by_cases last : opcode = .endCode
    · rw [if_pos last]
      exact .pure code ends
    · rw [if_neg last]
      refine .known text (.offset (.throw ⟨?_, ?_⟩))
      · omega
      · have inside := ends.offset_le
        omega

private theorem safe_with (fit : widths.Fit) {inner : Parse Prototype}
    (safe : Safe size inner.reading) :
    Safe size (parseWith encoding widths inner).reading := by
  have ints : Safe size (Parse.reading (liftM (Read.int encoding))) := by
    rw [Parse.reading_read]
    exact (Read.Onward.int encoding).safe
  have texts : Safe size (Parse.reading (liftM (Read.text encoding))) := by
    rw [Parse.reading_read]
    exact (Read.Onward.text encoding).safe
  have numbers : Safe size (Parse.reading (liftM (Read.number encoding))) := by
    rw [Parse.reading_read]
    exact (Read.Onward.number encoding).safe
  simp only [parseWith, Parse.reading_bind, Parse.reading_read, Parse.reading_offset,
    Parse.reading_note, Parse.reading_pure, pure_bind]
  exact .offset fun _ _ => (Read.Onward.text encoding).safe.bind fun _ =>
    (Read.Onward.int encoding).safe.bind fun _ => (Read.Onward.int encoding).safe.bind fun _ =>
    Read.Onward.byte.safe.bind fun _ => (Read.Onward.int encoding).safe.bind fun _ =>
    (safe_list encoding (safe_local encoding) _).bind fun _ =>
    (safe_list encoding ints _).bind fun _ => (safe_list encoding texts _).bind fun _ =>
    (safe_list encoding numbers _).bind fun _ => (safe_list encoding safe _).bind fun _ =>
    (safe_code encoding fit).bind fun _ => .pure _

private theorem safe_to (fit : widths.Fit) (depth : Nat) :
    Safe size (parseTo encoding widths depth).reading := by
  induction depth with
  | zero =>
    refine safe_with encoding fit ?_
    simp only [Parse.reading_bind, Parse.reading_read, Parse.reading_pure]
    exact Read.Onward.byte.safe.bind fun _ => .pure default
  | succ depth ih => exact safe_with encoding fit ih

private theorem safe_parse (fit : widths.Fit) : Safe size (parse encoding widths).reading := by
  rintro _ ⟨offset, rest, rfl, rfl⟩
  have contained := safe_to encoding fit rest.length (.before offset rest) ⟨offset, rest, rfl, rfl⟩
  exact ⟨contained.stays, contained.stops⟩

end Prototype

namespace Preamble

variable {preamble : Preamble} {allowed : Fault → Prop}

private theorem stops_encodingAt {offset : Option Int}
    (among : ∀ problem, allowed (.encoding problem offset)) :
    Stops allowed (preamble.encodingAt offset) := by
  rw [encodingAt]
  cases preamble.encoding with
  | ok encoding => exact .ok encoding
  | error problem => exact .error (among problem)

private theorem stops_checkWidths (fields : ∀ problem, allowed (.encoding problem (some 9)))
    (word : ∀ problem, allowed (.encoding problem (some 8))) :
    Stops allowed preamble.checkWidths := by
  refine .refuse (fun _ => fields _) fun _ => .refuse (fun _ => word _) fun _ => ?_
  split
  · exact .error (fields _)
  · exact .ok ()

/-- A preamble that is refused is so for one of its bytes. -/
theorem located_of_ofBytes (bytes : List UInt8) :
    Stops (Fault.LocatedIn bytes.length) (ofBytes bytes) := by
  have placed (long : fixedSize ≤ bytes.length) (offset : Int) (low : 0 ≤ offset)
      (high : offset ≤ 13) : 0 ≤ offset ∧ offset ≤ bytes.length := by
    rw [fixedSize] at long
    omega
  unfold ofBytes
  split
  · have within := placed (by simp only [fixedSize, List.length_cons]; omega)
    refine .refuse (fun _ => within 0 (by decide) (by decide)) fun _ => ?_
    refine .refuse (fun _ => within 1 (by decide) (by decide)) fun _ => ?_
    refine .refuse (fun _ => within 4 (by decide) (by decide)) fun _ => ?_
    refine .refuse (fun _ => within 13 (by decide) (by decide)) fun _ => ?_
    refine Stops.bind ?_ fun encoding _ => Stops.bind ?_ fun _ _ => .ok _
    · exact stops_encodingAt fun _ => within 5 (by decide) (by decide)
    · exact stops_checkWidths (fun _ => within 9 (by decide) (by decide))
        fun _ => within 8 (by decide) (by decide)
  · exact .error ⟨Int.le_refl 0, Int.natCast_nonneg _⟩

end Preamble

namespace Chunk

variable {bytes : List UInt8} {chunk : Chunk}

/-- Whatever is wrong with the bytes of a chunk, the fault names one of them or their end. -/
theorem located_of_chunk (bytes : List UInt8) :
    Stops (Fault.LocatedIn bytes.length) (ofBytes bytes).outcome := by
  rw [outcome_ofBytes, outcome_leading, bind_assoc]
  refine Stops.bind (Preamble.located_of_ofBytes bytes) fun found read => ?_
  obtain ⟨preamble, encoding⟩ := found
  obtain ⟨readable, rest, split⟩ := Preamble.ofBytes_eq_ok_iff.mp read
  have start : (Cursor.start bytes preamble.size.toNat).Within bytes.length := by
    apply Cursor.within_start
    have size := readable.length_toBytes
    rw [split, List.length_append]
    omega
  obtain ⟨fit, _⟩ := Preamble.checkWidths_eq_ok_iff.mp readable.widths
  have contained := Prototype.safe_parse encoding fit _ start
  rw [bind_assoc]
  refine Stops.bind contained.stops fun pair parsed => ?_
  obtain ⟨main, finish⟩ := pair
  have inside := (contained.stays main finish parsed).offset_le
  refine Stops.bind (.ok _) fun result same => ?_
  obtain rfl := Except.ok.inj same
  dsimp only
  split
  · exact .ok _
  · exact .error (Read.located_malformed _ _ inside)

/-- Every instruction of a chunk that was loaded can be read, whatever it asks for. -/
theorem sound_of_chunk (read : (ofBytes bytes).outcome = .ok chunk) :
    ∀ part ∈ chunk.main.all, ∀ instruction ∈ part.code, instruction.Sound := by
  obtain ⟨encoding, image, stands, rfl⟩ := exists_stands_of_ofBytes read
  obtain ⟨fit, _⟩ := Preamble.checkWidths_eq_ok_iff.mp stands.preamble.widths
  rw [← stands.main]
  intro part member instruction inside
  have fits := (Image.code_of_fitsAll stands.fits part member).2 instruction inside
  exact Instruction.sound_of_fit (fits.widths ▸ fit) fits.opcode fits.positive

end Chunk

end LuaLift
