import LuaLift.Proofs.Chunk.Faults
import LuaLift.Proofs.Preamble.Grammar
import LuaLift.Proofs.Reading.Progress

/-! Where a word has no opcode. The fault that tells of it names the word itself and its place, and
its index is the number of words between it and the count of its code, wherever in a chunk the code
stands and however deep its prototype lies. -/
namespace LuaLift

private theorem Opcode.isNone_ofNumber?_iff {number : Nat} :
    (ofNumber? number).isNone = true ↔ 48 < number := by
  have positive : ¬ (number : Int) < 0 := by omega
  have size : all.length = 49 := rfl
  rw [ofNumber?, if_neg positive, Int.toNat_natCast, Option.isNone_iff_eq_none,
    List.getElem?_eq_none_iff, size]
  omega

private theorem Opcode.exists_number_eq {number : Nat} (known : ¬ 48 < number) :
    ∃ opcode : Opcode, number = opcode.number := by
  rw [← isNone_ofNumber?_iff, Option.isNone_iff_eq_none] at known
  obtain ⟨opcode, found⟩ := Option.ne_none_iff_exists'.mp known
  exact ⟨opcode, Int.ofNat_inj.mp (ofNumber?_eq_some_iff.mp found)⟩

/-- The instruction word at a place. -/
def Encoding.wordAt (encoding : Encoding) (bytes : List UInt8) (place : Nat) : Nat :=
  encoding.order.natOf (slice bytes place encoding.wordSize)

/-- The whole number at a place. -/
def Encoding.intAt (encoding : Encoding) (bytes : List UInt8) (place : Nat) : Int :=
  encoding.order.intOf (slice bytes place encoding.intSize)

/-- The number that a word has in its opcode field. -/
def FieldWidths.opcodeOf (widths : FieldWidths) (word : Nat) : Nat := word % 2 ^ widths.opcode.toNat

/-- A word without an opcode at a place. The words of its code before it all have one, and the count
in front of them goes beyond the word. -/
structure Culprit (bytes : List UInt8) (encoding : Encoding) (widths : FieldWidths)
    (raw opcode : Int) (index place : Nat) : Prop where
  inside : place + encoding.wordSize ≤ bytes.length
  word : raw = encoding.wordAt bytes place
  field : opcode = raw % 2 ^ widths.opcode.toNat
  unknown : 48 < opcode
  begun : encoding.intSize + index * encoding.wordSize ≤ place
  count : index < encoding.intAt bytes (place - index * encoding.wordSize - encoding.intSize)
  known : ∀ earlier < index, ∃ known : Opcode,
    widths.opcodeOf (encoding.wordAt bytes (place - (index - earlier) * encoding.wordSize)) =
      known.number

/-- The fault of the first word without an opcode, among so many words from a place on, of which the
one at the place has some index. -/
inductive FirstUnknown (bytes : List UInt8) (encoding : Encoding) (widths : FieldWidths) :
    Nat → Nat → Nat → Fault → Prop where
  | here {place index count : Nat} (inside : place + encoding.wordSize ≤ bytes.length)
      (unknown : 48 < widths.opcodeOf (encoding.wordAt bytes place)) :
      FirstUnknown bytes encoding widths place index (count + 1)
        (.invalidOpcode (encoding.wordAt bytes place)
          (widths.opcodeOf (encoding.wordAt bytes place)) (some index) (some place))
  | behind {place index count : Nat} {fault : Fault} {known : Opcode}
      (first : widths.opcodeOf (encoding.wordAt bytes place) = known.number)
      (rest : FirstUnknown bytes encoding widths (place + encoding.wordSize) (index + 1) count
        fault) : FirstUnknown bytes encoding widths place index (count + 1) fault

/-- If the fault tells of a word at a place, there is a culprit. -/
def Fault.Founded (bytes : List UInt8) (encoding : Encoding) (widths : FieldWidths)
    (fault : Fault) : Prop :=
  ∀ raw opcode index offset, fault = .invalidOpcode raw opcode index (some offset) →
    ∃ position place : Nat, index = some (position : Int) ∧ offset = place ∧
      Culprit bytes encoding widths raw opcode position place

variable {bytes : List UInt8} {encoding : Encoding} {widths : FieldWidths}

/-- How many words were passed on the way to the first unknown one. -/
theorem FirstUnknown.exists_passed {place index count : Nat} {fault : Fault}
    (first : FirstUnknown bytes encoding widths place index count fault) :
    ∃ passed < count, let here := place + passed * encoding.wordSize
      fault = .invalidOpcode (encoding.wordAt bytes here)
        (widths.opcodeOf (encoding.wordAt bytes here)) (some (index + passed : Nat))
        (some here) ∧
      here + encoding.wordSize ≤ bytes.length ∧
      48 < widths.opcodeOf (encoding.wordAt bytes here) ∧
      ∀ earlier < passed, ∃ known : Opcode,
        widths.opcodeOf (encoding.wordAt bytes (place + earlier * encoding.wordSize)) =
          known.number := by
  induction first with
  | here inside unknown => exact ⟨0, Nat.succ_pos _, by simpa using ⟨inside, unknown⟩⟩
  | @behind place index count fault opcode first rest ih =>
    obtain ⟨passed, fewer, same, inside, unknown, known⟩ := ih
    have further (words : Nat) : place + encoding.wordSize + words * encoding.wordSize =
        place + (words + 1) * encoding.wordSize := by
      rw [Nat.succ_mul]
      omega
    have later : index + 1 + passed = index + (passed + 1) := by omega
    simp only [further, later] at same inside unknown known
    refine ⟨passed + 1, Nat.succ_lt_succ fewer, same, inside, unknown, fun earlier before => ?_⟩
    cases earlier with
    | zero => exact ⟨opcode, by simpa using first⟩
    | succ earlier => exact known earlier (Nat.lt_of_succ_lt_succ before)

/-- The words of a code stand behind their count. -/
theorem FirstUnknown.founded {start count : Nat} {fault : Fault}
    (counted : encoding.intAt bytes start = count)
    (first : FirstUnknown bytes encoding widths (start + encoding.intSize) 0 count fault) :
    fault.Founded bytes encoding widths := by
  obtain ⟨passed, fewer, rfl, inside, unknown, known⟩ := first.exists_passed
  rintro raw opcode index offset ⟨⟩
  refine ⟨passed, _, by rw [Nat.zero_add], rfl, inside, rfl, ?_, ?_, by omega, ?_, ?_⟩
  · rw [FieldWidths.opcodeOf]
    push_cast
    rfl
  · exact Int.ofNat_lt.mpr unknown
  · have back : start + encoding.intSize + passed * encoding.wordSize - passed * encoding.wordSize -
        encoding.intSize = start := by omega
    rw [back, counted]
    exact Int.ofNat_lt.mpr fewer
  · intro earlier before
    obtain ⟨words, rfl⟩ := Nat.exists_eq_add_of_lt before
    have back : start + encoding.intSize + (earlier + words + 1) * encoding.wordSize -
        (earlier + words + 1 - earlier) * encoding.wordSize =
        start + encoding.intSize + earlier * encoding.wordSize := by
      have rest : earlier + words + 1 - earlier = words + 1 := by omega
      rw [rest, Nat.add_assoc earlier, Nat.add_mul]
      omega
    rw [back]
    exact known earlier before

private theorem Fault.founded_malformed (problem : StructureProblem) (index offset : Option Int) :
    (malformed problem index offset).Founded bytes encoding widths := nofun

private theorem Fault.founded_of_isUnplaced {fault : Fault} (unplaced : fault.isUnplaced = true) :
    fault.Founded bytes encoding widths := by
  rintro raw opcode index offset rfl
  cases index <;> cases unplaced

/-- What is read behind the place of the cursor may name that place. -/
theorem Reading.run_offset_bind (first : Reading α) (next : Nat → α → Reading β) (cursor : Cursor) :
    (Reading.offset >>= fun place => first >>= next place) cursor =
      first cursor >>= fun pair => next cursor.offset pair.1 pair.2 := rfl

namespace Read

/-- A value made of some bytes, or a fault that is not about a word. -/
theorem reading_ofBytes_start (length : Nat) (view : List UInt8 → α) (bytes : List UInt8)
    (offset : Nat) :
    let read : Read α := Read.bytes length >>= fun taken => pure (view taken)
    (∃ problem, read.reading (.start bytes offset) =
      .error (.malformed problem none (some offset))) ∨
    (offset + length ≤ bytes.length ∧ read.reading (.start bytes offset) =
      .ok (view (slice bytes offset length), .start bytes (offset + length))) := by
  intro read
  rcases run_bytes_start length bytes offset with ⟨problem, run⟩ | ⟨enough, run⟩
  · refine .inl ⟨problem, ?_⟩
    rw [reading, run_bind, run]
    rfl
  · refine .inr ⟨enough, ?_⟩
    rw [reading, run_bind, run]
    rfl

private theorem reading_word_start (encoding : Encoding) (bytes : List UInt8) (offset : Nat) :
    (∃ problem, (Read.word encoding).reading (.start bytes offset) =
      .error (.malformed problem none (some offset))) ∨
    (offset + encoding.wordSize ≤ bytes.length ∧
      (Read.word encoding).reading (.start bytes offset) =
        .ok (encoding.wordAt bytes offset, .start bytes (offset + encoding.wordSize))) :=
  reading_ofBytes_start encoding.wordSize encoding.order.natOf bytes offset

private theorem reading_int_start (encoding : Encoding) (bytes : List UInt8) (offset : Nat) :
    (∃ problem, (Read.int encoding).reading (.start bytes offset) =
      .error (.malformed problem none (some offset))) ∨
    (offset + encoding.intSize ≤ bytes.length ∧
      (Read.int encoding).reading (.start bytes offset) =
        .ok (encoding.intAt bytes offset, .start bytes (offset + encoding.intSize))) :=
  reading_ofBytes_start encoding.intSize encoding.order.intOf bytes offset

private theorem reading_count_start (encoding : Encoding) (what : Text) (bytes : List UInt8)
    (offset : Nat) :
    (∃ problem, (Read.count encoding what).reading (.start bytes offset) =
      .error (.malformed problem none (some offset))) ∨
    ∃ count : Nat, encoding.intAt bytes offset = count ∧ offset + encoding.intSize ≤ bytes.length ∧
      (Read.count encoding what).reading (.start bytes offset) =
        .ok (count, .start bytes (offset + encoding.intSize)) := by
  simp only [Read.count, reading_bind, apply_ite reading, reading_offset]
  rw [Reading.run_offset_bind]
  rcases reading_int_start encoding bytes offset with ⟨problem, failed⟩ | ⟨enough, done⟩
  · rw [failed]
    exact .inl ⟨problem, rfl⟩
  · rw [done]
    by_cases negative : encoding.intAt bytes offset < 0
    · refine .inl ⟨.negativeCount what (encoding.intAt bytes offset), ?_⟩
      change (if _ < (0 : Int) then _ else _ : Reading Nat) _ = _
      rw [if_pos negative]
      rfl
    · obtain ⟨count, same⟩ := Int.eq_ofNat_of_zero_le (Int.not_lt.mp negative)
      refine .inr ⟨count, same, enough, ?_⟩
      change (if _ < (0 : Int) then _ else _ : Reading Nat) _ = _
      rw [if_neg negative, same]
      rfl

end Read

namespace Reading

/-- Exact reading of some bytes ends at a place in them. -/
theorem exists_place_of_exact {reading : Reading α} {grammar : Grammar α}
    (exact : ∀ limit, Exact limit reading grammar) {offset : Nat} (inside : offset ≤ bytes.length)
    {value : α} {next : Cursor} (read : reading (.start bytes offset) = .ok (value, next)) :
    ∃ after ≤ bytes.length, next = .start bytes after := by
  rw [Cursor.start_eq_before inside] at read
  obtain ⟨word, rest, split, _, rfl⟩ := (exact _).sound (Nat.le_refl _) read
  have size := congrArg List.length split
  rw [List.length_drop, List.length_append] at size
  have within : offset + word.length ≤ bytes.length := by omega
  refine ⟨_, within, ?_⟩
  rw [Cursor.start_eq_before within, ← List.drop_drop, split, List.drop_left]

/-- From any place in some bytes, reading ends at a place in them, or stops at a founded fault. -/
def Along (bytes : List UInt8) (encoding : Encoding) (widths : FieldWidths)
    (reading : Reading α) : Prop :=
  ∀ offset ≤ bytes.length,
    (∀ value next, reading (.start bytes offset) = .ok (value, next) →
      ∃ after ≤ bytes.length, next = .start bytes after) ∧
    Stops (Fault.Founded bytes encoding widths) (reading (.start bytes offset))

namespace Along

variable {reading : Reading α} {next : α → Reading β}

theorem of_onward {read : Read α} (onward : read.Onward 0) :
    Along bytes encoding widths read.reading := by
  intro offset inside
  obtain ⟨after, answer, run, _, within, stops⟩ := onward bytes offset (Nat.zero_le _) inside
  rw [Read.reading, run]
  cases answer with
  | ok value =>
    refine ⟨?_, .ok _⟩
    rintro _ _ ⟨⟩
    exact ⟨after, within, rfl⟩
  | error fault =>
    obtain ⟨problem, place, rfl, _⟩ := stops fault rfl
    refine ⟨?_, .error (Fault.founded_malformed _ _ _)⟩
    rintro _ _ ⟨⟩

theorem pure (value : α) : Along bytes encoding widths (pure value) := by
  intro offset inside
  refine ⟨?_, .ok _⟩
  rintro _ _ ⟨⟩
  exact ⟨offset, inside, rfl⟩

private theorem malformed (problem : StructureProblem) (index place : Option Int) :
    Along bytes encoding widths
      (MonadExcept.throw (Fault.malformed problem index place) : Reading α) :=
  fun _ _ => ⟨nofun, .error (Fault.founded_malformed problem index place)⟩

/-- What is found without reading leaves the cursor where it is. -/
theorem outcome {outcome : Except Fault α}
    (stops : Stops (Fault.Founded bytes encoding widths) outcome) :
    Along bytes encoding widths (liftM outcome) := by
  cases outcome with
  | ok value => exact pure value
  | error fault => exact fun _ _ => ⟨nofun, .error (stops fault rfl)⟩

private theorem choice {condition : Prop} [Decidable condition] {other : Reading α}
    (holds : Along bytes encoding widths reading) (fails : Along bytes encoding widths other) :
    Along bytes encoding widths (if condition then reading else other) := by
  split
  · exact holds
  · exact fails

theorem bind (first : Along bytes encoding widths reading)
    (follow : ∀ value, Along bytes encoding widths (next value)) :
    Along bytes encoding widths (reading >>= next) := by
  intro offset inside
  obtain ⟨stays, stops⟩ := first offset inside
  constructor
  · intro result finish read
    obtain ⟨⟨value, middle⟩, start, behind⟩ := bind_eq_ok.mp read
    obtain ⟨after, within, rfl⟩ := stays value middle start
    exact (follow value after within).1 result finish behind
  · refine Stops.bind stops fun pair start => ?_
    obtain ⟨value, middle⟩ := pair
    obtain ⟨after, within, rfl⟩ := stays value middle start
    exact (follow value after within).2

private theorem offset {next : Nat → Reading α}
    (follow : ∀ place, Along bytes encoding widths (next place)) :
    Along bytes encoding widths (Reading.offset >>= next) :=
  fun place inside => follow place place inside

private theorem times {parse : Parse α} (along : Along bytes encoding widths parse.reading)
    (count : Nat) :
    Along bytes encoding widths (parse.times count).reading := by
  induction count with
  | zero => exact pure []
  | succ count ih =>
    simp only [Parse.times, Parse.reading_bind, Parse.reading_pure]
    exact along.bind fun first => ih.bind fun rest => pure (first :: rest)

end Along

end Reading

namespace Prototype

open Reading (Along)

private theorem along_list {parse : Parse α} (along : Along bytes encoding widths parse.reading)
    (what : Text) : Along bytes encoding widths (parseList encoding what parse).reading := by
  simp only [parseList, Parse.reading_bind, Parse.reading_read]
  exact (Along.of_onward (.count encoding what)).bind fun count => along.times count

private theorem along_local : Along bytes encoding widths (parseLocal encoding).reading := by
  simp only [parseLocal, Parse.reading_bind, Parse.reading_read, Parse.reading_pure]
  exact (Along.of_onward (.text encoding)).bind fun _ =>
    (Along.of_onward (.int encoding)).bind fun _ =>
    (Along.of_onward (.int encoding)).bind fun _ => .pure _

/-- One word and those behind it; a word without an opcode is a fault at its place. -/
theorem reading_instructions_succ (fit : widths.Fit) (index count : Nat) :
    (parseInstructions encoding widths index (count + 1)).reading =
      Reading.offset >>= fun place => (Read.word encoding).reading >>= fun word =>
        if 48 < widths.opcodeOf word then
          throw (.invalidOpcode word (widths.opcodeOf word) (some index) (some place))
        else (parseInstructions encoding widths (index + 1) count).reading >>= fun rest =>
          pure (⟨word, widths⟩ :: rest) := by
  have known {α : Type} (number : Int) (next : Int → Reading α) :
      (liftM (Except.ok number : Except Fault Int) >>= next) = next number := rfl
  have field (word : Nat) : (word : Int) % 2 ^ widths.opcode.toNat = widths.opcodeOf word := by
    rw [FieldWidths.opcodeOf]
    push_cast
    rfl
  simp only [parseInstructions, Parse.reading_bind, Parse.reading_read, Parse.reading_outcome,
    apply_ite Parse.reading, Parse.reading_throw, Parse.reading_pure, Parse.reading_offset,
    Instruction.opcodeField_eq fit, known, field, Opcode.isNone_ofNumber?_iff]
  rfl

/-- Words are read up to the first one without an opcode, or to the end of the bytes. -/
theorem stops_instructions (fit : widths.Fit) (index count offset : Nat) :
    Stops (fun fault => (∃ problem place, fault = .malformed problem none place) ∨
        FirstUnknown bytes encoding widths offset index count fault)
      ((parseInstructions encoding widths index count).reading (.start bytes offset)) := by
  induction count generalizing index offset with
  | zero => exact .ok _
  | succ count ih =>
    rw [reading_instructions_succ fit, Reading.run_offset_bind]
    rcases Read.reading_word_start encoding bytes offset with ⟨problem, failed⟩ | ⟨enough, done⟩
    · rw [failed]
      exact .error (.inl ⟨problem, _, rfl⟩)
    · rw [done]
      change Stops _ ((if 48 < widths.opcodeOf (encoding.wordAt bytes offset) then _ else _ :
        Reading (List Instruction)) (.start bytes (offset + encoding.wordSize)))
      by_cases unknown : 48 < widths.opcodeOf (encoding.wordAt bytes offset)
      · rw [if_pos unknown]
        exact .error (.inr (.here enough unknown))
      · obtain ⟨opcode, known⟩ := Opcode.exists_number_eq unknown
        rw [if_neg unknown]
        refine Stops.bind (fun fault stopped => ?_) fun _ _ => .ok _
        rcases ih (index + 1) (offset + encoding.wordSize) fault stopped with malformed | later
        · exact .inl malformed
        · exact .inr (.behind known later)

/-- What is wrong with the end of a code is not said of a word at a place. -/
theorem along_end (start : Nat) (code : List Instruction) :
    Along bytes encoding widths (match code.getLast? with
      | none => Parse.failAt .noInstructions none start
      | some last => do
        if (← (liftM last.opcode : Traced Opcode)) = .endCode then pure code
        else
          let shown ← (liftM last.text : Traced Text)
          Parse.failAt (.missingEnd shown) (some (code.length - 1))
            ((← Parse.offset) - encoding.wordSize) : Parse (List Instruction)).reading := by
  cases code.getLast? with
  | none => exact .malformed _ _ _
  | some last =>
    have confined : last.Confined (Fault.Founded bytes encoding widths) :=
      Instruction.confined_of_unplaced (fun _ unplaced => Fault.founded_of_isUnplaced unplaced) last
    simp only [Parse.reading_bind, Parse.reading_outcome, apply_ite Parse.reading,
      Parse.reading_pure, Parse.reading_offset]
    exact (Along.outcome confined.opcode).bind fun opcode => .choice (.pure code)
      ((Along.outcome confined.text).bind fun shown => .offset fun _ => .malformed _ _ _)

private theorem along_code (fit : widths.Fit) :
    Along bytes encoding widths (parseCode encoding widths).reading := by
  intro offset inside
  refine ⟨fun _ _ => Reading.exists_place_of_exact (fun _ => exact_code encoding widths) inside, ?_⟩
  simp only [parseCode, Parse.reading_bind, Parse.reading_read, Parse.reading_offset]
  rw [Reading.run_offset_bind]
  rcases Read.reading_count_start encoding "instruction" bytes offset with
    ⟨problem, failed⟩ | ⟨count, counted, within, done⟩
  · rw [failed]
    exact .error (Fault.founded_malformed _ _ _)
  · rw [done]
    refine Stops.bind (.ok _) fun pair same => ?_
    obtain rfl := Except.ok.inj same
    refine Stops.bind (fun fault stopped => ?_) fun pair read => ?_
    · rcases stops_instructions fit 0 count _ fault stopped with ⟨problem, place, rfl⟩ | first
      · exact Fault.founded_malformed _ _ _
      · exact first.founded counted
    · obtain ⟨code, finish⟩ := pair
      obtain ⟨after, behind, rfl⟩ := Reading.exists_place_of_exact
        (fun _ => exact_instructions encoding widths 0 count) within read
      exact (along_end offset code after behind).2

private theorem along_with (fit : widths.Fit) {inner : Parse Prototype}
    (along : Along bytes encoding widths inner.reading) :
    Along bytes encoding widths (parseWith encoding widths inner).reading := by
  have ints : Along bytes encoding widths (Parse.reading (liftM (Read.int encoding))) := by
    rw [Parse.reading_read]
    exact .of_onward (.int encoding)
  have texts : Along bytes encoding widths (Parse.reading (liftM (Read.text encoding))) := by
    rw [Parse.reading_read]
    exact .of_onward (.text encoding)
  have numbers : Along bytes encoding widths (Parse.reading (liftM (Read.number encoding))) := by
    rw [Parse.reading_read]
    exact .of_onward (.number encoding)
  simp only [parseWith, Parse.reading_bind, Parse.reading_read, Parse.reading_offset,
    Parse.reading_note, Parse.reading_pure, pure_bind]
  exact .offset fun _ => (Along.of_onward (.text encoding)).bind fun _ =>
    (Along.of_onward (.int encoding)).bind fun _ => (Along.of_onward (.int encoding)).bind fun _ =>
    (Along.of_onward .byte).bind fun _ => (Along.of_onward (.int encoding)).bind fun _ =>
    (along_list along_local _).bind fun _ => (along_list ints _).bind fun _ =>
    (along_list texts _).bind fun _ => (along_list numbers _).bind fun _ =>
    (along_list along _).bind fun _ => (along_code fit).bind fun _ => .pure _

private theorem along_to (fit : widths.Fit) (depth : Nat) :
    Along bytes encoding widths (parseTo encoding widths depth).reading := by
  induction depth with
  | zero =>
    refine along_with fit ?_
    simp only [Parse.reading_bind, Parse.reading_read, Parse.reading_pure]
    exact (Along.of_onward .byte).bind fun _ => .pure default
  | succ depth ih => exact along_with fit ih

private theorem along_parse (fit : widths.Fit) :
    Along bytes encoding widths (parse encoding widths).reading :=
  fun offset inside => along_to fit (Cursor.start bytes offset).rest.length offset inside

end Prototype

namespace Chunk

/-- A word without an opcode, wherever in a chunk, is found where the fault says that it is: it is
the word at the place, it has the number in its opcode field, the index is that of the word in its
code, which is longer than that, and it is the first such word of the code. -/
theorem culprit_of_ofBytes {raw opcode : Int} {index offset : Option Int}
    (stopped : (ofBytes bytes).outcome = .error (.invalidOpcode raw opcode index offset)) :
    ∃ preamble encoding, Preamble.ofBytes bytes = .ok (preamble, encoding) ∧
      ∃ position place : Nat, index = some (position : Int) ∧ offset = some (place : Int) ∧
        Culprit bytes encoding preamble.widths raw opcode position place := by
  have located := located_of_chunk bytes _ stopped
  obtain ⟨offset, rfl⟩ : ∃ place, offset = some place := by
    cases offset with
    | none => exact located.elim
    | some place => exact ⟨place, rfl⟩
  rw [outcome_ofBytes, outcome_leading, bind_assoc] at stopped
  rcases bind_eq_error.mp stopped with refused | ⟨⟨preamble, encoding⟩, read, later⟩
  · rcases Preamble.ofBytes_trichotomy bytes with ⟨_, _, _, part⟩ | ⟨_, _, _, _, strange⟩ |
      ⟨_, _, _, done⟩
    · cases part.symm.trans refused
    · cases strange.symm.trans refused
    · cases done.symm.trans refused
  · obtain ⟨readable, rest, split⟩ := Preamble.ofBytes_eq_ok_iff.mp read
    obtain ⟨fit, _⟩ := Preamble.checkWidths_eq_ok_iff.mp readable.widths
    have inside : preamble.size.toNat ≤ bytes.length := by
      have size := readable.length_toBytes
      rw [split, List.length_append]
      omega
    have along : Reading.Along bytes encoding preamble.widths
        (Prototype.parse encoding preamble.widths).reading := Prototype.along_parse fit
    rw [bind_assoc] at later
    rcases bind_eq_error.mp later with unread | ⟨⟨main, finish⟩, _, checked⟩
    · obtain ⟨position, place, rfl, rfl, culprit⟩ :=
        (along _ inside).2 _ unread raw opcode index offset rfl
      exact ⟨preamble, encoding, read, position, place, rfl, rfl, culprit⟩
    · change (if finish.offset = bytes.length then _ else _) = _ at checked
      split at checked
      · cases checked
      · cases checked

/-- A function with one inside it, whose second instruction has no opcode. -/
def straying : Prototype := { (default : Prototype) with
  source := "=f"
  functions := [{ (default : Prototype) with
    strings := ["x"]
    code := [⟨12, {}⟩, ⟨113, {}⟩, ⟨0, {}⟩] }]
  code := [⟨0, {}⟩] }

/-- The culprit is in the inner function, behind a string and one known instruction. -/
theorem culprit_of_ofBytes_nested :
    let bytes := compact.toBytes ++ straying.toBytes compactEncoding
    (ofBytes bytes).outcome = .error (.invalidOpcode 113 49 (some 1) (some 74)) ∧
      ∃ preamble encoding, Preamble.ofBytes bytes = .ok (preamble, encoding) ∧
        ∃ position place : Nat, some (1 : Int) = some (position : Int) ∧
          some (74 : Int) = some (place : Int) ∧
          Culprit bytes encoding preamble.widths 113 49 position place := by
  have stopped : (ofBytes (compact.toBytes ++ straying.toBytes compactEncoding)).outcome =
      .error (.invalidOpcode 113 49 (some 1) (some 74)) := by decide +kernel
  exact ⟨stopped, culprit_of_ofBytes stopped⟩

end Chunk

end LuaLift
