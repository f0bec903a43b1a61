import LuaLift.Proofs.Preamble

/-! The grammar of preambles. Whether bytes start with one, and with which kind of fault they are
refused otherwise, is seen from their first bytes alone. -/
namespace LuaLift.Preamble

/-- The bytes that every preamble starts with. -/
def magic : List UInt8 := [0x1B, 0x4C, 0x75, 0x61, 0x40]

/-- A byte as a number. -/
def field (bytes : List UInt8) (position : Nat) : Nat := (bytes.getD position 0).toNat

/-- The preamble whose fields are the first bytes, one for each. -/
def atStart (bytes : List UInt8) : Preamble where
  orderFlag := field bytes 5
  intSize := field bytes 6
  sizeSize := field bytes 7
  wordSize := field bytes 8
  widths := ⟨field bytes 9, field bytes 10, field bytes 11⟩
  numberSize := field bytes 12
  sample := (bytes.drop fixedSize).take (field bytes 12)

/-- There are a preamble's first bytes, all its fields, and as many bytes behind them as the last
field says. -/
structure Whole (bytes : List UInt8) : Prop where
  fixed : fixedSize ≤ bytes.length
  magic : bytes.take 5 = magic
  sample : field bytes 12 ≤ bytes.length - fixedSize

/-- There is a decoder for each width that is named, and the fields of an instruction word fit into
its bytes. -/
structure Supported (preamble : Preamble) : Prop where
  order : preamble.orderFlag ∈ [0, 1]
  int : preamble.intSize ∈ [2, 4]
  size : preamble.sizeSize ∈ [2, 4, 8]
  word : preamble.wordSize ∈ [2, 4, 8]
  number : preamble.numberSize ∈ [4, 8]
  widths : preamble.widths.Fit
  inside : preamble.widths.word ≤ 8 * preamble.wordSize

private theorem exists_order_iff {flag : Int} :
    (∃ order : ByteOrder, flag = order.flag) ↔ flag ∈ [0, 1] := by
  constructor
  · rintro ⟨order, rfl⟩
    cases order <;> decide
  · intro known
    rcases List.mem_cons.mp known with big | little
    · exact ⟨.big, big⟩
    · exact ⟨.little, List.mem_singleton.mp little⟩

private theorem exists_format_iff {size : Int} :
    (∃ format : NumberFormat, size = format.size) ↔ size ∈ [4, 8] := by
  constructor
  · rintro ⟨format, rfl⟩
    cases format <;> decide
  · intro known
    rcases List.mem_cons.mp known with single | double
    · exact ⟨.single, single⟩
    · exact ⟨.double, List.mem_singleton.mp double⟩

section Checking

variable {preamble : Preamble} {encoding : Encoding}

/-- The layout is there just if the preamble is supported. -/
theorem supported_iff :
    preamble.Supported ↔ ∃ encoding, preamble.checked = .ok (preamble, encoding) := by
  simp only [checked_eq_ok_iff, encoding_eq_ok_iff, checkWidths_eq_ok_iff, and_true]
  constructor
  · rintro ⟨order, int, size, word, number, widths, inside⟩
    obtain ⟨byteOrder, order⟩ := exists_order_iff.mpr order
    obtain ⟨format, number⟩ := exists_format_iff.mpr number
    exact ⟨⟨byteOrder, preamble.intSize.toNat, preamble.sizeSize.toNat, preamble.wordSize.toNat,
      format⟩, ⟨order, ⟨eq_toNat_of_mem int (by decide), int⟩, ⟨eq_toNat_of_mem size (by decide), size⟩,
        ⟨eq_toNat_of_mem word (by decide), word⟩, number⟩, widths, inside⟩
  · rintro ⟨encoding, ⟨order, ⟨-, int⟩, ⟨-, size⟩, ⟨-, word⟩, number⟩, widths, inside⟩
    exact ⟨exists_order_iff.mp ⟨_, order⟩, int, size, word, exists_format_iff.mp ⟨_, number⟩, widths,
      inside⟩

/-- A preamble is refused for its layout only. -/
theorem exists_problem_of_checked {fault : Fault} (refused : preamble.checked = .error fault) :
    ∃ problem offset, fault = .encoding problem offset := by
  simp only [checked, bind_eq_error] at refused
  rcases refused with unknown | ⟨found, -, narrow | ⟨-, -, done⟩⟩
  · rw [encodingAt] at unknown
    cases failed : preamble.encoding with
    | error problem =>
      rw [failed] at unknown
      exact ⟨problem, some 5, (Except.error.inj unknown).symm⟩
    | ok encoding =>
      rw [failed] at unknown
      cases unknown
  · simp only [checkWidths, refuse_eq_error] at narrow
    rcases narrow with ⟨-, rfl⟩ | ⟨-, ⟨-, rfl⟩ | ⟨-, room⟩⟩
    · exact ⟨_, _, rfl⟩
    · exact ⟨_, _, rfl⟩
    · split at room
      · exact ⟨_, _, (Except.error.inj room).symm⟩
      · cases room
  · cases done

end Checking

section Reading

variable {bytes : List UInt8}

private theorem exists_fields_of_long (long : fixedSize ≤ bytes.length) :
    ∃ id first second third release order int size word bits opcode low number rest,
      bytes = id :: first :: second :: third :: release :: order :: int :: size :: word :: bits ::
        opcode :: low :: number :: rest := by
  rcases bytes with _ | ⟨id, _ | ⟨first, _ | ⟨second, _ | ⟨third, _ | ⟨release, _ | ⟨order, _ |
    ⟨int, _ | ⟨size, _ | ⟨word, _ | ⟨bits, _ | ⟨opcode, _ | ⟨low, _ | ⟨number, rest⟩⟩⟩⟩⟩⟩⟩⟩⟩⟩⟩⟩⟩
  iterate 13 exact absurd long (of_decide_eq_false rfl)
  exact ⟨_, _, _, _, _, _, _, _, _, _, _, _, _, _, rfl⟩

private theorem whole_iff
    {id first second third release order int size word bits opcode low number : UInt8}
    {rest : List UInt8} :
    Whole (id :: first :: second :: third :: release :: order :: int :: size :: word :: bits ::
        opcode :: low :: number :: rest) ↔
      id = chunkId ∧ [first, second, third] = signature ∧ release = version ∧
        number.toNat ≤ rest.length := by
  constructor
  · rintro ⟨-, ⟨⟩, enough⟩
    exact ⟨rfl, rfl, rfl, enough⟩
  · rintro ⟨rfl, ⟨⟩, rfl, enough⟩
    exact ⟨Nat.le_add_left _ _, rfl, enough⟩

/-- What reading comes to is decided by whether the preamble is there, and then by its layout. -/
theorem ofBytes_cases (bytes : List UInt8) :
    (¬ Whole bytes ∧ ∃ problem offset, ofBytes bytes = .error (.preamble problem offset)) ∨
      Whole bytes ∧ ofBytes bytes = (atStart bytes).checked := by
  unfold ofBytes
  split
  · rename_i id first second third release order int size word bits opcode low number rest
    rw [whole_iff]
    -- One case for each check, in the order in which they are made.
    by_cases known : id = chunkId
    · rw [if_neg (not_not_intro known)]
      by_cases signed : [first, second, third] = signature
      · rw [if_neg (not_not_intro signed)]
        by_cases current : release = version
        · rw [if_neg (not_not_intro current)]
          by_cases enough : number.toNat ≤ rest.length
          · rw [if_neg (by rw [List.length_take]; omega)]
            exact .inr ⟨⟨known, signed, current, enough⟩, rfl⟩
          · rw [if_pos (by rw [List.length_take]; omega)]
            exact .inl ⟨fun whole => enough whole.2.2.2, _, _, rfl⟩
        · rw [if_pos current]
          exact .inl ⟨fun whole => current whole.2.2.1, _, _, rfl⟩
      · rw [if_pos signed]
        exact .inl ⟨fun whole => signed whole.2.1, _, _, rfl⟩
    · rw [if_pos known]
      exact .inl ⟨fun whole => known whole.1, _, _, rfl⟩
  · rename_i short
    refine .inl ⟨fun whole => ?_, _, _, rfl⟩
    obtain ⟨_, _, _, _, _, _, _, _, _, _, _, _, _, _, same⟩ := exists_fields_of_long whole.fixed
    exact short _ _ _ _ _ _ _ _ _ _ _ _ _ _ same

/-- Bytes without a preamble, with one that chooses no layout, and with one that does. -/
theorem ofBytes_trichotomy (bytes : List UInt8) :
    (¬ Whole bytes ∧ ∃ problem offset, ofBytes bytes = .error (.preamble problem offset)) ∨
    (Whole bytes ∧ ¬ (atStart bytes).Supported ∧
      ∃ problem offset, ofBytes bytes = .error (.encoding problem offset)) ∨
    (Whole bytes ∧ (atStart bytes).Supported ∧
      ∃ encoding, ofBytes bytes = .ok (atStart bytes, encoding)) := by
  rcases ofBytes_cases bytes with part | ⟨whole, reached⟩
  · exact .inl part
  · rw [reached, supported_iff]
    cases outcome : (atStart bytes).checked with
    | error fault =>
      obtain ⟨problem, offset, rfl⟩ := exists_problem_of_checked outcome
      exact .inr (.inl ⟨whole, nofun, problem, offset, rfl⟩)
    | ok result =>
      obtain ⟨found, encoding⟩ := result
      obtain ⟨-, rfl⟩ := checked_eq_ok_iff.mp outcome
      exact .inr (.inr ⟨whole, ⟨encoding, rfl⟩, encoding, rfl⟩)

/-- The journal too is settled by the preamble and its layout. -/
theorem read_congr {other : List UInt8} (same : ofBytes bytes = ofBytes other) :
    read bytes = read other := by
  rw [read, read, same]

/-- The sample number is told of in warnings only. -/
theorem filter_journal {preamble : Preamble} {encoding : Encoding} :
    (preamble.journal encoding).filter (·.level = .debug) = [.preambleRead preamble.summary] := by
  rw [journal]
  split <;> rfl

variable {preamble : Preamble} {encoding : Encoding} (done : ofBytes bytes = .ok (preamble, encoding))

include done

/-- A preamble that was read is laid out as it stood. -/
theorem take_size : bytes.take preamble.size.toNat = preamble.toBytes := by
  obtain ⟨readable, rest, rfl⟩ := ofBytes_eq_ok_iff.mp done
  have length := readable.length_toBytes
  exact List.take_left' (by omega)

private theorem ofBytes_toBytes (rest : List UInt8) :
    ofBytes (preamble.toBytes ++ rest) = .ok (preamble, encoding) :=
  ofBytes_eq_ok_iff.mpr ⟨(ofBytes_eq_ok_iff.mp done).1, rest, rfl⟩

/-- Any other sample number of the same size is read in its place. -/
theorem ofBytes_sample {sample : List UInt8} (length : sample.length = preamble.numberSize)
    (rest : List UInt8) :
    ofBytes (bytes.take fixedSize ++ (sample ++ rest)) = .ok ({ preamble with sample }, encoding) := by
  obtain ⟨readable, behind, rfl⟩ := ofBytes_eq_ok_iff.mp done
  have changed : Readable { preamble with sample } encoding :=
    ⟨readable.encoding, readable.widths, length⟩
  refine ofBytes_eq_ok_iff.mpr ⟨changed, rest, ?_⟩
  rw [← List.append_assoc]
  rfl

end Reading

/-- Every string of bytes is read, refused for want of a preamble, or refused for the layout that its
preamble names. Where it is read, the preamble laid out again is what was read of it; nothing
behind it matters, and of the sample number only the warning in the journal does. -/
theorem read_grammar (bytes : List UInt8) :
    ((∃ problem offset, (read bytes).outcome = .error (.preamble problem offset)) ↔ ¬ Whole bytes) ∧
    ((∃ problem offset, (read bytes).outcome = .error (.encoding problem offset)) ↔
      Whole bytes ∧ ¬ (atStart bytes).Supported) ∧
    (Whole bytes → (atStart bytes).Supported →
      ∃ encoding, (read bytes).outcome = .ok (atStart bytes, encoding) ∧
        (atStart bytes).toBytes = bytes.take (atStart bytes).size.toNat ∧
        (∀ rest, read (bytes.take (atStart bytes).size.toNat ++ rest) = read bytes) ∧
        ∀ sample rest, sample.length = (atStart bytes).numberSize →
          let changed := read (bytes.take fixedSize ++ (sample ++ rest))
          changed.outcome = .ok ({ atStart bytes with sample }, encoding) ∧
            changed.journal.filter (·.level = .debug) =
              (read bytes).journal.filter (·.level = .debug)) := by
  simp only [outcome_read]
  rcases ofBytes_trichotomy bytes with ⟨part, _, _, refused⟩ | ⟨whole, strange, _, _, refused⟩ |
    ⟨whole, supported, encoding, done⟩
  · simp [refused, part]
  · simp [refused, whole, strange]
  · refine ⟨by simp [done, whole], by simp [done, supported], fun _ _ =>
      ⟨encoding, done, (take_size done).symm, fun rest => ?_, fun sample rest length => ?_⟩⟩
    · apply read_congr
      rw [take_size done, ofBytes_toBytes done, done]
    · have changed := ofBytes_sample done length rest
      refine ⟨changed, ?_⟩
      -- The summary of a preamble does not mention its sample number.
      rw [journal_read changed, journal_read done, filter_journal, filter_journal]
      rfl

/-- The default preamble with zero for its sample number, and the same with a byte behind it. -/
theorem read_grammar_of_zero :
    let bytes := ({ sample := List.replicate 8 0 } : Preamble).toBytes
    Whole bytes ∧ (atStart bytes).Supported ∧
      ∃ encoding, (read bytes).outcome = .ok (atStart bytes, encoding) ∧
        read (bytes.take (atStart bytes).size.toNat ++ [1]) = read bytes := by
  intro bytes
  have whole : Whole bytes := ⟨by decide, by decide, by decide⟩
  have supported : (atStart bytes).Supported :=
    ⟨by decide, by decide, by decide, by decide, by decide, ⟨by decide, by decide, by decide⟩,
      by decide⟩
  obtain ⟨encoding, done, -, behind, -⟩ := (read_grammar bytes).2.2 whole supported
  exact ⟨whole, supported, encoding, done, behind [1]⟩

end LuaLift.Preamble
