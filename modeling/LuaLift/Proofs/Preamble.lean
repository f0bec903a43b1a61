import LuaLift.Chunk.Bytes
import LuaLift.Proofs.Reading.Exact

/-! Preambles are read exactly. The bytes that stand for a preamble are taken whatever comes behind
them, no other bytes are, and a part of them is always too short. -/
namespace LuaLift.Preamble

variable {preamble : Preamble} {encoding : Encoding} {bytes rest : List UInt8}

theorem eq_toNat_of_mem {width : Int} {widths : List Int} (among : width ∈ widths)
    (all : ∀ width ∈ widths, 0 ≤ width) : width = width.toNat :=
  (Int.toNat_of_nonneg (all width among)).symm

/-- The layout is the one whose byte order, widths and number format the fields name. -/
theorem encoding_eq_ok_iff :
    preamble.encoding = .ok encoding ↔
      preamble.orderFlag = encoding.order.flag ∧
      (preamble.intSize = encoding.intSize ∧ preamble.intSize ∈ [2, 4]) ∧
      (preamble.sizeSize = encoding.sizeSize ∧ preamble.sizeSize ∈ [2, 4, 8]) ∧
      (preamble.wordSize = encoding.wordSize ∧ preamble.wordSize ∈ [2, 4, 8]) ∧
      preamble.numberSize = encoding.number.size := by
  rw [← ByteOrder.ofFlag?_eq_some_iff, ← NumberFormat.ofSize?_eq_some_iff]
  simp only [Preamble.encoding]
  cases ByteOrder.ofFlag? preamble.orderFlag with
  | none => simp [throw_eq_ok]
  | some order =>
    simp only [require_eq_ok]
    cases NumberFormat.ofSize? preamble.numberSize with
    | none => simp [throw_eq_ok]
    | some number =>
      simp only [pure_eq_ok]
      constructor
      · rintro ⟨int, size, word, rfl⟩
        exact ⟨rfl, ⟨eq_toNat_of_mem int (by decide), int⟩, ⟨eq_toNat_of_mem size (by decide), size⟩,
          ⟨eq_toNat_of_mem word (by decide), word⟩, rfl⟩
      · rintro ⟨sameOrder, ⟨sameInt, int⟩, ⟨sameSize, size⟩, ⟨sameWord, word⟩, sameNumber⟩
        refine ⟨int, size, word, ?_⟩
        obtain ⟨⟩ := sameOrder
        obtain ⟨⟩ := sameNumber
        rw [sameInt, sameSize, sameWord]
        rfl

theorem checkWidths_eq_ok_iff :
    preamble.checkWidths = .ok () ↔
      preamble.widths.Fit ∧ preamble.widths.word ≤ 8 * preamble.wordSize := by
  simp only [checkWidths, refuse_eq_ok]
  constructor
  · rintro ⟨filled, inside, room⟩
    split at room
    · rw [throw_eq_ok] at room
      exact room.elim
    · rename_i wide
      exact ⟨⟨by omega, by omega, by omega⟩, by omega⟩
  · rintro ⟨⟨opcode, low, wide⟩, inside⟩
    refine ⟨by omega, by omega, ?_⟩
    rw [if_neg (by omega)]
    rfl

/-- A preamble that can be read, with the layout it chooses. -/
structure Readable (preamble : Preamble) (encoding : Encoding) : Prop where
  encoding : preamble.encoding = .ok encoding
  widths : preamble.checkWidths = .ok ()
  sample : preamble.sample.length = preamble.numberSize

/-- The preamble with some bytes for its fields. -/
def ofFields (order int size word bits opcode low number : UInt8) (sample : List UInt8) : Preamble :=
  ⟨order.toNat, int.toNat, size.toNat, word.toNat, ⟨bits.toNat, opcode.toNat, low.toNat⟩,
    number.toNat, sample⟩

private theorem toBytes_ofFields (order int size word bits opcode low number : UInt8)
    (sample : List UInt8) :
    (ofFields order int size word bits opcode low number sample).toBytes =
      0x1B :: 0x4C :: 0x75 :: 0x61 :: 0x40 :: order :: int :: size :: word :: bits :: opcode ::
        low :: number :: sample := by
  simp [ofFields, toBytes, signature, chunkId, version]

/-- No field of a preamble that can be read is wider than a byte. -/
theorem Readable.exists_fields (readable : preamble.Readable encoding) :
    ∃ order int size word bits opcode low number,
      preamble = ofFields order int size word bits opcode low number preamble.sample := by
  obtain ⟨order, ⟨-, int⟩, ⟨-, size⟩, ⟨-, word⟩, number⟩ := encoding_eq_ok_iff.mp readable.encoding
  obtain ⟨⟨opcode, low, wide⟩, inside⟩ := checkWidths_eq_ok_iff.mp readable.widths
  have field (value : Int) (inside : 0 ≤ value ∧ value < 256) : ∃ byte : UInt8, value = byte.toNat := by
    refine ⟨UInt8.ofNat value.toNat, ?_⟩
    rw [UInt8.toNat_ofNat', Nat.mod_eq_of_lt (by omega), Int.toNat_of_nonneg inside.1]
  have flag : 0 ≤ encoding.order.flag ∧ encoding.order.flag < 256 := by
    cases encoding.order <;> decide
  have format : encoding.number.size < 256 := by
    cases encoding.number <;> decide
  simp only [List.mem_cons, List.not_mem_nil, or_false] at int size word
  obtain ⟨orderByte, order⟩ := field preamble.orderFlag (order ▸ flag)
  obtain ⟨intByte, int⟩ := field preamble.intSize (by omega)
  obtain ⟨sizeByte, size⟩ := field preamble.sizeSize (by omega)
  obtain ⟨wordByte, word⟩ := field preamble.wordSize (by omega)
  obtain ⟨bitsByte, bits⟩ := field preamble.widths.word (by omega)
  obtain ⟨opcodeByte, opcode⟩ := field preamble.widths.opcode (by omega)
  obtain ⟨lowByte, low⟩ := field preamble.widths.low (by omega)
  obtain ⟨numberByte, number⟩ := field preamble.numberSize (by omega)
  refine ⟨orderByte, intByte, sizeByte, wordByte, bitsByte, opcodeByte, lowByte, numberByte, ?_⟩
  rw [ofFields, ← order, ← int, ← size, ← word, ← bits, ← opcode, ← low, ← number]

private theorem Readable.length_sample (readable : preamble.Readable encoding)
    {order int size word bits opcode low number : UInt8} {sample : List UInt8}
    (same : preamble = ofFields order int size word bits opcode low number sample) :
    preamble.sample.length = number.toNat := by
  have length := readable.sample
  rw [same] at length ⊢
  exact Int.ofNat_inj.mp length

/-- A part of a preamble that ends before the sample number. -/
theorem ofBytes_of_short (short : bytes.length < fixedSize) :
    ofBytes bytes = .error (.preamble (.tooShort bytes.length) (some 0)) := by
  unfold ofBytes
  split
  · simp only [List.length_cons, fixedSize] at short
    omega
  · rfl

private theorem encodingAt_eq_ok_iff {offset : Option Int} :
    preamble.encodingAt offset = .ok encoding ↔ preamble.encoding = .ok encoding := by
  rw [encodingAt]
  cases preamble.encoding with
  | error problem => exact ⟨nofun, nofun⟩
  | ok found =>
    change Except.ok found = .ok encoding ↔ Except.ok found = .ok encoding
    rw [Except.ok.injEq, Except.ok.injEq]

/-- A preamble with the layout it chooses. -/
def checked (preamble : Preamble) : Except Fault (Preamble × Encoding) := do
  let encoding ← preamble.encodingAt (some 5)
  preamble.checkWidths
  pure (preamble, encoding)

theorem checked_eq_ok_iff {result : Preamble × Encoding} :
    preamble.checked = .ok result ↔
      (preamble.encoding = .ok result.2 ∧ preamble.checkWidths = .ok ()) ∧ preamble = result.1 := by
  simp only [checked, bind_eq_ok, encodingAt_eq_ok_iff, pure_eq_ok]
  constructor
  · rintro ⟨encoding, known, ⟨⟩, fits, rfl⟩
    exact ⟨⟨known, fits⟩, rfl⟩
  · rintro ⟨⟨known, fits⟩, rfl⟩
    exact ⟨result.2, known, (), fits, rfl⟩

/-- Reading behind the checks of the signature. -/
theorem ofBytes_fields (order int size word bits opcode low number : UInt8) (rest : List UInt8) :
    ofBytes (0x1B :: 0x4C :: 0x75 :: 0x61 :: 0x40 :: order :: int :: size :: word :: bits ::
        opcode :: low :: number :: rest) =
      if (rest.take number.toNat).length < number.toNat then
        .error (.preamble (.truncatedSample number.toNat (rest.take number.toNat).length)
          (some fixedSize))
      else (ofFields order int size word bits opcode low number (rest.take number.toNat)).checked := by
  simp only [ofBytes, chunkId, signature, version, ne_eq, not_true_eq_false, ↓reduceIte]
  by_cases short : (rest.take number.toNat).length < number.toNat
  · simp only [if_pos short]
    rfl
  · simp only [if_neg short]
    rfl

theorem ofBytes_eq_ok_iff :
    ofBytes bytes = .ok (preamble, encoding) ↔
      preamble.Readable encoding ∧ ∃ rest, bytes = preamble.toBytes ++ rest := by
  constructor
  · intro read
    unfold ofBytes at read
    split at read
    · rename_i order int size word bits opcode low number rest
      simp only [refuse_eq_ok, bind_eq_ok, ne_eq, Decidable.not_not, pure_eq_ok,
        encodingAt_eq_ok_iff] at read
      obtain ⟨rfl, ⟨⟩, rfl, long, _, known, _, fits, ⟨⟩⟩ := read
      have enough : (rest.take number.toNat).length = number.toNat := by
        rw [List.length_take] at long ⊢
        omega
      refine ⟨⟨known, fits, congrArg Nat.cast enough⟩, rest.drop number.toNat, ?_⟩
      have image := toBytes_ofFields order int size word bits opcode low number
        (rest.take number.toNat)
      rw [ofFields] at image
      rw [image]
      simp only [List.cons_append, List.take_append_drop]
      rfl
    · exact absurd read throw_eq_ok.mp
  · rintro ⟨readable, rest, rfl⟩
    obtain ⟨order, int, size, word, bits, opcode, low, number, same⟩ := readable.exists_fields
    have length := readable.length_sample same
    have taken : (preamble.sample ++ rest).take number.toNat = preamble.sample := by
      rw [← length, List.take_left]
    rw [same, toBytes_ofFields]
    simp only [List.cons_append]
    rw [ofBytes_fields, taken, if_neg (by omega), ← same]
    exact checked_eq_ok_iff.mpr ⟨⟨readable.encoding, readable.widths⟩, rfl⟩

theorem Readable.length_toBytes (readable : preamble.Readable encoding) :
    (preamble.toBytes.length : Int) = preamble.size := by
  have sample := readable.sample
  simp only [toBytes, signature, List.map_cons, List.map_nil, List.cons_append, List.nil_append,
    List.length_cons, size, fixedSize]
  omega

/-- A part of a readable preamble is no preamble. -/
theorem Readable.ofBytes_of_cut (readable : preamble.Readable encoding) {lost : List UInt8}
    (split : preamble.toBytes = bytes ++ lost) (more : lost ≠ []) :
    ∃ problem offset, ofBytes bytes = .error (.preamble problem offset) := by
  by_cases short : bytes.length < fixedSize
  · exact ⟨_, _, ofBytes_of_short short⟩
  · obtain ⟨order, int, size, word, bits, opcode, low, number, same⟩ := readable.exists_fields
    have length := readable.length_sample same
    rw [same, toBytes_ofFields] at split
    have parts : bytes ++ lost = [0x1B, 0x4C, 0x75, 0x61, 0x40, order, int, size, word, bits, opcode,
        low, number] ++ preamble.sample := split.symm
    rcases Exact.ends_of_append parts with ⟨present, rfl, sample⟩ | ⟨missing, whole, some⟩
    · have few : present.length < number.toNat := by
        have nonempty := List.length_pos_iff.mpr more
        rw [sample, List.length_append] at length
        omega
      simp only [List.cons_append, List.nil_append]
      rw [ofBytes_fields, if_pos (by rw [List.length_take]; omega)]
      exact ⟨_, _, rfl⟩
    · have size := congrArg List.length whole
      have nonempty := List.length_pos_iff.mpr some
      simp only [fixedSize, List.length_append, List.length_cons, List.length_nil] at size short
      omega

/-- Noting some events comes to nothing but the events. -/
theorem forM_note (events : List Event) : events.forM Traced.note = ⟨.ok (), events⟩ := by
  induction events with
  | nil => rfl
  | cons event rest ih =>
    rw [List.forM_eq_forM] at ih ⊢
    rw [List.forM_cons, ih]
    rfl

/-- The journal does not change what a preamble comes to. -/
theorem outcome_read (bytes : List UInt8) : (read bytes).outcome = ofBytes bytes := by
  simp only [read, forM_note, Traced.outcome_bind, Traced.outcome_ofExcept, Traced.outcome_pure]
  cases ofBytes bytes <;> rfl

theorem journal_read (done : ofBytes bytes = .ok (preamble, encoding)) :
    (read bytes).journal = preamble.journal encoding := by
  simp only [read, done, forM_note]
  exact List.append_nil _

end LuaLift.Preamble
