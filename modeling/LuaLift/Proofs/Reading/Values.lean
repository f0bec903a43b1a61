import LuaLift.Chunk.Bytes
import LuaLift.Proofs.ByteOrder
import LuaLift.Proofs.Number.Pattern
import LuaLift.Proofs.Reading.Exact

/-! The single values of a chunk are read exactly: each reader takes the bytes that its value is
written as, and only those. A text has a second form, a zero byte alone, that is never written. -/
namespace LuaLift

/-- How a text stands in a chunk: as a length of zero, or as its bytes with a zero behind them. -/
inductive Spelling where
  | absent
  | ended (content : List UInt8)
deriving DecidableEq, Repr, Inhabited

namespace Spelling

def text : Spelling → Text
  | absent => []
  | ended content => Text.decode content

def bytes (encoding : Encoding) : Spelling → List UInt8
  | absent => encoding.order.bytesOfNat encoding.sizeSize 0
  | ended content =>
    encoding.order.bytesOfNat encoding.sizeSize (content.length + 1) ++ content ++ [0]

/-- The length of the text has room. -/
def Fits (encoding : Encoding) : Spelling → Prop
  | absent => True
  | ended content => content.length + 1 < 256 ^ encoding.sizeSize

end Spelling

namespace Read

variable {limit : Nat} (encoding : Encoding)

private theorem reading_bytes (length offset : Nat) (bytes : List UInt8) :
    (Read.bytes length).reading (.before offset bytes) =
      if length ≤ bytes.length then
        .ok (bytes.take length, .before (offset + length) (bytes.drop length))
      else .error (.malformed (.unexpectedEnd length bytes.length) none (some offset)) := by
  have positive : ¬ (length : Int) < 0 := by omega
  have left : (Cursor.before offset bytes).remaining = bytes.length := by
    simp only [Cursor.remaining, Cursor.before]
    omega
  have got (next : Cursor → Read (List UInt8)) (cursor : Cursor) :
      (Read.reading (get >>= next)) cursor = (next cursor).reading cursor := by
    rw [Read.reading_bind]
    rfl
  rw [Read.bytes, got, if_neg positive, Int.toNat_natCast, Cursor.take?_before, left]
  by_cases enough : length ≤ bytes.length
  · rw [if_pos enough, if_pos enough]
    rfl
  · rw [if_neg enough, if_neg enough]
    rfl

theorem exact_bytes (length : Nat) :
    Exact limit (Read.bytes length).reading
      fun word value => word.length = length ∧ word = value where
  complete := by
    rintro word _ offset rest _ ⟨rfl, rfl⟩
    rw [reading_bytes]
    simp
  sound := by
    intro bytes value offset next _ read
    rw [reading_bytes] at read
    split at read
    · rename_i enough
      obtain ⟨rfl, rfl⟩ := Prod.mk.inj (Except.ok.inj read)
      have size : (bytes.take length).length = length := by simp [enough]
      exact ⟨bytes.take length, bytes.drop length, (List.take_append_drop _ _).symm, ⟨size, rfl⟩,
        by rw [size]⟩
    · cases read
  cut := by
    rintro bytes lost value offset _ ⟨rfl, _⟩ more
    rw [reading_bytes]
    split
    · rename_i enough
      have none : lost.length = 0 := by
        rw [List.length_append] at enough
        omega
      exact absurd (List.length_eq_zero_iff.mp none) more
    · exact ⟨_, _, _, rfl⟩

theorem exact_byte :
    Exact limit Read.byte.reading (.spelled (fun _ => True) (fun byte => [byte]) id) := by
  simp only [Read.byte, Read.reading_bind, Read.reading_pure]
  refine ((exact_bytes 1).map (·.headD 0)).congr fun word result => ?_
  constructor
  · rintro ⟨_, ⟨size, rfl⟩, rfl⟩
    obtain ⟨byte, rfl⟩ := List.length_eq_one_iff.mp size
    exact ⟨byte, trivial, rfl, rfl⟩
  · rintro ⟨byte, _, rfl, rfl⟩
    exact ⟨[byte], ⟨rfl, rfl⟩, rfl⟩

theorem exact_int :
    Exact limit (Read.int encoding).reading
      (.spelled (FitsInt encoding.intSize) encoding.intBytes id) := by
  simp only [Read.int, Read.reading_bind, Read.reading_pure]
  refine ((exact_bytes encoding.intSize).map encoding.order.intOf).congr fun word result => ?_
  constructor
  · rintro ⟨_, ⟨size, rfl⟩, rfl⟩
    refine ⟨encoding.order.intOf word, ?_, ?_, rfl⟩
    · rw [← size]
      exact encoding.order.fitsInt_intOf word
    · rw [Encoding.intBytes, ← size, ByteOrder.bytesOfInt_intOf]
  · rintro ⟨value, fits, rfl, rfl⟩
    exact ⟨_, ⟨ByteOrder.length_bytesOfNat _ _ _, rfl⟩, encoding.order.intOf_bytesOfInt fits⟩

/-- Unsigned numbers of some width. -/
theorem exact_natOf (order : ByteOrder) (width : Nat) :
    Exact limit (Read.bytes width >>= fun bytes => pure (order.natOf bytes)).reading
      (.spelled (· < 256 ^ width) (order.bytesOfNat width) id) := by
  simp only [Read.reading_bind, Read.reading_pure]
  refine ((exact_bytes width).map order.natOf).congr fun word result => ?_
  constructor
  · rintro ⟨_, ⟨rfl, rfl⟩, rfl⟩
    exact ⟨order.natOf word, order.natOf_lt word, order.bytesOfNat_natOf word, rfl⟩
  · rintro ⟨value, fits, rfl, rfl⟩
    refine ⟨_, ⟨order.length_bytesOfNat width value, rfl⟩, ?_⟩
    rw [order.natOf_bytesOfNat, Nat.mod_eq_of_lt fits]
    rfl

theorem exact_size :
    Exact limit (Read.size encoding).reading (.spelled (· < 256 ^ encoding.sizeSize)
      (encoding.order.bytesOfNat encoding.sizeSize) id) :=
  exact_natOf encoding.order encoding.sizeSize

theorem exact_word :
    Exact limit (Read.word encoding).reading (.spelled (· < 256 ^ encoding.wordSize)
      (encoding.order.bytesOfNat encoding.wordSize) id) :=
  exact_natOf encoding.order encoding.wordSize

theorem exact_number :
    Exact limit (Read.number encoding).reading (.spelled (· < 256 ^ encoding.number.size)
      (encoding.order.bytesOfNat encoding.number.size) encoding.number.ofPattern) := by
  simp only [Read.number, Read.reading_bind, Read.reading_pure]
  refine ((exact_bytes encoding.number.size).map
    (encoding.number.decode encoding.order)).congr fun word result => ?_
  constructor
  · rintro ⟨_, ⟨size, rfl⟩, rfl⟩
    refine ⟨encoding.order.natOf word, ?_, ?_, NumberFormat.decode_eq _ _ _⟩
    · rw [← size]
      exact encoding.order.natOf_lt word
    · rw [← size, ByteOrder.bytesOfNat_natOf]
  · rintro ⟨pattern, fits, rfl, rfl⟩
    refine ⟨_, ⟨ByteOrder.length_bytesOfNat _ _ _, rfl⟩, ?_⟩
    rw [NumberFormat.decode_eq, ByteOrder.natOf_bytesOfNat, Nat.mod_eq_of_lt fits]

theorem exact_count (what : Text) :
    Exact limit (Read.count encoding what).reading
      (.spelled (fun count : Nat => FitsInt encoding.intSize count)
        (fun count => encoding.intBytes count) id) := by
  simp only [Read.count, Read.reading_bind, apply_ite Read.reading]
  refine (Exact.offset fun start => (exact_int encoding).bind_of_exact fun count =>
    Exact.choice (count < 0) (Exact.throw _) (Exact.pure count.toNat)).congr fun word result => ?_
  rw [Grammar.spelled_followed]
  constructor
  · rintro ⟨value, _, fits, rfl, ⟨_, ⟨⟩⟩ | ⟨positive, rfl, rfl⟩⟩
    obtain ⟨count, rfl⟩ := Int.eq_ofNat_of_zero_le (Int.not_lt.mp positive)
    exact ⟨count, fits, (List.append_nil _).symm, rfl⟩
  · rintro ⟨count, fits, rfl, rfl⟩
    exact ⟨count, [], fits, List.append_nil _,
      .inr ⟨Int.not_lt.mpr (Int.natCast_nonneg count), rfl, rfl⟩⟩

/-- The bytes of a text end with a zero. -/
theorem exact_content (start length : Nat) :
    Exact limit ((Read.bytes length).reading >>= fun bytes =>
      if bytes.getLast? = some 0 then pure (Text.decode bytes.dropLast)
      else throw (.malformed .unterminatedString none (some start)))
      (.spelled (fun content => content.length + 1 = length) (· ++ [0]) Text.decode) := by
  refine ((exact_bytes length).bind_of_exact fun bytes =>
    Exact.choice (bytes.getLast? = some 0) (Exact.pure (Text.decode bytes.dropLast))
      (Exact.throw _)).congr
      fun word result => ?_
  constructor
  · rintro ⟨_, bytes, _, rfl, ⟨size, rfl⟩, ⟨last, rfl, rfl⟩ | ⟨_, ⟨⟩⟩⟩
    obtain ⟨content, rfl⟩ := List.getLast?_eq_some_iff.mp last
    exact ⟨content, by simpa using size, (List.append_nil _).symm, by simp⟩
  · rintro ⟨content, rfl, rfl, rfl⟩
    exact ⟨_, _, [], (List.append_nil _).symm, ⟨by simp, rfl⟩, .inl ⟨by simp, rfl, by simp⟩⟩

theorem exact_text :
    Exact limit (Read.text encoding).reading
      (.spelled (Spelling.Fits encoding) (Spelling.bytes encoding) Spelling.text) := by
  simp only [Read.text, Read.reading_bind, apply_ite Read.reading]
  refine (Exact.offset fun start => (exact_size encoding).bind_of_exact fun length =>
    Exact.choice (length = 0) (Exact.pure []) (exact_content start length)).congr fun word result => ?_
  rw [Grammar.spelled_followed]
  constructor
  · rintro ⟨length, _, fits, rfl, ⟨none, rfl, rfl⟩ | ⟨_, content, rfl, rfl, rfl⟩⟩
    · obtain rfl : length = 0 := none
      exact ⟨.absent, trivial, (List.append_nil _).symm, rfl⟩
    · exact ⟨.ended content, fits, List.append_assoc _ _ _, rfl⟩
  · rintro ⟨spelling, fits, rfl, rfl⟩
    cases spelling with
    | absent =>
      exact ⟨0, [], Nat.pow_pos (by decide), List.append_nil _, .inl ⟨rfl, rfl, rfl⟩⟩
    | ended content =>
      exact ⟨content.length + 1, content ++ [0], fits, (List.append_assoc _ _ _).symm,
        .inr ⟨Nat.succ_ne_zero _, content, rfl, rfl, rfl⟩⟩

end Read

end LuaLift
