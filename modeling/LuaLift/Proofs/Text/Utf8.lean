import LuaLift.Text.Utf8

/-! Text written back gives the bytes it was read from, whatever bytes these are. The text is the
only one that has a character wherever the bytes of one begin, and otherwise single bytes. -/
namespace LuaLift.Text

private theorem bytes_of_leadingChar? (found : leadingChar? bytes = some value) :
    ∃ rest, bytes = String.utf8EncodeChar value ++ rest := by
  obtain ⟨more, same⟩ := ByteArray.exists_of_utf8DecodeChar?_eq_some found
  have listed := congrArg (fun bytes => bytes.data.toList) same
  simp only [List.data_toByteArray, ByteArray.data_append, Array.toList_append] at listed
  refine ⟨more.data.toList ++ bytes.drop 4, ?_⟩
  rw [← List.append_assoc, ← listed, List.take_append_drop]

/-- A character is read wherever its bytes begin. -/
theorem leadingChar?_append (value : Char) (rest : List UInt8) :
    leadingChar? (String.utf8EncodeChar value ++ rest) = some value := by
  have short : (String.utf8EncodeChar value).length ≤ 4 := by
    rw [String.length_utf8EncodeChar]
    exact value.utf8Size_le_four
  rw [leadingChar?, List.take_append, List.take_of_length_le short, List.toByteArray_append]
  exact ByteArray.utf8DecodeChar?_utf8EncodeChar_append

theorem utf8EncodeChar_inj {first second : Char}
    (same : String.utf8EncodeChar first = String.utf8EncodeChar second) : first = second := by
  have found := leadingChar?_append first []
  rw [same, leadingChar?_append second []] at found
  exact (Option.some.inj found).symm

/-- A byte of a character that has several of them is none of the first half. -/
theorem high_of_mem_utf8EncodeChar {value : Char} {byte : UInt8} (wide : 1 < value.utf8Size)
    (member : byte ∈ String.utf8EncodeChar value) : 0x80 ≤ byte := by
  have high (bits mark : UInt8) (set : 0x80 ≤ mark) : 0x80 ≤ bits ||| mark := by
    rw [UInt8.le_iff_toNat_le, UInt8.toNat_or]
    exact Nat.le_trans (UInt8.le_iff_toNat_le.mp set) Nat.right_le_or
  rcases value.utf8Size_eq with size | size | size | size
  · omega
  · rw [String.utf8EncodeChar_eq_cons_cons size] at member
    simp only [List.mem_cons, List.not_mem_nil, or_false] at member
    rcases member with rfl | rfl <;> exact high _ _ (by decide)
  · rw [String.utf8EncodeChar_eq_cons_cons_cons size] at member
    simp only [List.mem_cons, List.not_mem_nil, or_false] at member
    rcases member with rfl | rfl | rfl <;> exact high _ _ (by decide)
  · rw [String.utf8EncodeChar_eq_cons_cons_cons_cons size] at member
    simp only [List.mem_cons, List.not_mem_nil, or_false] at member
    rcases member with rfl | rfl | rfl | rfl <;> exact high _ _ (by decide)

/-- A byte that no character begins with is none of the first half, as these are characters. -/
theorem high_of_stray {byte : UInt8} {rest : List UInt8}
    (none : ∀ value, ¬ String.utf8EncodeChar value <+: byte :: rest) : 0x80 ≤ byte := by
  by_cases high : 0x80 ≤ byte
  · exact high
  · have low : byte.toNat < 128 := by
      rw [UInt8.le_iff_toNat_le] at high
      exact Nat.lt_of_not_le high
    have narrow : (Char.ofUInt8 byte).utf8Size = 1 := by
      rw [Char.utf8Size_eq_one_iff, UInt32.le_iff_toNat_le]
      change byte.toUInt32.toNat ≤ 127
      rw [UInt8.toNat_toUInt32]
      omega
    refine absurd ⟨rest, ?_⟩ (none (Char.ofUInt8 byte))
    rw [String.utf8EncodeChar_eq_singleton narrow]
    change byte.toUInt32.toUInt8 :: rest = byte :: rest
    rw [UInt8.toUInt8_toUInt32]

/-- Bytes that are skipped have no part in what is read behind them. -/
theorem decodeAfter_eq (skipped : Nat) (bytes : List UInt8) :
    decodeAfter skipped bytes = decode (bytes.drop skipped) := by
  induction skipped generalizing bytes with
  | zero => rfl
  | succ skipped ih =>
    cases bytes with
    | nil => simp [decode, decodeAfter]
    | cons byte rest => rw [decodeAfter, ih, List.drop_succ_cons]

private theorem decode_char (value : Char) (rest : List UInt8) :
    decode (String.utf8EncodeChar value ++ rest) = .char value :: decode rest := by
  have found := leadingChar?_append value rest
  have size := String.length_utf8EncodeChar value
  cases spelled : String.utf8EncodeChar value with
  | nil => exact absurd spelled String.utf8EncodeChar_ne_nil
  | cons byte others =>
    rw [spelled, List.cons_append] at found
    rw [spelled, List.length_cons] at size
    have behind : value.utf8Size - 1 = others.length := by omega
    rw [List.cons_append, decode, decodeAfter, found]
    dsimp only
    rw [decodeAfter_eq, behind, List.drop_left]

/-- The first byte is read by itself where no character begins. -/
theorem decode_stray {byte : UInt8} {rest : List UInt8}
    (none : ∀ value, ¬ String.utf8EncodeChar value <+: byte :: rest) :
    decode (byte :: rest) = .stray byte :: decode rest := by
  cases found : leadingChar? (byte :: rest) with
  | some value =>
    obtain ⟨behind, same⟩ := bytes_of_leadingChar? found
    exact absurd ⟨behind, same.symm⟩ (none value)
  | none =>
    rw [decode, decodeAfter, found]
    rfl

/-- What some bytes are read as: a character where the bytes of one begin, or else one byte. -/
inductive Decodes : List UInt8 → Text → Prop where
  | nil : Decodes [] []
  | char {bytes : List UInt8} {text : Text} (value : Char) (rest : Decodes bytes text) :
      Decodes (String.utf8EncodeChar value ++ bytes) (.char value :: text)
  | stray {byte : UInt8} {bytes : List UInt8} {text : Text}
      (none : ∀ value, ¬ String.utf8EncodeChar value <+: byte :: bytes) (rest : Decodes bytes text) :
      Decodes (byte :: bytes) (.stray byte :: text)

namespace Decodes

variable {bytes : List UInt8} {text : Text}

private theorem decode_eq (decodes : Decodes bytes text) : decode bytes = text := by
  induction decodes with
  | nil => rfl
  | char value rest ih => rw [decode_char, ih]
  | stray none rest ih => rw [decode_stray none, ih]

private theorem encode_eq (decodes : Decodes bytes text) : encode text = bytes := by
  induction decodes with
  | nil => rfl
  | char value rest ih => exact congrArg (String.utf8EncodeChar value ++ ·) ih
  | @stray byte _ _ none rest ih => exact congrArg (byte :: ·) ih

end Decodes

theorem decodes_decode (bytes : List UInt8) : Decodes bytes (decode bytes) := by
  cases bytes with
  | nil => exact .nil
  | cons byte rest =>
    by_cases begins : ∃ value, String.utf8EncodeChar value <+: byte :: rest
    · obtain ⟨value, behind, same⟩ := begins
      have shorter : behind.length < (byte :: rest).length := by
        have positive := value.utf8Size_pos
        rw [← same, List.length_append, String.length_utf8EncodeChar]
        omega
      rw [List.length_cons] at shorter
      rw [← same, decode_char]
      exact .char value (decodes_decode behind)
    · have none := not_exists.mp begins
      rw [decode_stray none]
      exact .stray none (decodes_decode rest)
termination_by bytes.length
decreasing_by all_goals simp only [List.length_cons]; omega

/-- Reading is determined by the two rules. -/
theorem decode_eq_iff {bytes : List UInt8} {text : Text} :
    decode bytes = text ↔ Decodes bytes text := by
  constructor
  · rintro rfl
    exact decodes_decode bytes
  · exact Decodes.decode_eq

theorem encode_decode (bytes : List UInt8) : encode (decode bytes) = bytes :=
  (decodes_decode bytes).encode_eq

end LuaLift.Text
