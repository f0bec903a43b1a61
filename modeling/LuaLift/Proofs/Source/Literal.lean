import LuaLift.Proofs.Layout
import LuaLift.Proofs.Text.Utf8
import LuaLift.Source.Literal
import Mathlib.Data.List.Basic
import Mathlib.Tactic.SplitIfs

/-! String literals. Each symbol of a string is written by itself or, where it would end or break
the literal, as a backslash and a letter. So a literal ends where it is read to the end, its bytes
are those of the string but for six of them, and no layout of the text around it can change it. -/
namespace LuaLift

open Text

namespace Source

/-- The characters that are escaped, each with the letter that stands for it. -/
def escapes : List (Char × Char) :=
  [(backslash, backslash), (doubleQuote, doubleQuote), ('\n', 'n'), ('\r', 'r'), ('\t', 't'),
    ('\x00', '0')]

/-- How a symbol is written inside a literal. -/
inductive Written : Symbol → Text → Prop where
  | letter {value letter : Char} (stands : (value, letter) ∈ escapes) :
      Written (.char value) [.char backslash, .char letter]
  | itself {symbol : Symbol} (plain : ∀ escape ∈ escapes, symbol ≠ .char escape.1) :
      Written symbol [symbol]

theorem written_escaped (symbol : Symbol) : Written symbol (escaped symbol) := by
  cases symbol with
  | stray byte => exact .itself (by simp)
  | char value =>
    rw [escaped]
    split_ifs with slash quote feed carriage tab zero
    · exact .letter (by simp [slash, escapes])
    · exact .letter (by simp [quote, escapes])
    · exact .letter (by simp [feed, escapes])
    · exact .letter (by simp [carriage, escapes])
    · exact .letter (by simp [tab, escapes])
    · exact .letter (by simp [zero, escapes])
    · exact .itself (by simp [escapes, slash, quote, feed, carriage, tab, zero])

/-- The string in the rest of a literal, which may begin behind a backslash, and the text behind the
closing quote. -/
def unquoted? : Bool → Text → Option (Text × Text)
  | _, [] => none
  | true, symbol :: rest => do
    let escape ← escapes.find? (symbol = .char ·.2)
    let (text, after) ← unquoted? false rest
    pure (.char escape.1 :: text, after)
  | false, symbol :: rest =>
    if symbol = .char doubleQuote then some ([], rest)
    else if symbol = .char backslash then unquoted? true rest
    else do
      let (text, after) ← unquoted? false rest
      pure (symbol :: text, after)

/-- A letter stands for one character only. -/
theorem find?_escape :
    ∀ escape ∈ escapes, escapes.find? (Symbol.char escape.2 = .char ·.2) = some escape := by
  decide

private theorem unquoted?_written {symbol : Symbol} {text : Text} (written : Written symbol text)
    (rest : Text) : unquoted? false (text ++ rest) =
      (unquoted? false rest).map fun read => (symbol :: read.1, read.2) := by
  cases written with
  | @letter value letter stands =>
    have other : Symbol.char backslash ≠ .char doubleQuote := by decide
    have found := find?_escape _ stands
    dsimp only at found
    rw [List.cons_append, List.cons_append, List.nil_append, unquoted?, if_neg other, if_pos rfl,
      unquoted?, found]
    cases unquoted? false rest <;> rfl
  | itself plain =>
    have quote : symbol ≠ .char doubleQuote := plain (doubleQuote, doubleQuote) (by decide)
    have slash : symbol ≠ .char backslash := plain (backslash, backslash) (by decide)
    rw [List.cons_append, List.nil_append, unquoted?, if_neg quote, if_neg slash]
    cases unquoted? false rest <;> rfl

/-- A literal is read to its closing quote, whatever follows. -/
theorem unquoted?_escaped (text rest : Text) :
    unquoted? false (text.flatMap escaped ++ .char doubleQuote :: rest) = some (text, rest) := by
  induction text with
  | nil => rw [List.flatMap_nil, List.nil_append, unquoted?, if_pos rfl]
  | cons symbol others ih =>
    rw [List.flatMap_cons, List.append_assoc, unquoted?_written (written_escaped symbol), ih]
    rfl

/-- A quoted text is one literal, and it shows where it ends. -/
theorem quoted_append_inj {first second rest other : Text} :
    quoted first ++ rest = quoted second ++ other ↔ first = second ∧ rest = other := by
  constructor
  · intro same
    simp only [quoted, List.cons_append, List.append_assoc, List.nil_append, List.cons.injEq,
      true_and] at same
    have read := congrArg (unquoted? false) same
    rw [unquoted?_escaped, unquoted?_escaped] at read
    exact Prod.mk.inj (Option.some.inj read)
  · rintro ⟨rfl, rfl⟩
    rfl

/-- A character that another one stands for is nowhere in a literal. -/
theorem not_mem_quoted (value letter : Char) (stands : (value, letter) ∈ escapes)
    (other : value ≠ letter) (text : Text) : Symbol.char value ∉ quoted text := by
  have distinct : ∀ escape ∈ escapes, escape.1 ≠ escape.2 →
      escape.1 ≠ backslash ∧ escape.1 ≠ doubleQuote ∧
        ∀ another ∈ escapes, escape.1 ≠ another.2 := by decide
  obtain ⟨slash, quote, letters⟩ := distinct _ stands other
  have apart {symbol : Symbol} {piece : Text} (written : Written symbol piece) :
      Symbol.char value ∉ piece := by
    cases written with
    | letter another => simpa [slash] using letters _ another
    | itself plain => simpa using (plain _ stands).symm
  have none (symbol : Symbol) := apart (written_escaped symbol)
  simpa [quoted, quote] using fun symbol _ => none symbol

/-- The bytes that a byte of a string is written as. -/
def escapedByte (byte : UInt8) : List UInt8 :=
  if byte = 0x5C then [0x5C, 0x5C]
  else if byte = 0x22 then [0x5C, 0x22]
  else if byte = 0x0A then [0x5C, 0x6E]
  else if byte = 0x0D then [0x5C, 0x72]
  else if byte = 0x09 then [0x5C, 0x74]
  else if byte = 0x00 then [0x5C, 0x30]
  else [byte]

/-- Escaping a character's only byte is escaping the character. -/
theorem flatMap_escapedByte :
    ∀ escape ∈ escapes, (String.utf8EncodeChar escape.1).flatMap escapedByte =
      encode [.char backslash, .char escape.2] := by
  decide

/-- The escaped characters have one byte each. -/
theorem utf8EncodeChar_escapes : escapes.map (fun escape => String.utf8EncodeChar escape.1) =
    [[0x5C], [0x22], [0x0A], [0x0D], [0x09], [0x00]] := by
  decide

/-- A byte stays as it is if no escaped character has it. -/
theorem escapedByte_eq_self {byte : UInt8}
    (plain : ∀ escape ∈ escapes, String.utf8EncodeChar escape.1 ≠ [byte]) :
    escapedByte byte = [byte] := by
  have other : [byte] ∉ escapes.map fun escape => String.utf8EncodeChar escape.1 := by
    rw [List.mem_map]
    rintro ⟨escape, among, same⟩
    exact plain escape among same
  rw [utf8EncodeChar_escapes] at other
  simp only [List.mem_cons, List.cons.injEq, and_true, List.not_mem_nil, or_false, not_or] at other
  simp only [escapedByte, other, if_false]

private theorem escapedByte_of_high {byte : UInt8} (high : 0x80 ≤ byte) :
    escapedByte byte = [byte] := by
  have other (low : UInt8) (below : low < 0x80) : byte ≠ low := by
    rintro rfl
    exact UInt8.lt_irrefl byte (UInt8.lt_of_lt_of_le below high)
  simp only [escapedByte, other 0x5C (by decide), other 0x22 (by decide), other 0x0A (by decide),
    other 0x0D (by decide), other 0x09 (by decide), other 0x00 (by decide), if_false]

/-- What is written for a symbol has the bytes of the symbol, each of them escaped. -/
theorem encode_written {symbol : Symbol} {text : Text} (written : Written symbol text)
    (high : ∀ byte, symbol = .stray byte → 0x80 ≤ byte) :
    encode text = symbol.bytes.flatMap escapedByte := by
  cases written with
  | letter stands => exact (flatMap_escapedByte _ stands).symm
  | itself plain =>
    have same : ∀ byte ∈ symbol.bytes, escapedByte byte = [byte] := by
      intro byte member
      cases symbol with
      | stray other =>
        obtain rfl := List.mem_singleton.mp member
        exact escapedByte_of_high (high byte rfl)
      | char value =>
        by_cases wide : 1 < value.utf8Size
        · exact escapedByte_of_high (high_of_mem_utf8EncodeChar wide member)
        · have narrow : (String.utf8EncodeChar value).length = 1 := by
            have positive := value.utf8Size_pos
            rw [String.length_utf8EncodeChar]
            omega
          obtain ⟨only, single⟩ := List.length_eq_one_iff.mp narrow
          change byte ∈ String.utf8EncodeChar value at member
          rw [single, List.mem_singleton] at member
          subst only
          apply escapedByte_eq_self
          intro escape among spelled
          apply plain escape among
          rw [utf8EncodeChar_inj (spelled.trans single.symm)]
    rw [List.flatMap_congr same, List.flatMap_singleton', encode, List.flatMap_singleton]

private theorem encode_escaped {bytes : List UInt8} {text : Text} (decodes : Decodes bytes text) :
    encode (text.flatMap escaped) = bytes.flatMap escapedByte := by
  induction decodes with
  | nil => rfl
  | char value rest ih =>
    have first := encode_written (written_escaped (.char value)) nofun
    rw [List.flatMap_cons, encode_append, first, ih, List.flatMap_append]
    rfl
  | @stray byte bytes text none rest ih =>
    have high : ∀ other, Symbol.stray byte = .stray other → 0x80 ≤ other := by
      intro other same
      obtain rfl := Symbol.stray.inj same
      exact high_of_stray none
    rw [List.flatMap_cons, encode_append, encode_written (written_escaped _) high, ih]
    simp [Symbol.bytes]

/-- Strings are kept byte for byte: text gives back the bytes it was read from, also where stray bytes
of one text come to stand before those of another, and in a literal six bytes are escaped, of which
none is part of a longer character. -/
theorem encode_quoted_decode (bytes : List UInt8) (parts : List (List UInt8)) :
    (∀ text, decode bytes = text ↔ Decodes bytes text) ∧
      encode (decode bytes) = bytes ∧
      encode (parts.flatMap decode) = parts.flatten ∧
      encode (quoted (decode bytes)) = 0x22 :: bytes.flatMap escapedByte ++ [0x22] ∧
      ∀ symbol ∈ decode bytes, 1 < symbol.bytes.length →
        ∀ byte ∈ symbol.bytes, escapedByte byte = [byte] := by
  refine ⟨fun text => decode_eq_iff, encode_decode bytes, ?_, ?_, ?_⟩
  · induction parts with
    | nil => rfl
    | cons first rest ih =>
      rw [List.flatMap_cons, encode_append, encode_decode, ih, List.flatten_cons]
  · have quote : encode [.char doubleQuote] = [0x22] := by decide
    change encode ([.char doubleQuote] ++ (decode bytes).flatMap escaped ++ [.char doubleQuote]) = _
    rw [encode_append, encode_append, encode_escaped (decodes_decode bytes), quote]
    rfl
  · intro symbol among wide byte member
    cases symbol with
    | stray other => exact absurd wide (Nat.lt_irrefl 1)
    | char value =>
      apply escapedByte_of_high (high_of_mem_utf8EncodeChar _ member)
      rwa [← String.length_utf8EncodeChar]

/-- A backslash, a letter of two bytes, its first byte alone, a quote, and three bytes that would be a
surrogate. -/
theorem encode_quoted_decode_of_mixed :
    let bytes : List UInt8 := [0x5C, 0xC3, 0xA9, 0xC3, 0x22, 0xED, 0xA0, 0x80]
    let letter : Symbol := .char 'é'
    decode bytes = [.char backslash, letter, .stray 0xC3, .char doubleQuote, .stray 0xED,
        .stray 0xA0, .stray 0x80] ∧
      encode (quoted (decode bytes)) =
        [0x22, 0x5C, 0x5C, 0xC3, 0xA9, 0xC3, 0x5C, 0x22, 0xED, 0xA0, 0x80, 0x22] ∧
      encode ([[0xC3], [0xA9]].flatMap decode) = [0xC3, 0xA9] ∧
      letter ∈ decode bytes ∧ 1 < letter.bytes.length ∧
      ∀ byte ∈ letter.bytes, escapedByte byte = [byte] := by
  intro bytes letter
  have read : decode bytes = [.char backslash, letter, .stray 0xC3, .char doubleQuote,
      .stray 0xED, .stray 0xA0, .stray 0x80] := by decide
  have among : letter ∈ decode bytes := by
    rw [read]
    exact List.mem_cons_of_mem _ List.mem_cons_self
  have wide : 1 < letter.bytes.length := by decide
  obtain ⟨_, _, joined, written, kept⟩ := encode_quoted_decode bytes [[0xC3], [0xA9]]
  exact ⟨read, written, joined, among, wide, kept letter among wide⟩

/-- A literal is one line without a tab or a zero in it, it ends where it is read to the end, and it
comes unchanged out of any number of blocks that it is pasted into, while the text around it depends
on nothing in it. -/
theorem quoted_delimited (first second rest other : Text) (places : List Place)
    (before after : Text) :
    (quoted first ++ rest = quoted second ++ other ↔ first = second ∧ rest = other) ∧
      (lineFeed ∉ quoted first ∧ .char '\r' ∉ quoted first ∧ .char '\t' ∉ quoted first ∧
        .char '\x00' ∉ quoted first) ∧
      ∃ front back, ∀ text, Place.pasteAll places (before ++ quoted text ++ after) =
        front ++ quoted text ++ back := by
  have unbroken (text : Text) : lineFeed ∉ quoted text :=
    not_mem_quoted '\n' 'n' (by decide) (by decide) text
  refine ⟨quoted_append_inj, ⟨unbroken first, ?_, ?_, ?_⟩, ?_⟩
  · exact not_mem_quoted '\r' 'r' (by decide) (by decide) first
  · exact not_mem_quoted '\t' 't' (by decide) (by decide) first
  · exact not_mem_quoted '\x00' '0' (by decide) (by decide) first
  · obtain ⟨front, back, pasted⟩ := Place.pasteAll_around places before after
    exact ⟨front, back, fun text => pasted (quoted text) (List.cons_ne_nil _ _) (unbroken text)⟩

end Source

end LuaLift
