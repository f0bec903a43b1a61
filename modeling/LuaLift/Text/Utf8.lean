import LuaLift.Text.Basic

/-! Bytes and text. A character is read wherever a well-formed sequence starts; every other byte
becomes a stray symbol of its own, so writing a text back gives the bytes it was read from. -/
namespace LuaLift

def Symbol.bytes : Symbol → List UInt8
  | .char value => String.utf8EncodeChar value
  | .stray byte => [byte]

namespace Text

/-- The character whose well-formed sequence the bytes start with. -/
def leadingChar? (bytes : List UInt8) : Option Char :=
  (bytes.take 4).toByteArray.utf8DecodeChar? 0

/-- The text of the bytes after the first few, which belong to a character already read. -/
def decodeAfter : Nat → List UInt8 → Text
  | _, [] => []
  | skipped + 1, _ :: rest => decodeAfter skipped rest
  | 0, byte :: rest =>
    match leadingChar? (byte :: rest) with
    | some value => .char value :: decodeAfter (value.utf8Size - 1) rest
    | none => .stray byte :: decodeAfter 0 rest

def decode (bytes : List UInt8) : Text := decodeAfter 0 bytes

def encode (text : Text) : List UInt8 := text.flatMap Symbol.bytes

@[simp] theorem encode_append (left right : Text) :
    encode (left ++ right) = encode left ++ encode right := by
  simp [encode]

end Text

end LuaLift
