import LuaLift.Preamble
import LuaLift.Text.Utf8

/-! Reading values from the bytes of a chunk. A cursor only moves forward; a read that fails
keeps what its parts have read before. -/
namespace LuaLift

/-- A place in a chunk with the bytes from there on. The place may lie past the end. -/
structure Cursor where
  size : Nat
  offset : Nat
  rest : List UInt8
  rest_length : rest.length = size - offset
deriving DecidableEq, Repr

namespace Cursor

def start (bytes : List UInt8) (offset : Nat) : Cursor :=
  ⟨bytes.length, offset, bytes.drop offset, List.length_drop⟩

def remaining (cursor : Cursor) : Int := cursor.size - cursor.offset

/-- A count of bytes and the place after them, if there are that many. -/
def take? (cursor : Cursor) (count : Nat) : Option (List UInt8 × Cursor) :=
  if cursor.offset + count ≤ cursor.size then
    some (cursor.rest.take count,
      ⟨cursor.size, cursor.offset + count, cursor.rest.drop count, by
        rw [List.length_drop, cursor.rest_length]; omega⟩)
  else none

end Cursor

abbrev Read := ExceptT Fault (StateM Cursor)

namespace Read

def offset : Read Nat := do pure (← get).offset

def failAt (offset : Nat) (problem : StructureProblem) : Read α :=
  throw (.malformed problem none (some offset))

/-- Bytes as they are. -/
def bytes (length : Int) : Read (List UInt8) := do
  let cursor ← get
  if length < 0 then failAt cursor.offset (.negativeLength length)
  else match cursor.take? length.toNat with
    | some (bytes, next) => do
      set next
      pure bytes
    | none => failAt cursor.offset (.unexpectedEnd length cursor.remaining)

def byte : Read UInt8 := do pure ((← bytes 1).headD 0)

def int (encoding : Encoding) : Read Int := do
  pure (encoding.order.intOf (← bytes encoding.intSize))

def size (encoding : Encoding) : Read Nat := do
  pure (encoding.order.natOf (← bytes encoding.sizeSize))

def word (encoding : Encoding) : Read Nat := do
  pure (encoding.order.natOf (← bytes encoding.wordSize))

def number (encoding : Encoding) : Read Double := do
  pure (encoding.number.decode encoding.order (← bytes encoding.number.size))

/-- A count of elements, which is not negative. -/
def count (encoding : Encoding) (what : Text) : Read Nat := do
  let start ← offset
  let count ← int encoding
  if count < 0 then failAt start (.negativeCount what count) else pure count.toNat

/-- A length and as many bytes, the last of them a zero that is not part of the text. Length
zero is the empty text and has no such byte. -/
def text (encoding : Encoding) : Read Text := do
  let start ← offset
  let length ← size encoding
  if length = 0 then pure []
  else
    let bytes ← bytes length
    if bytes.getLast? = some 0 then pure (Text.decode bytes.dropLast)
    else failAt start .unterminatedString

end Read

/-- One value to read, for runs that go on after a fault. -/
inductive Request where
  | bytes (length : Int)
  | byte
  | int
  | size
  | word
  | number
  | count (what : Text)
  | text
deriving DecidableEq, Repr

inductive Value where
  | bytes (value : List UInt8)
  | whole (value : Int)
  | number (value : Double)
  | text (value : Text)
deriving DecidableEq, Repr

namespace Request

def read (encoding : Encoding) : Request → Read Value
  | bytes length => return .bytes (← Read.bytes length)
  | byte => return .whole (← Read.byte).toNat
  | int => return .whole (← Read.int encoding)
  | size => return .whole (← Read.size encoding)
  | word => return .whole (← Read.word encoding)
  | number => return .number (← Read.number encoding)
  | count what => return .whole (← Read.count encoding what)
  | text => return .text (← Read.text encoding)

/-- The answer to each request in turn with the place after it. -/
def run (encoding : Encoding) : List Request → Cursor → List (Except Fault Value × Cursor)
  | [], _ => []
  | request :: rest, cursor =>
    let answer := (request.read encoding).run cursor
    answer :: run encoding rest answer.2

end Request

end LuaLift
