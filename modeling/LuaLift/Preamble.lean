import LuaLift.Instruction
import LuaLift.Journal
import LuaLift.Number.Bytes

/-! The preamble of a chunk: a signature, the widths and the byte order of everything that
follows, and a sample number that shows whether both sides mean the same by them. -/
namespace LuaLift

/-- The fields as they stand in the chunk; the byte order is a flag, widths are in bytes, and the
widths of instruction fields in bits. -/
structure Preamble where
  orderFlag : Int := 1
  intSize : Int := 4
  sizeSize : Int := 4
  wordSize : Int := 4
  widths : FieldWidths := {}
  numberSize : Int := 8
  sample : List UInt8 := []
deriving DecidableEq, Repr, Inhabited

/-- The layout of values in the bytes of a chunk. -/
structure Encoding where
  order : ByteOrder
  intSize : Nat
  sizeSize : Nat
  wordSize : Nat
  number : NumberFormat
deriving DecidableEq, Repr, Inhabited

namespace Preamble

def chunkId : UInt8 := 0x1B

def signature : List UInt8 := [0x4C, 0x75, 0x61]

def version : UInt8 := 0x40

/-- The bytes up to the sample number. -/
def fixedSize : Nat := 13

def size (preamble : Preamble) : Int := fixedSize + preamble.numberSize

/-- The width of the high operand of a pair. -/
def highWidth (preamble : Preamble) : Int :=
  preamble.widths.word - preamble.widths.opcode - preamble.widths.low

def orderName (preamble : Preamble) : String :=
  ((ByteOrder.ofFlag? preamble.orderFlag).map ByteOrder.name).getD ""

open Text in
def summary (preamble : Preamble) : Text :=
  "Lua 4.0 " ++ ofString preamble.orderName ++ "-endian int=" ++ decimal preamble.intSize ++
    " size_t=" ++ decimal preamble.sizeSize ++ " instruction=" ++ decimal preamble.wordSize ++
    " (" ++ decimal preamble.widths.word ++ " bits: op=" ++ decimal preamble.widths.opcode ++
    " b=" ++ decimal preamble.widths.low ++ " a=" ++ decimal preamble.highWidth ++ ") number=" ++
    decimal preamble.numberSize

/-- Whole numbers have two or four bytes, sizes and instruction words up to eight, and other
numbers four or eight. The first width without a decoder is the one reported. -/
def encoding (preamble : Preamble) : Except EncodingProblem Encoding := do
  let flag := preamble.orderFlag
  let some order := ByteOrder.ofFlag? flag
    | throw (.noDecoder .int preamble.intSize flag)
  unless preamble.intSize ∈ [2, 4] do throw (.noDecoder .int preamble.intSize flag)
  unless preamble.sizeSize ∈ [2, 4, 8] do throw (.noDecoder .size preamble.sizeSize flag)
  unless preamble.wordSize ∈ [2, 4, 8] do throw (.noDecoder .instruction preamble.wordSize flag)
  let some number := NumberFormat.ofSize? preamble.numberSize
    | throw (.noDecoder .number preamble.numberSize flag)
  pure ⟨order, preamble.intSize.toNat, preamble.sizeSize.toNat, preamble.wordSize.toNat, number⟩

def encodingAt (preamble : Preamble) (offset : Option Int) : Except Fault Encoding :=
  preamble.encoding.mapError fun problem => .encoding problem offset

/-- The fields of an instruction word are not empty and leave room in a word of its bytes. -/
def checkWidths (preamble : Preamble) : Except Fault Unit := do
  let widths := preamble.widths
  if widths.opcode ≤ 0 ∨ widths.low ≤ 0 then
    throw (.encoding (.emptyField widths.opcode widths.low) (some 9))
  if 8 * preamble.wordSize < widths.word then
    throw (.encoding (.wideWord widths.word preamble.wordSize) (some 8))
  if widths.word ≤ widths.opcode + widths.low then
    throw (.encoding (.noRoom widths.opcode widths.low widths.word) (some 9))

/-- Bytes shown one character each. -/
def latinText (bytes : List UInt8) : Text :=
  Text.ofChars (bytes.map fun byte => Char.ofNat byte.toNat)

/-- The preamble at the start of a chunk, every field checked from first to last, with the layout
it chooses. -/
def ofBytes : List UInt8 → Except Fault (Preamble × Encoding)
  | id :: first :: second :: third :: release :: order :: int :: size :: word :: bits :: opcode ::
      low :: number :: rest => do
    if id ≠ chunkId then throw (.preamble (.wrongId id chunkId) (some 0))
    if [first, second, third] ≠ signature then
      throw (.preamble (.wrongSignature (latinText [first, second, third])) (some 1))
    if release ≠ version then throw (.preamble (.wrongVersion release version) (some 4))
    let sample := rest.take number.toNat
    if sample.length < number.toNat then
      throw (.preamble (.truncatedSample number.toNat sample.length) (some fixedSize))
    let preamble : Preamble :=
      ⟨order.toNat, int.toNat, size.toNat, word.toNat, ⟨bits.toNat, opcode.toNat, low.toNat⟩,
        number.toNat, sample⟩
    let encoding ← preamble.encodingAt (some 5)
    preamble.checkWidths
    pure (preamble, encoding)
  | bytes => throw (.preamble (.tooShort bytes.length) (some 0))

/-- The number every writer of chunks puts into its preamble. -/
def expectedSample : Double := .ofBits 0x41B2B9B0A15BE60C

/-- A thousandth of the expected number. -/
def tolerance : Double := .ofBits 0x41132CBD0FBA43A2

/-- Infinities are far from the expected number, and what is no number is not compared. -/
def isFarSample (sample : Double) : Bool :=
  if sample.isNaN then false
  else sample.isInfinite || tolerance.value < (sample.value - expectedSample.value).abs

/-- What reading a preamble leaves in the journal. -/
def journal (preamble : Preamble) (encoding : Encoding) : List Event :=
  let sample := encoding.number.decode encoding.order preamble.sample
  (if isFarSample sample then [.sampleMismatch sample expectedSample] else []) ++
    [.preambleRead preamble.summary]

def read (bytes : List UInt8) : Traced (Preamble × Encoding) := do
  let (preamble, encoding) ← ofBytes bytes
  (preamble.journal encoding).forM Traced.note
  pure (preamble, encoding)

end Preamble

/-- The number that a few bytes hold under an order flag, if there is a format of that size. -/
def decodeNumber (bytes : List UInt8) (flag : Int) : Except Fault Double :=
  match ByteOrder.ofFlag? flag, NumberFormat.ofSize? bytes.length with
  | some order, some format => .ok (format.decode order bytes)
  | _, _ => .error (.encoding (.noDecoder .number bytes.length flag) none)

end LuaLift
