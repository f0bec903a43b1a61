import LuaLift.Chunk

/-! Laying chunks out in bytes, field by field in the order in which they are read. -/
namespace LuaLift

namespace Encoding

def intBytes (encoding : Encoding) (value : Int) : List UInt8 :=
  encoding.order.bytesOfInt encoding.intSize value

/-- The empty text is a length of zero; any other has a zero byte after it that is counted. -/
def textBytes (encoding : Encoding) (text : Text) : List UInt8 :=
  match text with
  | [] => encoding.order.bytesOfNat encoding.sizeSize 0
  | text =>
    encoding.order.bytesOfNat encoding.sizeSize (text.encode.length + 1) ++ text.encode ++ [0]

def numberBytes (encoding : Encoding) (number : Double) : List UInt8 :=
  encoding.number.encode encoding.order number

def wordBytes (encoding : Encoding) (instruction : Instruction) : List UInt8 :=
  encoding.order.bytesOfNat encoding.wordSize instruction.raw.toNat

/-- A count and as many elements. -/
def listBytes {α : Type} (encoding : Encoding) (element : α → List UInt8) (items : List α) :
    List UInt8 :=
  encoding.intBytes items.length ++ items.flatMap element

def localBytes (encoding : Encoding) (entry : Local) : List UInt8 :=
  encoding.textBytes entry.name ++ encoding.intBytes entry.start ++ encoding.intBytes entry.finish

end Encoding

namespace Preamble

def toBytes (preamble : Preamble) : List UInt8 :=
  chunkId :: signature ++ version ::
    [preamble.orderFlag, preamble.intSize, preamble.sizeSize, preamble.wordSize,
      preamble.widths.word, preamble.widths.opcode, preamble.widths.low,
      preamble.numberSize].map (fun field => UInt8.ofNat field.toNat) ++ preamble.sample

end Preamble

namespace Prototype

mutual
def toBytes (encoding : Encoding) : Prototype → List UInt8
  | ⟨source, line, paramCount, isVararg, maxStack, locals, lines, strings, numbers, functions,
      code⟩ =>
    encoding.textBytes source ++ encoding.intBytes line ++ encoding.intBytes paramCount ++
      [if isVararg then 1 else 0] ++ encoding.intBytes maxStack ++
      encoding.listBytes encoding.localBytes locals ++ encoding.listBytes encoding.intBytes lines ++
      encoding.listBytes encoding.textBytes strings ++
      encoding.listBytes encoding.numberBytes numbers ++
      encoding.intBytes functions.length ++ toBytesAll encoding functions ++
      encoding.listBytes encoding.wordBytes code

def toBytesAll (encoding : Encoding) : List Prototype → List UInt8
  | [] => []
  | prototype :: rest => toBytes encoding prototype ++ toBytesAll encoding rest
end

end Prototype

/-- The bytes of a chunk whose preamble chooses a layout that can be read. -/
def Chunk.toBytes? (chunk : Chunk) : Option (List UInt8) :=
  chunk.preamble.encoding.toOption.map fun encoding =>
    chunk.preamble.toBytes ++ chunk.main.toBytes encoding

end LuaLift
