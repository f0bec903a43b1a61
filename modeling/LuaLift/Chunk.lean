import LuaLift.Prototype.Read

/-! Whole chunks: a preamble, one prototype, and nothing after it. -/
namespace LuaLift

structure Chunk where
  preamble : Preamble
  main : Prototype
deriving Repr, Inhabited

namespace Chunk

/-- A chunk at the start of the bytes, and how many bytes it takes. -/
def leading (bytes : List UInt8) : Traced (Chunk × Nat) := do
  let (preamble, encoding) ← Preamble.read bytes
  let start := Cursor.start bytes preamble.size.toNat
  let (main, finish) ← (Prototype.parse encoding preamble.widths).run start
  pure (⟨preamble, main⟩, finish.offset)

/-- A chunk that takes all of the bytes. -/
def ofBytes (bytes : List UInt8) : Traced Chunk := do
  let (chunk, consumed) ← leading bytes
  if consumed = bytes.length then pure chunk
  else throw (.malformed (.trailingBytes (bytes.length - consumed)) none (some consumed))

end Chunk

end LuaLift
