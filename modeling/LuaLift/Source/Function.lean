import LuaLift.Chunk
import LuaLift.Node.Forest
import LuaLift.Source.Statement

/-! The text of functions and chunks. A function inside another is written where its closure
is made, as only there the texts of the captured values are known. -/
namespace LuaLift

/-- A function's parameters and its body one level deeper. -/
def Options.functionText (options : Options) (parameters : List Text) (body : Text) :
    Traced Text := do
  let layout : Layout := { unit := options.indent }
  let opened := layout.addLine ("function(" ++ Text.join ", " parameters ++ ")")
  let filled ← opened.inside fun layout =>
    pure (if body.isEmpty then layout else layout.addBlock body)
  pure (filled.addLine "end").text

namespace Prototype

/-- The names of the parameters, which are the first locals. -/
def parameters (options : Options) (prototype : Prototype) : List Text :=
  (List.range prototype.paramCount.toNat).map (fun slot : Nat =>
    options.localName (prototype.locals.map Local.name)[slot]? slot) ++
    (if prototype.isVararg then [Text.ofString "..."] else [])

mutual
/-- The text of a prototype's body for the texts of the values it captures. -/
def bodyText (options : Options) (detailed : Bool) : Prototype → List Text → Traced Text
  | ⟨_, _, _, _, _, locals, _, strings, numbers, functions, code⟩, upvalues => do
    let forest ← Forest.build ⟨some functions.length, detailed⟩ 0 code
    let scope : Scope := ⟨options, locals.map Local.name, strings, numbers,
      closureTexts options detailed functions, upvalues⟩
    scope.forestText forest

/-- For each prototype, the text of its closure. -/
def closureTexts (options : Options) (detailed : Bool) :
    List Prototype → List (List Text → Traced Text)
  | [] => []
  | prototype :: rest =>
    (fun upvalues => do
      let body ← bodyText options detailed prototype upvalues
      options.functionText (prototype.parameters options) body) ::
      closureTexts options detailed rest
end

/-- What the nodes of a prototype's code are written with. -/
def scope (options : Options) (detailed : Bool) (prototype : Prototype) (upvalues : List Text) :
    Scope :=
  ⟨options, prototype.locals.map Local.name, prototype.strings, prototype.numbers,
    closureTexts options detailed prototype.functions, upvalues⟩

end Prototype

/-- The text of the whole chunk in some bytes. -/
def liftBytes (options : Options) (detailed : Bool) (bytes : List UInt8) : Traced Text := do
  let chunk ← Chunk.ofBytes bytes
  chunk.main.bodyText options detailed []

end LuaLift
