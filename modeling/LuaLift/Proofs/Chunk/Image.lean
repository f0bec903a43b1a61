import LuaLift.Proofs.Nested
import LuaLift.Proofs.Reading.Values

/-! Prototypes as they stand in a chunk, with every choice that its bytes make and that a prototype
does not show: the flag of a variable argument list, the spelling of texts, and the bit patterns of
numbers. -/
namespace LuaLift

/-- A local variable as it stands in a chunk. -/
structure LocalImage where
  name : Spelling
  start : Int
  finish : Int
deriving DecidableEq, Repr, Inhabited

namespace LocalImage

def bytes (encoding : Encoding) (image : LocalImage) : List UInt8 :=
  image.name.bytes encoding ++ encoding.intBytes image.start ++ encoding.intBytes image.finish

/-- The local variable that the image shows. -/
def entry (image : LocalImage) : Local := ⟨image.name.text, image.start, image.finish⟩

structure Fits (encoding : Encoding) (image : LocalImage) : Prop where
  name : image.name.Fits encoding
  start : FitsInt encoding.intSize image.start
  finish : FitsInt encoding.intSize image.finish

end LocalImage

/-- A prototype as it stands in a chunk: numbers by their patterns, instructions by their words. -/
structure Image where
  source : Spelling
  line : Int
  paramCount : Int
  flag : UInt8
  maxStack : Int
  locals : List LocalImage
  lines : List Int
  strings : List Spelling
  numbers : List Nat
  functions : List Image
  words : List Nat
deriving Repr, Inhabited

namespace Image

mutual
/-- The bytes of a prototype, field by field. -/
def bytes (encoding : Encoding) : Image → List UInt8
  | ⟨source, line, paramCount, flag, maxStack, locals, lines, strings, numbers, functions, words⟩ =>
    source.bytes encoding ++ encoding.intBytes line ++ encoding.intBytes paramCount ++ [flag] ++
      encoding.intBytes maxStack ++ encoding.listBytes (·.bytes encoding) locals ++
      encoding.listBytes encoding.intBytes lines ++ encoding.listBytes (·.bytes encoding) strings ++
      encoding.listBytes (encoding.order.bytesOfNat encoding.number.size) numbers ++
      (encoding.intBytes functions.length ++ bytesAll encoding functions) ++
      encoding.listBytes (encoding.order.bytesOfNat encoding.wordSize) words

def bytesAll (encoding : Encoding) : List Image → List UInt8
  | [] => []
  | image :: rest => image.bytes encoding ++ bytesAll encoding rest
end

mutual
/-- The prototype that the image shows. A flag other than one is no variable argument list. -/
def prototype (encoding : Encoding) (widths : FieldWidths) : Image → Prototype
  | ⟨source, line, paramCount, flag, maxStack, locals, lines, strings, numbers, functions, words⟩ =>
    ⟨source.text, line, paramCount, flag = 1, maxStack, locals.map (·.entry), lines,
      strings.map (·.text), numbers.map encoding.number.ofPattern,
      prototypes encoding widths functions, words.map fun word : Nat => ⟨word, widths⟩⟩

def prototypes (encoding : Encoding) (widths : FieldWidths) : List Image → List Prototype
  | [] => []
  | image :: rest => image.prototype encoding widths :: prototypes encoding widths rest
end

mutual
/-- The image followed by those inside it. -/
def all : Image → List Image
  | ⟨source, line, paramCount, flag, maxStack, locals, lines, strings, numbers, functions, words⟩ =>
    ⟨source, line, paramCount, flag, maxStack, locals, lines, strings, numbers, functions, words⟩ ::
      allOf functions

def allOf : List Image → List Image
  | [] => []
  | image :: rest => image.all ++ allOf rest
end

/-- A list with room for its count, each member of which has room. -/
def FitsList (encoding : Encoding) (fits : α → Prop) (items : List α) : Prop :=
  FitsInt encoding.intSize items.length ∧ ∀ item ∈ items, fits item

instance {encoding : Encoding} {fits : α → Prop} [DecidablePred fits] :
    DecidablePred (FitsList encoding fits) := fun _ => inferInstanceAs (Decidable (_ ∧ _))

theorem FitsList.map {encoding : Encoding} {fits : α → Prop} {items : List α} {view : α → β}
    {fitsView : β → Prop} (all : FitsList encoding fits items)
    (kept : ∀ item, fits item → fitsView (view item)) :
    FitsList encoding fitsView (items.map view) :=
  ⟨by simpa using all.1, List.forall_mem_map.mpr fun item member => kept item (all.2 item member)⟩

/-- A word with room that holds a known opcode. -/
def FitsWord (encoding : Encoding) (widths : FieldWidths) (word : Nat) : Prop :=
  word < 256 ^ encoding.wordSize ∧
    ∃ opcode, (⟨word, widths⟩ : Instruction).opcode = .ok opcode

/-- The fields of a prototype have room, and its code ends as code has to end. -/
structure Fits (encoding : Encoding) (widths : FieldWidths) (image : Image) : Prop where
  source : image.source.Fits encoding
  line : FitsInt encoding.intSize image.line
  paramCount : FitsInt encoding.intSize image.paramCount
  maxStack : FitsInt encoding.intSize image.maxStack
  locals : FitsList encoding (·.Fits encoding) image.locals
  lines : FitsList encoding (FitsInt encoding.intSize) image.lines
  strings : FitsList encoding (·.Fits encoding) image.strings
  numbers : FitsList encoding (· < 256 ^ encoding.number.size) image.numbers
  functions : FitsInt encoding.intSize image.functions.length
  words : FitsList encoding (FitsWord encoding widths) image.words
  ends : ∃ last, image.words.getLast? = some last ∧
    (⟨last, widths⟩ : Instruction).opcode = .ok .endCode

/-- The prototype and all those inside it fit. -/
def FitsAll (encoding : Encoding) (widths : FieldWidths) (image : Image) : Prop :=
  ∀ part ∈ image.all, part.Fits encoding widths

@[elab_as_elim]
theorem induct {motive : Image → Prop}
    (step : ∀ image, (∀ inner ∈ image.functions, motive inner) → motive image)
    (image : Image) : motive image := by
  refine Nested.induct (fun outer => ?_) step image
  cases outer
  simp only [mk.sizeOf_spec]
  omega

theorem bytesAll_eq_flatMap (encoding : Encoding) (images : List Image) :
    bytesAll encoding images = images.flatMap (bytes encoding) :=
  Nested.eq_flatMap (by rw [bytesAll]) (fun _ _ => by rw [bytesAll]) images

theorem prototypes_eq_map (encoding : Encoding) (widths : FieldWidths) (images : List Image) :
    prototypes encoding widths images = images.map (prototype encoding widths) :=
  Nested.eq_map (by rw [prototypes]) (fun _ _ => by rw [prototypes]) images

private theorem allOf_eq_flatMap (images : List Image) : allOf images = images.flatMap all :=
  Nested.eq_flatMap (by rw [allOf]) (fun _ _ => by rw [allOf]) images

private theorem all_eq (image : Image) : image.all = image :: image.functions.flatMap all := by
  cases image
  rw [all, allOf_eq_flatMap]

/-- All images from one on are the image itself and all from each of its functions on. -/
theorem forall_mem_all_iff {property : Image → Prop} {image : Image} :
    (∀ part ∈ image.all, property part) ↔
      property image ∧ ∀ inner ∈ image.functions, ∀ part ∈ inner.all, property part := by
  rw [all_eq, List.forall_mem_cons, List.forall_mem_flatMap]

theorem fitsAll_iff {encoding : Encoding} {widths : FieldWidths} {image : Image} :
    image.FitsAll encoding widths ↔
      image.Fits encoding widths ∧ ∀ inner ∈ image.functions, inner.FitsAll encoding widths :=
  forall_mem_all_iff

end Image

end LuaLift
