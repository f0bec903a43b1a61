import LuaLift.Proofs.Chunk.Image
import LuaLift.Proofs.Prototype.Induction
import LuaLift.Proofs.Text.Utf8

/-! The image that a prototype is written as. It is the only image of the prototype in which no text
is a zero byte alone and every flag is zero or one. -/
namespace LuaLift

/-- The text that is read where a text was written. -/
def Text.reread (text : Text) : Text := decode text.encode

/-- The number that is read where a number was written. -/
def Encoding.reread (encoding : Encoding) (number : Double) : Double :=
  encoding.number.decode encoding.order (encoding.numberBytes number)

namespace Spelling

/-- The spelling that a text is written in. -/
def ofText : Text → Spelling
  | [] => absent
  | symbol :: rest => ended (Text.encode (symbol :: rest))

private theorem bytes_ofText (encoding : Encoding) (text : Text) :
    (ofText text).bytes encoding = encoding.textBytes text := by
  cases text <;> rfl

private theorem text_ofText (text : Text) : (ofText text).text = text.reread := by
  cases text <;> rfl

private theorem fits_ofText_iff {encoding : Encoding} {text : Text} :
    (ofText text).Fits encoding ↔
      (text ≠ [] → text.encode.length + 1 < 256 ^ encoding.sizeSize) := by
  cases text with
  | nil => simp [ofText, Fits]
  | cons symbol rest => simp [ofText, Fits]

/-- A spelling that is written: the empty text has no zero byte. -/
def Plain (spelling : Spelling) : Prop := spelling ≠ ended []

private theorem plain_ofText (text : Text) : (ofText text).Plain := by
  cases text with
  | nil => exact nofun
  | cons symbol rest =>
    intro same
    have none : symbol.bytes ++ Text.encode rest = [] := Spelling.ended.inj same
    have something : symbol.bytes ≠ [] := by
      cases symbol with
      | char value => exact String.utf8EncodeChar_ne_nil
      | stray byte => exact List.cons_ne_nil _ _
    exact something (List.append_eq_nil_iff.mp none).1

private theorem ofText_text {spelling : Spelling} (plain : spelling.Plain) :
    ofText spelling.text = spelling := by
  cases spelling with
  | absent => rfl
  | ended content =>
    have whole := Text.encode_decode content
    cases decoded : Text.decode content with
    | nil =>
      rw [decoded] at whole
      obtain rfl : [] = content := whole
      exact absurd rfl plain
    | cons symbol rest =>
      rw [decoded] at whole
      rw [Spelling.text, decoded, ofText, whole]

end Spelling

namespace LocalImage

/-- The image that a local variable is written as. -/
def ofEntry (entry : Local) : LocalImage := ⟨.ofText entry.name, entry.start, entry.finish⟩

private theorem bytes_ofEntry (encoding : Encoding) (entry : Local) :
    (ofEntry entry).bytes encoding = encoding.localBytes entry := by
  rw [bytes, ofEntry, Spelling.bytes_ofText]
  rfl

private theorem entry_ofEntry (entry : Local) :
    (ofEntry entry).entry = { entry with name := entry.name.reread } := by
  rw [LocalImage.entry, ofEntry, Spelling.text_ofText]

private theorem ofEntry_entry {image : LocalImage} (plain : image.name.Plain) :
    ofEntry image.entry = image := by
  rw [entry, ofEntry, Spelling.ofText_text plain]

end LocalImage

namespace Encoding

/-- The pattern that a number is written as. -/
def patternOf (encoding : Encoding) (number : Double) : Nat :=
  encoding.order.natOf (encoding.numberBytes number)

variable (encoding : Encoding)

private theorem length_numberBytes (number : Double) :
    (encoding.numberBytes number).length = encoding.number.size := by
  rw [numberBytes, NumberFormat.encode_eq, ByteOrder.length_bytesOfNat]

private theorem patternOf_lt (number : Double) :
    encoding.patternOf number < 256 ^ encoding.number.size := by
  rw [← encoding.length_numberBytes number]
  exact encoding.order.natOf_lt _

private theorem bytesOfNat_patternOf (number : Double) :
    encoding.order.bytesOfNat encoding.number.size (encoding.patternOf number) =
      encoding.numberBytes number := by
  rw [← encoding.length_numberBytes number]
  exact encoding.order.bytesOfNat_natOf _

private theorem ofPattern_patternOf (number : Double) :
    encoding.number.ofPattern (encoding.patternOf number) = encoding.reread number :=
  (NumberFormat.decode_eq _ _ _).symm

private theorem patternOf_ofPattern {pattern : Nat} (fits : pattern < 256 ^ encoding.number.size) :
    encoding.patternOf (encoding.number.ofPattern pattern) = pattern := by
  rw [patternOf, numberBytes, NumberFormat.encode_eq, ByteOrder.natOf_bytesOfNat,
    NumberFormat.pattern_ofPattern _ fits, Nat.mod_eq_of_lt fits]

end Encoding

mutual
/-- The image that a prototype is written as. -/
def Prototype.image (encoding : Encoding) : Prototype → Image
  | ⟨source, line, paramCount, isVararg, maxStack, locals, lines, strings, numbers, functions,
      code⟩ =>
    ⟨.ofText source, line, paramCount, if isVararg then 1 else 0, maxStack,
      locals.map LocalImage.ofEntry, lines, strings.map Spelling.ofText,
      numbers.map encoding.patternOf, Prototype.images encoding functions,
      code.map (·.raw.toNat)⟩

def Prototype.images (encoding : Encoding) : List Prototype → List Image
  | [] => []
  | prototype :: rest => prototype.image encoding :: Prototype.images encoding rest
end

namespace Prototype

private theorem images_eq_map (encoding : Encoding) (prototypes : List Prototype) :
    images encoding prototypes = prototypes.map (image encoding) :=
  Nested.eq_map (by rw [images]) (fun _ _ => by rw [images]) prototypes

/-- Writing a prototype is writing its image. -/
theorem bytes_image (encoding : Encoding) (prototype : Prototype) :
    (prototype.image encoding).bytes encoding = prototype.toBytes encoding := by
  induction prototype using induct with
  | step prototype ih =>
    obtain ⟨source, line, paramCount, isVararg, maxStack, locals, lines, strings, numbers, functions,
      code⟩ := prototype
    have inside : functions.flatMap (fun inner => (inner.image encoding).bytes encoding) =
        functions.flatMap (toBytes encoding) := by
      rw [List.flatMap_def, List.flatMap_def, List.map_congr_left ih]
    simp only [image, Image.bytes, toBytes, images_eq_map, Image.bytesAll_eq_flatMap,
      toBytesAll_eq_flatMap, Spelling.bytes_ofText, Encoding.listBytes, List.flatMap_map,
      List.length_map, LocalImage.bytes_ofEntry, inside, List.append_assoc,
      Encoding.bytesOfNat_patternOf]
    rfl

end Prototype

mutual
/-- The prototype with every text and every number as it is read back. -/
def Prototype.reread (encoding : Encoding) : Prototype → Prototype
  | ⟨source, line, paramCount, isVararg, maxStack, locals, lines, strings, numbers, functions,
      code⟩ =>
    ⟨source.reread, line, paramCount, isVararg, maxStack,
      locals.map fun entry => { entry with name := entry.name.reread }, lines,
      strings.map Text.reread, numbers.map encoding.reread, Prototype.rereadAll encoding functions,
      code⟩

def Prototype.rereadAll (encoding : Encoding) : List Prototype → List Prototype
  | [] => []
  | prototype :: rest => prototype.reread encoding :: Prototype.rereadAll encoding rest
end

namespace Encoding

/-- A text whose length, with the zero byte behind it, has room. -/
def FitsText (encoding : Encoding) (text : Text) : Prop :=
  text ≠ [] → text.encode.length + 1 < 2 ^ (8 * encoding.sizeSize)

instance {encoding : Encoding} : DecidablePred encoding.FitsText := fun text =>
  inferInstanceAs (Decidable (text ≠ [] → _))

structure FitsLocal (encoding : Encoding) (entry : Local) : Prop where
  name : encoding.FitsText entry.name
  start : FitsInt encoding.intSize entry.start
  finish : FitsInt encoding.intSize entry.finish

instance {encoding : Encoding} : DecidablePred encoding.FitsLocal := fun entry =>
  decidable_of_iff (encoding.FitsText entry.name ∧ FitsInt encoding.intSize entry.start ∧
    FitsInt encoding.intSize entry.finish)
    ⟨fun ⟨name, start, finish⟩ => ⟨name, start, finish⟩,
      fun ⟨name, start, finish⟩ => ⟨name, start, finish⟩⟩

/-- An instruction of the widths of a chunk, with room in a word of it and a known opcode. -/
structure FitsInstruction (encoding : Encoding) (widths : FieldWidths) (instruction : Instruction) :
    Prop where
  positive : 0 ≤ instruction.raw
  small : instruction.raw < 2 ^ (8 * encoding.wordSize)
  widths : instruction.widths = widths
  opcode : ∃ opcode, instruction.opcode = .ok opcode

instance {encoding : Encoding} {widths : FieldWidths} :
    DecidablePred (encoding.FitsInstruction widths) := fun instruction =>
  decidable_of_iff (0 ≤ instruction.raw ∧ instruction.raw < 2 ^ (8 * encoding.wordSize) ∧
    instruction.widths = widths ∧ ∃ opcode, instruction.opcode = .ok opcode)
    ⟨fun ⟨positive, small, same, known⟩ => ⟨positive, small, same, known⟩,
      fun ⟨positive, small, same, known⟩ => ⟨positive, small, same, known⟩⟩

private theorem two_pow_width (width : Nat) : 2 ^ (8 * width) = 256 ^ width := Nat.pow_mul 2 8 width

private theorem natCast_lt_iff {word width : Nat} :
    (word : Int) < 2 ^ (8 * width) ↔ word < 256 ^ width := by
  have cast : ((2 ^ (8 * width) : Nat) : Int) = 2 ^ (8 * width) := Int.natCast_pow 2 (8 * width)
  rw [← two_pow_width, ← cast, Int.ofNat_lt]

private theorem FitsLocal.image {encoding : Encoding} {entry : Local}
    (fits : encoding.FitsLocal entry) :
    (LocalImage.ofEntry entry).Fits encoding :=
  ⟨Spelling.fits_ofText_iff.mpr (two_pow_width _ ▸ fits.name), fits.start, fits.finish⟩

/-- The word of an instruction that fits, with the widths of its chunk, is the instruction again. -/
theorem FitsInstruction.of_word {encoding : Encoding} {widths : FieldWidths}
    {instruction : Instruction} (fits : encoding.FitsInstruction widths instruction) :
    (⟨instruction.raw.toNat, widths⟩ : Instruction) = instruction := by
  rw [Int.toNat_of_nonneg fits.positive, ← fits.widths]

private theorem FitsInstruction.fitsWord {encoding : Encoding} {widths : FieldWidths}
    {instruction : Instruction} (fits : encoding.FitsInstruction widths instruction) :
    Image.FitsWord encoding widths instruction.raw.toNat := by
  refine ⟨natCast_lt_iff.mp ?_, fits.of_word ▸ fits.opcode⟩
  rw [Int.toNat_of_nonneg fits.positive]
  exact fits.small

end Encoding

namespace Prototype

/-- The fields of a prototype have room, and its code ends as code has to end. -/
structure Fits (encoding : Encoding) (widths : FieldWidths) (prototype : Prototype) : Prop where
  source : encoding.FitsText prototype.source
  line : FitsInt encoding.intSize prototype.line
  paramCount : FitsInt encoding.intSize prototype.paramCount
  maxStack : FitsInt encoding.intSize prototype.maxStack
  locals : Image.FitsList encoding encoding.FitsLocal prototype.locals
  lines : Image.FitsList encoding (FitsInt encoding.intSize) prototype.lines
  strings : Image.FitsList encoding encoding.FitsText prototype.strings
  numbers : FitsInt encoding.intSize prototype.numbers.length
  functions : FitsInt encoding.intSize prototype.functions.length
  code : Image.FitsList encoding (encoding.FitsInstruction widths) prototype.code
  ends : ∃ last, prototype.code.getLast? = some last ∧ last.opcode = .ok .endCode

instance {encoding : Encoding} {widths : FieldWidths} : DecidablePred (Fits encoding widths) :=
  fun prototype => decidable_of_iff
    (encoding.FitsText prototype.source ∧
      (FitsInt encoding.intSize prototype.line ∧ FitsInt encoding.intSize prototype.paramCount ∧
        FitsInt encoding.intSize prototype.maxStack) ∧
      Image.FitsList encoding encoding.FitsLocal prototype.locals ∧
      Image.FitsList encoding (FitsInt encoding.intSize) prototype.lines ∧
      Image.FitsList encoding encoding.FitsText prototype.strings ∧
      (FitsInt encoding.intSize prototype.numbers.length ∧
        FitsInt encoding.intSize prototype.functions.length) ∧
      Image.FitsList encoding (encoding.FitsInstruction widths) prototype.code ∧
      ∃ last ∈ prototype.code.getLast?, last.opcode = .ok .endCode)
    ⟨fun ⟨source, ⟨line, paramCount, maxStack⟩, locals, lines, strings, ⟨numbers, functions⟩, code,
        ends⟩ =>
      ⟨source, line, paramCount, maxStack, locals, lines, strings, numbers, functions, code, ends⟩,
      fun fits => ⟨fits.source, ⟨fits.line, fits.paramCount, fits.maxStack⟩, fits.locals, fits.lines,
        fits.strings, ⟨fits.numbers, fits.functions⟩, fits.code, fits.ends⟩⟩

private theorem rereadAll_eq_map (encoding : Encoding) (prototypes : List Prototype) :
    rereadAll encoding prototypes = prototypes.map (reread encoding) :=
  Nested.eq_map (by rw [rereadAll]) (fun _ _ => by rw [rereadAll]) prototypes

variable {encoding : Encoding} {widths : FieldWidths}

/-- The image of a prototype shows it as it is read back. -/
theorem prototype_image {prototype : Prototype}
    (fits : ∀ part ∈ prototype.all, part.Fits encoding widths) :
    (prototype.image encoding).prototype encoding widths = prototype.reread encoding := by
  induction prototype using induct with
  | step prototype ih =>
    obtain ⟨own, inside⟩ := forall_mem_all_iff.mp fits
    obtain ⟨source, line, paramCount, isVararg, maxStack, locals, lines, strings, numbers, functions,
      code⟩ := prototype
    have functionsShown : functions.map (fun inner =>
        (inner.image encoding).prototype encoding widths) = functions.map (reread encoding) :=
      List.map_congr_left fun inner member => ih inner member (inside inner member)
    have codeShown : code.map (fun instruction : Instruction =>
        (⟨instruction.raw.toNat, widths⟩ : Instruction)) = code.map id :=
      List.map_congr_left fun instruction member => (own.code.2 instruction member).of_word
    have flagShown : decide ((if isVararg then 1 else 0 : UInt8) = 1) = isVararg := by
      cases isVararg <;> rfl
    simp only [image, Image.prototype, reread, images_eq_map, Image.prototypes_eq_map,
      rereadAll_eq_map, List.map_map, Function.comp_def, functionsShown, codeShown, flagShown,
      LocalImage.entry_ofEntry, Spelling.text_ofText, Encoding.ofPattern_patternOf, List.map_id]

/-- A prototype that fits is written as an image that fits. -/
theorem fitsAll_image {prototype : Prototype}
    (fits : ∀ part ∈ prototype.all, part.Fits encoding widths) :
    (prototype.image encoding).FitsAll encoding widths := by
  induction prototype using induct with
  | step prototype ih =>
    obtain ⟨own, inside⟩ := forall_mem_all_iff.mp fits
    obtain ⟨source, line, paramCount, isVararg, maxStack, locals, lines, strings, numbers, functions,
      code⟩ := prototype
    rw [image, images_eq_map]
    refine Image.fitsAll_iff.mpr ⟨?_, List.forall_mem_map.mpr fun inner member =>
      ih inner member (inside inner member)⟩
    obtain ⟨last, final, ends⟩ := own.ends
    have fitsLast := own.code.2 last (List.mem_of_getLast? final)
    exact {
      source := Spelling.fits_ofText_iff.mpr (Encoding.two_pow_width _ ▸ own.source)
      line := own.line
      paramCount := own.paramCount
      maxStack := own.maxStack
      locals := own.locals.map fun entry fits => fits.image
      lines := own.lines
      strings := own.strings.map fun text fits =>
        Spelling.fits_ofText_iff.mpr (Encoding.two_pow_width _ ▸ fits)
      numbers := ⟨by simpa using own.numbers, List.forall_mem_map.mpr fun number _ =>
        encoding.patternOf_lt number⟩
      functions := by simpa using own.functions
      words := own.code.map fun instruction fits => fits.fitsWord
      ends := ⟨last.raw.toNat, by rw [List.getLast?_map, final]; rfl,
        by rw [fitsLast.of_word]; exact ends⟩ }

/-- Texts and numbers that can be read at all: each text from some bytes, each number from as many
bytes as numbers have. -/
structure Readable (encoding : Encoding) (prototype : Prototype) : Prop where
  source : ∃ bytes, Text.decode bytes = prototype.source
  locals : ∀ entry ∈ prototype.locals, ∃ bytes, Text.decode bytes = entry.name
  strings : ∀ text ∈ prototype.strings, ∃ bytes, Text.decode bytes = text
  numbers : ∀ number ∈ prototype.numbers, ∃ bytes, bytes.length = encoding.number.size ∧
    encoding.number.decode encoding.order bytes = number

/-- What has been read is read back as it is. -/
theorem reread_of_readable {prototype : Prototype}
    (readable : ∀ part ∈ prototype.all, part.Readable encoding) :
    prototype.reread encoding = prototype := by
  have textKept (text : Text) : (∃ bytes, Text.decode bytes = text) → text.reread = text := by
    rintro ⟨bytes, rfl⟩
    rw [Text.reread, Text.encode_decode]
  have numberKept (number : Double) : (∃ bytes, bytes.length = encoding.number.size ∧
      encoding.number.decode encoding.order bytes = number) → encoding.reread number = number := by
    rintro ⟨bytes, size, rfl⟩
    have fits := encoding.order.natOf_lt bytes
    rw [size] at fits
    rw [NumberFormat.decode_eq, ← Encoding.ofPattern_patternOf, Encoding.patternOf_ofPattern _ fits]
  induction prototype using induct with
  | step prototype ih =>
    obtain ⟨own, inside⟩ := forall_mem_all_iff.mp readable
    obtain ⟨source, line, paramCount, isVararg, maxStack, locals, lines, strings, numbers, functions,
      code⟩ := prototype
    have localsKept : locals.map (fun entry => { entry with name := entry.name.reread }) =
        locals.map id := List.map_congr_left fun entry member => by
      rw [textKept _ (own.locals entry member)]
      rfl
    have stringsKept : strings.map Text.reread = strings.map id :=
      List.map_congr_left fun text member => textKept text (own.strings text member)
    have numbersKept : numbers.map encoding.reread = numbers.map id :=
      List.map_congr_left fun number member => numberKept number (own.numbers number member)
    have functionsKept : functions.map (reread encoding) = functions.map id :=
      List.map_congr_left fun inner member => ih inner member (inside inner member)
    rw [reread, rereadAll_eq_map, textKept _ own.source, localsKept, stringsKept, numbersKept,
      functionsKept]
    simp only [List.map_id]

end Prototype

namespace Image

/-- Every flag is zero or one, and no text is a zero byte alone. -/
structure Plain (image : Image) : Prop where
  source : image.source.Plain
  flag : image.flag = 0 ∨ image.flag = 1
  locals : ∀ entry ∈ image.locals, entry.name.Plain
  strings : ∀ text ∈ image.strings, text.Plain

variable {encoding : Encoding} {widths : FieldWidths}

theorem plain_image (prototype : Prototype) :
    ∀ part ∈ (prototype.image encoding).all, part.Plain := by
  induction prototype using Prototype.induct with
  | step prototype ih =>
    obtain ⟨source, line, paramCount, isVararg, maxStack, locals, lines, strings, numbers, functions,
      code⟩ := prototype
    rw [Prototype.image, Prototype.images_eq_map]
    refine forall_mem_all_iff.mpr ⟨?_, List.forall_mem_map.mpr ih⟩
    exact {
      source := Spelling.plain_ofText source
      flag := by
        cases isVararg with
        | false => exact .inl rfl
        | true => exact .inr rfl
      locals := List.forall_mem_map.mpr fun entry _ => Spelling.plain_ofText entry.name
      strings := List.forall_mem_map.mpr fun text _ => Spelling.plain_ofText text }

/-- A plain image is the one that its prototype is written as. -/
theorem image_prototype {image : Image} (fits : image.FitsAll encoding widths)
    (plain : ∀ part ∈ image.all, part.Plain) :
    (image.prototype encoding widths).image encoding = image := by
  induction image using induct with
  | step image ih =>
    obtain ⟨own, inside⟩ := fitsAll_iff.mp fits
    obtain ⟨ownPlain, insidePlain⟩ := forall_mem_all_iff.mp plain
    obtain ⟨source, line, paramCount, flag, maxStack, locals, lines, strings, numbers, functions,
      words⟩ := image
    have localsKept : locals.map (fun entry => LocalImage.ofEntry entry.entry) = locals.map id :=
      List.map_congr_left fun entry member => LocalImage.ofEntry_entry (ownPlain.locals entry member)
    have stringsKept : strings.map (fun text => Spelling.ofText text.text) = strings.map id :=
      List.map_congr_left fun text member => Spelling.ofText_text (ownPlain.strings text member)
    have numbersKept : numbers.map (fun pattern =>
        encoding.patternOf (encoding.number.ofPattern pattern)) = numbers.map id :=
      List.map_congr_left fun pattern member =>
        encoding.patternOf_ofPattern (own.numbers.2 pattern member)
    have functionsKept : functions.map (fun inner =>
        (inner.prototype encoding widths).image encoding) = functions.map id :=
      List.map_congr_left fun inner member =>
        ih inner member (inside inner member) (insidePlain inner member)
    have flagKept : (if flag = 1 then 1 else 0 : UInt8) = flag := by
      rcases ownPlain.flag with rfl | rfl <;> rfl
    simp only [prototype, Prototype.image, prototypes_eq_map, Prototype.images_eq_map, List.map_map,
      Function.comp_def, Spelling.ofText_text ownPlain.source, localsKept, stringsKept, numbersKept,
      functionsKept, decide_eq_true_eq, flagKept, Int.toNat_natCast, List.map_id, List.map_id']

theorem fitsInstruction_of_fitsWord {word : Nat} (fits : FitsWord encoding widths word) :
    encoding.FitsInstruction widths ⟨word, widths⟩ where
  positive := Int.natCast_nonneg word
  small := Encoding.natCast_lt_iff.mpr fits.1
  widths := rfl
  opcode := fits.2

/-- The code of every prototype that an image shows fits the layout and ends the function. -/
theorem code_of_fitsAll {image : Image} (fits : image.FitsAll encoding widths) :
    ∀ part ∈ (image.prototype encoding widths).all,
      (∃ last, part.code.getLast? = some last ∧ last.opcode = .ok .endCode) ∧
        ∀ instruction ∈ part.code, encoding.FitsInstruction widths instruction := by
  induction image using induct with
  | step image ih =>
    obtain ⟨own, inside⟩ := fitsAll_iff.mp fits
    obtain ⟨last, final, ends⟩ := own.ends
    obtain ⟨source, line, paramCount, flag, maxStack, locals, lines, strings, numbers, functions,
      words⟩ := image
    rw [prototype, prototypes_eq_map]
    refine Prototype.forall_mem_all_iff.mpr ⟨⟨⟨⟨last, widths⟩, ?_, ends⟩, ?_⟩, ?_⟩
    · rw [List.getLast?_map, final]
      rfl
    · exact List.forall_mem_map.mpr fun word member =>
        fitsInstruction_of_fitsWord (own.words.2 word member)
    · exact List.forall_mem_map.mpr fun inner member => ih inner member (inside inner member)

end Image

end LuaLift
