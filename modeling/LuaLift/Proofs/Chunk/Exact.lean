import LuaLift.Proofs.Chunk.Image

/-! Prototypes are read exactly: the reader takes the bytes of an image and gives the prototype that
the image shows, however deep prototypes lie inside each other. -/
namespace LuaLift.Prototype

variable {limit : Nat} (encoding : Encoding) (widths : FieldWidths)

private theorem exact_list {parse : Parse α} {fits : ι → Prop} {bytes : ι → List UInt8}
    {value : ι → α} (exact : Exact limit parse.reading (.spelled fits bytes value)) (what : Text) :
    Exact limit (parseList encoding what parse).reading
      (.spelled (Image.FitsList encoding fits) (encoding.listBytes bytes) (·.map value)) := by
  simp only [parseList, Parse.reading_bind, Parse.reading_read]
  refine ((Read.exact_count encoding what).bind_of_exact fun count =>
    exact.times count).congr fun word result => ?_
  rw [Grammar.spelled_followed]
  constructor
  · rintro ⟨_, _, fits, rfl, items, ⟨rfl, all⟩, rfl, rfl⟩
    exact ⟨items, ⟨fits, all⟩, rfl, rfl⟩
  · rintro ⟨items, ⟨fits, all⟩, rfl, rfl⟩
    exact ⟨items.length, _, fits, rfl, items, ⟨rfl, all⟩, rfl, rfl⟩

private theorem exact_local :
    Exact limit (parseLocal encoding).reading
      (.spelled (LocalImage.Fits encoding) (LocalImage.bytes encoding) LocalImage.entry) := by
  simp only [parseLocal, Parse.reading_bind, Parse.reading_read, Parse.reading_pure]
  refine ((Read.exact_text encoding).bind_of_exact fun name =>
    (Read.exact_int encoding).bind_of_exact fun start =>
    (Read.exact_int encoding).map (Local.mk name start)).congr fun word result => ?_
  simp only [Grammar.spelled_followed]
  constructor
  · rintro ⟨name, _, nameFits, rfl, start, _, startFits, rfl, _, ⟨finish, finishFits, rfl, rfl⟩, rfl⟩
    exact ⟨⟨name, start, finish⟩, ⟨nameFits, startFits, finishFits⟩, List.append_assoc _ _ _, rfl⟩
  · rintro ⟨⟨name, start, finish⟩, ⟨nameFits, startFits, finishFits⟩, rfl, rfl⟩
    exact ⟨name, _, nameFits, (List.append_assoc _ _ _).symm, start, _, startFits, rfl, finish,
      ⟨finish, finishFits, rfl, rfl⟩, rfl⟩

/-- A word is known where its lowest bits are the number of an opcode. -/
theorem opcode_known_iff {instruction : Instruction} :
    (∃ opcode, instruction.opcode = .ok opcode) ↔
      ∃ number, instruction.opcodeField = .ok number ∧ ¬ (Opcode.ofNumber? number).isNone := by
  simp only [Instruction.opcode, bind_eq_ok]
  constructor
  · rintro ⟨opcode, number, field, found⟩
    refine ⟨number, field, fun none => ?_⟩
    rw [Option.isNone_iff_eq_none.mp none] at found
    cases found
  · rintro ⟨number, field, known⟩
    rw [Option.isNone_iff_eq_none] at known
    obtain ⟨opcode, found⟩ := Option.ne_none_iff_exists'.mp known
    exact ⟨opcode, number, field, by rw [found]; rfl⟩

theorem exact_instructions (index count : Nat) :
    Exact limit (parseInstructions encoding widths index count).reading (.spelled
      (fun words : List Nat => words.length = count ∧
        ∀ word ∈ words, Image.FitsWord encoding widths word)
      (fun words => words.flatMap (encoding.order.bytesOfNat encoding.wordSize))
      (fun words => words.map fun word : Nat => ⟨word, widths⟩)) := by
  induction count generalizing index with
  | zero => exact .no_items _ _ _
  | succ count ih =>
    simp only [parseInstructions, Parse.reading_bind, Parse.reading_read, Parse.reading_outcome,
      apply_ite Parse.reading, Parse.reading_throw, Parse.reading_pure]
    refine (Exact.offset fun place => (Read.exact_word encoding).bind_of_exact fun raw =>
      (Exact.outcome (Instruction.mk raw widths).opcodeField).bind_of_exact fun number =>
      Exact.choice ((Opcode.ofNumber? number).isNone) (Exact.throw_bind _ _)
        ((ih (index + 1)).map (Instruction.mk raw widths :: ·))).congr fun word result => ?_
    rw [Grammar.spelled_followed]
    constructor
    · rintro ⟨raw, _, fits, rfl, number, _, _, rfl, ⟨rfl, field⟩,
        ⟨_, ⟨⟩⟩ | ⟨known, _, ⟨words, ⟨rfl, all⟩, rfl, rfl⟩, rfl⟩⟩
      have opcode := opcode_known_iff.mpr ⟨number, field, known⟩
      exact ⟨raw :: words, ⟨rfl, List.forall_mem_cons.mpr ⟨⟨fits, opcode⟩, all⟩⟩, rfl, rfl⟩
    · rintro ⟨words, ⟨size, all⟩, rfl, rfl⟩
      obtain ⟨raw, words, rfl⟩ := List.exists_cons_of_length_eq_add_one size
      obtain ⟨⟨fits, opcode⟩, all⟩ := List.forall_mem_cons.mp all
      obtain ⟨number, field, known⟩ := opcode_known_iff.mp opcode
      exact ⟨raw, _, fits, rfl, number, [], _, rfl, ⟨rfl, field⟩,
        .inr ⟨known, _, ⟨words, ⟨by simpa using size, all⟩, rfl, rfl⟩, rfl⟩⟩

/-- Code is taken only where its last instruction ends the function. -/
theorem exact_end (start : Nat) (code : List Instruction) :
    Exact limit (match code.getLast? with
      | none => Parse.failAt .noInstructions none start
      | some last => do
        if (← (liftM last.opcode : Traced Opcode)) = .endCode then pure code
        else
          let shown ← (liftM last.text : Traced Text)
          Parse.failAt (.missingEnd shown) (some (code.length - 1))
            ((← Parse.offset) - encoding.wordSize) : Parse (List Instruction)).reading
      fun word result => word = [] ∧ code = result ∧
        ∃ last, code.getLast? = some last ∧ last.opcode = .ok .endCode := by
  cases code.getLast? with
  | none => exact (Exact.throw _).congr fun _ _ => by simp
  | some last =>
    simp only [Parse.reading_bind, Parse.reading_outcome, apply_ite Parse.reading,
      Parse.reading_pure, Parse.reading_offset]
    refine ((Exact.outcome last.opcode).bind_of_exact fun opcode =>
      Exact.choice (opcode = .endCode) (Exact.pure code)
        ((Exact.outcome last.text).bind_of_exact fun shown =>
          Exact.offset fun _ => Exact.throw _)).congr fun word result => ?_
    constructor
    · rintro ⟨_, _, _, rfl, ⟨rfl, known⟩, ⟨rfl, rfl, rfl⟩ | ⟨_, _, _, _, _, _, ⟨⟩⟩⟩
      exact ⟨rfl, rfl, last, rfl, known⟩
    · rintro ⟨rfl, rfl, _, same, known⟩
      obtain rfl := Option.some.inj same
      exact ⟨.endCode, [], [], rfl, ⟨rfl, known⟩, .inl ⟨rfl, rfl, rfl⟩⟩

theorem exact_code :
    Exact limit (parseCode encoding widths).reading (.spelled
      (fun words => Image.FitsList encoding (Image.FitsWord encoding widths) words ∧
        ∃ last : Nat, words.getLast? = some last ∧
          (⟨last, widths⟩ : Instruction).opcode = .ok .endCode)
      (encoding.listBytes (encoding.order.bytesOfNat encoding.wordSize))
      (fun words => words.map fun word : Nat => ⟨word, widths⟩)) := by
  simp only [parseCode, Parse.reading_bind, Parse.reading_read]
  refine (Exact.offset fun start => (Read.exact_count encoding _).bind_of_exact fun count =>
    (exact_instructions encoding widths 0 count).bind_of_exact
      (exact_end encoding start)).congr fun word result => ?_
  simp only [Grammar.spelled_followed]
  constructor
  · rintro ⟨_, _, fits, rfl, words, _, ⟨rfl, all⟩, rfl, rfl, rfl, last, found, ends⟩
    rw [List.getLast?_map] at found
    obtain ⟨raw, final, rfl⟩ := Option.map_eq_some_iff.mp found
    exact ⟨words, ⟨⟨fits, all⟩, raw, final, ends⟩, by rw [List.append_nil]; rfl, rfl⟩
  · rintro ⟨words, ⟨⟨fits, all⟩, raw, found, ends⟩, rfl, rfl⟩
    refine ⟨words.length, _, fits, rfl, words, [], ⟨rfl, all⟩, List.append_nil _, rfl, rfl, _, ?_,
      ends⟩
    rw [List.getLast?_map, found]
    rfl

/-- One prototype, where those inside it are read exactly from fewer bytes. -/
theorem exact_with {inner : Parse Prototype}
    (exact : ∀ less, less < limit → Exact less inner.reading (.spelled
      (Image.FitsAll encoding widths) (Image.bytes encoding) (Image.prototype encoding widths))) :
    Exact limit (parseWith encoding widths inner).reading (.spelled
      (Image.FitsAll encoding widths) (Image.bytes encoding) (Image.prototype encoding widths)) := by
  have ints {less : Nat} : Exact less (Parse.reading (liftM (Read.int encoding)))
      (.spelled (FitsInt encoding.intSize) encoding.intBytes id) := by
    rw [Parse.reading_read]
    exact Read.exact_int encoding
  have texts {less : Nat} : Exact less (Parse.reading (liftM (Read.text encoding)))
      (.spelled (Spelling.Fits encoding) (Spelling.bytes encoding) Spelling.text) := by
    rw [Parse.reading_read]
    exact Read.exact_text encoding
  have numbers {less : Nat} : Exact less (Parse.reading (liftM (Read.number encoding)))
      (.spelled (· < 256 ^ encoding.number.size)
        (encoding.order.bytesOfNat encoding.number.size) encoding.number.ofPattern) := by
    rw [Parse.reading_read]
    exact Read.exact_number encoding
  simp only [parseWith, Parse.reading_bind, Parse.reading_read, Parse.reading_offset,
    Parse.reading_note, Parse.reading_pure, pure_bind]
  refine (Exact.offset fun _ =>
    (Read.exact_text encoding).bind_of_exact fun source =>
    (Read.exact_int encoding).bind_of_exact fun line =>
    (Read.exact_int encoding).bind_of_exact fun paramCount =>
    Read.exact_byte.bind fun {flag word} taken small =>
    (Read.exact_int encoding).bind_of_exact fun maxStack =>
    (exact_list encoding (exact_local encoding) _).bind_of_exact fun locals =>
    (exact_list encoding ints _).bind_of_exact fun lines =>
    (exact_list encoding texts _).bind_of_exact fun strings =>
    (exact_list encoding numbers _).bind_of_exact fun numbers =>
    (exact_list encoding (exact (limit - word.length) ?fewer) _).bind_of_exact fun functions =>
    (exact_code encoding widths).map fun code =>
      (⟨source, line, paramCount, flag = 1, maxStack, locals, lines, strings, numbers, functions,
        code⟩ : Prototype)).congr fun word result => ?_
  case fewer =>
    obtain ⟨byte, _, rfl, _⟩ := taken
    simp only [List.length_singleton] at small ⊢
    omega
  simp only [Grammar.spelled_followed]
  constructor
  · rintro ⟨source, _, sourceFits, rfl, line, _, lineFits, rfl, paramCount, _, paramFits, rfl,
      flag, _, _, rfl, maxStack, _, stackFits, rfl, locals, _, localsFit, rfl, lines, _, linesFit, rfl,
      strings, _, stringsFit, rfl, numbers, _, numbersFit, rfl,
      functions, _, ⟨functionsFit, inside⟩, rfl, _, ⟨words, ⟨wordsFit, ends⟩, rfl, rfl⟩, rfl⟩
    refine ⟨⟨source, line, paramCount, flag, maxStack, locals, lines, strings, numbers, functions,
      words⟩, Image.fitsAll_iff.mpr ⟨⟨sourceFits, lineFits, paramFits, stackFits, localsFit, linesFit,
        stringsFit, numbersFit, functionsFit, wordsFit, ends⟩, inside⟩, ?_, ?_⟩
    · simp only [Image.bytes, Image.bytesAll_eq_flatMap, Encoding.listBytes, List.append_assoc]
    · simp only [Image.prototype, Image.prototypes_eq_map, List.map_id]
      rfl
  · rintro ⟨⟨source, line, paramCount, flag, maxStack, locals, lines, strings, numbers, functions,
      words⟩, fits, rfl, rfl⟩
    obtain ⟨own, inside⟩ := Image.fitsAll_iff.mp fits
    simp only [Image.bytes, Image.bytesAll_eq_flatMap, List.append_assoc, Image.prototype,
      Image.prototypes_eq_map]
    refine ⟨source, _, own.source, rfl, line, _, own.line, rfl, paramCount, _, own.paramCount, rfl,
      flag, _, trivial, rfl, maxStack, _, own.maxStack, rfl, locals, _, own.locals, rfl,
      lines, _, own.lines, rfl, strings, _, own.strings, rfl, numbers, _, own.numbers, rfl,
      functions, _, ⟨own.functions, inside⟩, ?_, _, ⟨words, ⟨own.words, own.ends⟩, rfl, rfl⟩, ?_⟩
    · simp only [Encoding.listBytes, List.append_assoc]
    · rw [List.map_id]
      rfl

/-- Each prototype takes a byte before those inside it, so depth is no limit to so many bytes. -/
theorem exact_to {depth : Nat} (deep : limit ≤ depth) :
    Exact limit (parseTo encoding widths depth).reading (.spelled
      (Image.FitsAll encoding widths) (Image.bytes encoding) (Image.prototype encoding widths)) := by
  induction depth generalizing limit with
  | zero =>
    obtain rfl := Nat.le_zero.mp deep
    exact exact_with encoding widths fun less fewer => absurd fewer (Nat.not_lt_zero less)
  | succ depth ih =>
    exact exact_with encoding widths fun less fewer => ih (by omega)

private theorem reading_parse (offset : Nat) (bytes : List UInt8) :
    (parse encoding widths).reading (.before offset bytes) =
      (parseTo encoding widths bytes.length).reading (.before offset bytes) := rfl

theorem exact_parse :
    Exact limit (parse encoding widths).reading (.spelled
      (Image.FitsAll encoding widths) (Image.bytes encoding) (Image.prototype encoding widths)) where
  complete := by
    intro word value offset rest _ image
    rw [reading_parse]
    exact (exact_to encoding widths (Nat.le_refl _)).complete offset rest (Nat.le_refl _) image
  sound := by
    intro bytes value offset next _ read
    rw [reading_parse] at read
    exact (exact_to encoding widths (Nat.le_refl _)).sound (Nat.le_refl _) read
  cut := by
    intro bytes lost value offset _ image more
    rw [reading_parse]
    exact (exact_to encoding widths (Nat.le_refl _)).cut offset (Nat.le_refl _) image more

end LuaLift.Prototype
