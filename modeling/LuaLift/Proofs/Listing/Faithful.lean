import LuaLift.Proofs.Listing.Sections

/-! What a listing says of the code. A line is cut into its columns at the marks that cannot stand
in them, and a listing into its sections at the empty lines, so listings that are the same come from
the same words on the same lines. -/
namespace LuaLift

open Text

/-! ### Parts in a row -/

/-- Parts that end with a mark are told apart in a row. -/
theorem forall₂_of_flatMap {mark : γ} {first : α → List γ} {second : β → List γ} {items : List α}
    {others : List β} (own : ∀ item ∈ items, mark ∉ first item)
    (also : ∀ other ∈ others, mark ∉ second other)
    (same : (items.flatMap fun item => first item ++ [mark]) =
      others.flatMap fun other => second other ++ [mark]) :
    List.Forall₂ (fun item other => first item = second other) items others := by
  induction items generalizing others with
  | nil =>
    cases others with
    | nil => exact .nil
    | cons other more => simp at same
  | cons item rest ih =>
    cases others with
    | nil => simp at same
    | cons other more =>
      obtain ⟨here, rest⟩ := List.forall_mem_cons.mp own
      obtain ⟨there, more⟩ := List.forall_mem_cons.mp also
      simp only [List.flatMap_cons, List.append_assoc, List.singleton_append] at same
      obtain ⟨equal, behind⟩ := cut_inj here there same
      exact .cons equal (ih rest more behind)

namespace Text

/-- Blanks up to a width do not hide a text without blanks. -/
theorem padLeft_inj {width other : Nat} {left right : Text} (own : space ∉ left)
    (also : space ∉ right) (same : padLeft width left = padLeft other right) : left = right := by
  have shed {width : Nat} {text : Text} (solid : space ∉ text) :
      (padLeft width text).filter (· ≠ space) = text := by
    have kept : text.filter (· ≠ space) = text := by
      rw [List.filter_eq_self]
      intro symbol member
      exact decide_eq_true fun same => solid (same ▸ member)
    rw [padLeft, List.filter_append, kept, List.filter_replicate]
    rfl
  rw [← shed own, same, shed also]

/-- White space is only dropped behind the last symbol that is none. -/
theorem trimEnd_append {symbol : Symbol} (solid : symbol.isBlank = false) (front rest : Text) :
    trimEnd (front ++ symbol :: rest) = front ++ symbol :: trimEnd rest := by
  induction front with
  | nil =>
    rw [List.nil_append, List.nil_append, trimEnd]
    split
    · rename_i empty
      rw [solid, empty]
      rfl
    · rfl
  | cons first more ih =>
    rw [List.cons_append, trimEnd, ih]
    split
    · rename_i empty
      exact absurd empty (by simp)
    · rfl

end Text

/-! ### The columns of a line -/

private theorem Opcode.mnemonic_starts (opcode : Opcode) :
    ∃ first rest, Text.ofString opcode.mnemonic = first :: rest ∧ first.isBlank = false := by
  cases opcode <;> exact ⟨_, _, rfl, rfl⟩

namespace Listing

variable {prototype other : Prototype} {instruction another : Instruction} {index : Nat}
  {row : Text}

/-- The position, the source line and the word stand in front, whatever comes behind them. -/
theorem exists_columns (shown : instructionLine prototype index instruction = .ok row) :
    ∃ rest, row = padLeft 6 (decimal index) ++ " [" ++
      (padLeft 4 (decimal (prototype.lineAt index)) ++ .char ']' :: (space ::
        (paddedHex (wordDigits instruction.widths) instruction.raw ++ space :: rest))) := by
  simp only [instructionLine, bind_eq_ok, pure_eq_ok] at shown
  obtain ⟨opcode, _, operands, _, comment, _, rfl⟩ := shown
  obtain ⟨first, rest, starts, solid⟩ := opcode.mnemonic_starts
  -- Trimming stops at the mnemonic at the latest, so the columns before it are not touched.
  let columns := padLeft 6 (decimal index) ++ " [" ++
    padLeft 4 (decimal (prototype.lineAt index)) ++ "] " ++
    paddedHex (wordDigits instruction.widths) instruction.raw
  have noted : ∃ more, (if comment.isEmpty then
        columns ++ "    " ++ padRight 12 opcode.mnemonic ++ " " ++ operands
      else padRight 56 (columns ++ "    " ++ padRight 12 opcode.mnemonic ++ " " ++ operands) ++
        " ; " ++ comment) = (columns ++ "    ") ++ first :: more := by
    rw [padRight, padRight, starts]
    split
    all_goals
      apply Exists.intro
      simp only [List.append_assoc, List.cons_append]
      rfl
  obtain ⟨more, whole⟩ := noted
  refine ⟨[space, space, space] ++ first :: trimEnd more, ?_⟩
  rw [whole, trimEnd_append solid]
  simp only [columns, List.append_assoc]
  rfl

/-- Two lines at the same position are the same only for the same word on the same source line. -/
theorem instructionLine_inj (shown : instructionLine prototype index instruction = .ok row)
    (also : instructionLine other index another = .ok row) :
    instruction.raw = another.raw ∧ prototype.lineAt index = other.lineAt index := by
  obtain ⟨rest, columns⟩ := exists_columns shown
  obtain ⟨ends, same⟩ := exists_columns also
  rw [columns] at same
  have bracket (value : Int) : Symbol.char ']' ∉ padLeft 4 (decimal value) := by
    rw [padLeft, List.mem_append, not_or]
    exact ⟨fun member => absurd (List.eq_of_mem_replicate member) (by decide),
      not_mem_decimal (by decide) (by decide) value⟩
  have solid (value : Int) : space ∉ decimal value := not_mem_decimal (by decide) (by decide) value
  have word (width : Nat) (value : Int) : space ∉ paddedHex width value :=
    not_mem_paddedHex (by decide) (by decide) width value
  obtain ⟨line, behind⟩ := cut_inj (bracket _) (bracket _) (List.append_cancel_left same)
  obtain ⟨raw, _⟩ := cut_inj (word _ _) (word _ _) (List.tail_eq_of_cons_eq behind)
  exact ⟨paddedHex_inj raw, decimal_inj (padLeft_inj (solid _) (solid _) line)⟩

/-- Whether the line is a note about a prototype. -/
def isNote (line : Text) : Bool := line.head? = some (.char ';')

private theorem isNote_of_instructionLine
    (shown : instructionLine prototype index instruction = .ok row) :
    isNote row = false ∧ row ≠ [] := by
  obtain ⟨rest, rfl⟩ := exists_columns shown
  have absent : Symbol.char ';' ∉ padLeft 6 (decimal index) ++ " [" := by
    rw [padLeft, List.append_assoc, List.mem_append, List.mem_append, not_or, not_or]
    exact ⟨fun member => absurd (List.eq_of_mem_replicate member) (by decide),
      not_mem_decimal (by decide) (by decide) index, by decide⟩
  cases front : padLeft 6 (decimal index) ++ " [" with
  | nil => exact absurd (List.append_eq_nil_iff.mp front).2 (by decide)
  | cons first more =>
    rw [front] at absent
    refine ⟨?_, List.cons_ne_nil _ _⟩
    rw [isNote, decide_eq_false_iff_not]
    intro same
    exact absent ((Option.some.inj same) ▸ List.mem_cons_self)

/-! ### The lines of a section -/

/-- The lines of a section without a limit, up to the empty one. -/
def sectionBody (place : List Nat) (prototype : Prototype) : List Text :=
  ("; " ++ labelOf place ++ ": " ++ prototype.summary) ::
    prototype.locals.zipIdx.map (fun (entry, slot) => localLine slot entry) ++ rows prototype

private theorem sectionLines_none (place : List Nat) (prototype : Prototype) :
    sectionLines none place prototype = sectionBody place prototype ++ [[]] := by
  have whole : (rows prototype).take prototype.code.length = rows prototype :=
    List.take_of_length_le (Nat.le_of_eq (length_rows prototype))
  simp [sectionLines, sectionBody, shownCount, isCut, whole]

/-- The row of an instruction among the rows of its prototype. -/
theorem exists_row (sound : ∀ instruction ∈ prototype.code, instruction.Sound)
    (found : prototype.code[index]? = some instruction) :
    ∃ row, (rows prototype)[index]? = some row ∧
      instructionLine prototype index instruction = .ok row := by
  obtain ⟨row, shown⟩ :=
    exists_instructionLine prototype (sound _ (List.mem_of_getElem? found)) index
  refine ⟨row, ?_, shown⟩
  simp [rows, found, shown, Except.toOption]

private theorem isNote_of_mem_rows (sound : ∀ instruction ∈ prototype.code, instruction.Sound) :
    ∀ row ∈ rows prototype, isNote row = false ∧ row ≠ [] := by
  intro row member
  obtain ⟨index, here⟩ := List.mem_iff_getElem?.mp member
  have inside : index < prototype.code.length :=
    length_rows prototype ▸ (List.getElem?_eq_some_iff.mp here).1
  obtain ⟨other, there, shown⟩ := exists_row sound (List.getElem?_eq_getElem inside)
  obtain rfl := Option.some.inj (here.symm.trans there)
  exact isNote_of_instructionLine shown

/-- The lines in front of the rows are notes. -/
theorem sectionBody_eq (place : List Nat) (prototype : Prototype) :
    ∃ notes, sectionBody place prototype = notes ++ rows prototype ∧
      ∀ line ∈ notes, isNote line = true := by
  refine ⟨_, rfl, List.forall_mem_cons.mpr ⟨rfl, ?_⟩⟩
  intro line member
  obtain ⟨item, _, rfl⟩ := List.mem_map.mp member
  rfl

private theorem filter_sectionBody (sound : ∀ instruction ∈ prototype.code, instruction.Sound)
    (place : List Nat) :
    (sectionBody place prototype).filter (fun line => !isNote line) = rows prototype := by
  obtain ⟨notes, whole, all⟩ := sectionBody_eq place prototype
  have none : notes.filter (fun line => !isNote line) = [] := by
    rw [List.filter_eq_nil_iff]
    intro line member
    simp [all line member]
  have kept : (rows prototype).filter (fun line => !isNote line) = rows prototype := by
    rw [List.filter_eq_self]
    intro line member
    simp [(isNote_of_mem_rows sound line member).1]
  rw [whole, List.filter_append, none, kept, List.nil_append]

private theorem nil_not_mem_sectionBody (sound : ∀ instruction ∈ prototype.code, instruction.Sound)
    (place : List Nat) : [] ∉ sectionBody place prototype := by
  obtain ⟨notes, whole, all⟩ := sectionBody_eq place prototype
  rw [whole, List.mem_append, not_or]
  exact ⟨fun member => absurd (all [] member) (by decide),
    fun member => (isNote_of_mem_rows sound [] member).2 rfl⟩

private theorem sameCode_of_rows_eq (sound : ∀ instruction ∈ prototype.code, instruction.Sound)
    (also : ∀ instruction ∈ other.code, instruction.Sound) (same : rows prototype = rows other) :
    prototype.code.map Instruction.raw = other.code.map Instruction.raw ∧
      ∀ index < prototype.code.length, prototype.lineAt index = other.lineAt index := by
  have size : prototype.code.length = other.code.length := by
    rw [← length_rows, same, length_rows]
  have each : ∀ index (inside : index < prototype.code.length),
      (prototype.code[index]).raw = (other.code[index]).raw ∧
        prototype.lineAt index = other.lineAt index := by
    intro index inside
    obtain ⟨row, here, shown⟩ := exists_row sound (List.getElem?_eq_getElem inside)
    obtain ⟨another, there, shows⟩ := exists_row also (List.getElem?_eq_getElem (size ▸ inside))
    rw [same, there] at here
    obtain rfl := Option.some.inj here
    exact instructionLine_inj shown shows
  refine ⟨List.ext_getElem (by simpa using size) ?_, fun index inside => (each index inside).2⟩
  intro index inside _
  rw [List.length_map] at inside
  simpa using (each index inside).1

end Listing

namespace Chunk

open Listing

variable {bytes others : List UInt8} {left right : Chunk}

/-- Listings that are the same come from the same code. Two chunks that were loaded, with names on
one line, have the same listing only if prototype by prototype they have the same words, each of
them on the same source line. -/
theorem code_of_listing (read : (ofBytes bytes).outcome = .ok left)
    (reads : (ofBytes others).outcome = .ok right)
    (unbroken : ∀ part ∈ left.main.all ++ right.main.all, part.Unbroken)
    (same : left.listing none = right.listing none) :
    List.Forall₂ (fun part other =>
        part.code.map Instruction.raw = other.code.map Instruction.raw ∧
          ∀ index < part.code.length, part.lineAt index = other.lineAt index)
      left.main.all right.main.all := by
  obtain ⟨own, also⟩ := List.forall_mem_append.mp unbroken
  have listable := listable_of_ofBytes read
  have listables := listable_of_ofBytes reads
  rw [listing_eq listable, listing_eq listables] at same
  have whole := congrArg lines (Except.ok.inj same)
  rw [lines_listing listable own, lines_listing listables also] at whole
  have sections := (List.cons.inj (List.cons.inj (List.append_cancel_right whole)).2).2
  simp only [sectionLines_none] at sections
  have sound {chunk : Chunk} (listable : Listable chunk.main) :
      ∀ item ∈ chunk.main.placed [], ∀ instruction ∈ item.2.code, instruction.Sound :=
    fun item member => (listable item.2 (Prototype.snd_mem_all member)).2
  have bodies := forall₂_of_flatMap
    (fun item member => nil_not_mem_sectionBody (sound listable item member) item.1)
    (fun item member => nil_not_mem_sectionBody (sound listables item member) item.1) sections
  rw [← Prototype.map_snd_placed [] left.main, ← Prototype.map_snd_placed [] right.main,
    List.forall₂_map_left_iff, List.forall₂_map_right_iff]
  refine (forall₂_mem bodies).imp fun item other part => ?_
  obtain ⟨here, there, body⟩ := part
  have rows := congrArg (List.filter fun line => !isNote line) body
  rw [filter_sectionBody (sound listable item here),
    filter_sectionBody (sound listables other there)] at rows
  exact sameCode_of_rows_eq (sound listable item here) (sound listables other there) rows

/-- Another number, which no instruction names. -/
def recounted : Prototype := { nested with numbers := [.ofSingleBits 0x40000000] }

private theorem recounted_fits :
    ∀ part ∈ recounted.all, part.Fits compactEncoding compact.widths := by
  decide

/-- A listing does not show everything of a chunk, but all of its code. -/
theorem code_of_listing_of_recounted :
    let left : Chunk := ⟨compact, nested.reread compactEncoding⟩
    let right : Chunk := ⟨compact, recounted.reread compactEncoding⟩
    left.main.numbers ≠ right.main.numbers ∧ left.listing none = right.listing none ∧
      List.Forall₂ (fun part other =>
          part.code.map Instruction.raw = other.code.map Instruction.raw ∧
            ∀ index < part.code.length, part.lineAt index = other.lineAt index)
        left.main.all right.main.all := by
  intro left right
  have read := ofBytes_of_stands nested_stands
  have reads := ofBytes_of_stands (stands_image compact_readable recounted_fits)
  have lines : left.listingLines none = right.listingLines none := by decide +kernel
  have same : left.listing none = right.listing none := by
    rw [listing_eq (listable_of_ofBytes read), listing_eq (listable_of_ofBytes reads), lines]
  exact ⟨by decide, same, code_of_listing read reads (by decide) same⟩

end Chunk

end LuaLift
