import LuaLift.Proofs.Agree
import LuaLift.Proofs.Chunk.Faults
import LuaLift.Proofs.Layout.Blanks
import LuaLift.Proofs.Listing
import LuaLift.Proofs.Prototype.Places

/-! The lines of a listing, a section for each prototype. A limit leaves out instructions at the end
of a section, and the lines before them stay as they are. -/
namespace LuaLift

open Text

/-- A limit leaves some instructions of a chunk, as the code of its functions is never empty. -/
theorem Chunk.code_ne_nil_of_ofBytes {bytes : List UInt8} {chunk : Chunk}
    (read : (ofBytes bytes).outcome = .ok chunk) : ∀ part ∈ chunk.main.all, part.code ≠ [] := by
  obtain ⟨encoding, image, stands, rfl⟩ := exists_stands_of_ofBytes read
  rw [← stands.main]
  intro part member empty
  obtain ⟨last, final, _⟩ := (Image.code_of_fitsAll stands.fits part member).1
  rw [empty] at final
  cases final

namespace Listing

/-- The label of the prototype at a place. -/
def labelOf (place : List Nat) : Text :=
  place.foldl (fun (label : Text) (position : Nat) => label ++ "." ++ decimal position) "main"

/-- The lines of all instructions of a prototype. -/
def rows (prototype : Prototype) : List Text :=
  prototype.code.zipIdx.map fun item => (instructionLine prototype item.2 item.1).toOption.getD []

/-- How many of so many instructions a limit leaves. -/
def shownCount (limit : Option Int) (size : Nat) : Nat :=
  match limit with
  | none => size
  | some most => (max 0 (min most size)).toNat

/-- Whether a limit leaves out some of so many instructions. -/
def isCut (limit : Option Int) (size : Nat) : Bool := limit.any fun most => most < (size : Int)

/-- The title of a section, the locals, the instructions within the limit, a mark where there are
more, and an empty line. -/
def sectionLines (limit : Option Int) (place : List Nat) (prototype : Prototype) : List Text :=
  ("; " ++ labelOf place ++ ": " ++ prototype.summary) ::
    prototype.locals.zipIdx.map (fun (entry, slot) => localLine slot entry) ++
    ((rows prototype).take (shownCount limit prototype.code.length) ++
      if isCut limit prototype.code.length then [Text.ofString "; ... truncated ..."] else []) ++
    [[]]

variable {names : Symbol → Prop} {prototype : Prototype} {instruction : Instruction}
  {limit : Option Int}

private theorem labelOf_append (place : List Nat) (position : Nat) :
    labelOf (place ++ [position]) = labelOf place ++ "." ++ decimal position := by
  rw [labelOf, List.foldl_append]
  rfl

theorem exists_instructionLine (prototype : Prototype) (sound : instruction.Sound) (index : Nat) :
    ∃ line, instructionLine prototype index instruction = .ok line := by
  have free : prototype.Legible fun _ => True :=
    ⟨fun _ _ => .inr trivial, fun _ _ _ _ => .inr trivial⟩
  obtain ⟨line, shown, _⟩ := legible_instructionLine free sound index
  exact ⟨line, shown⟩

/-- Every row is the line of its instruction. -/
theorem forall₂_rows (sound : ∀ instruction ∈ prototype.code, instruction.Sound) :
    List.Forall₂ (fun item row => instructionLine prototype item.2 item.1 = .ok row)
      prototype.code.zipIdx (rows prototype) := by
  rw [rows, List.forall₂_map_right_iff, List.forall₂_same]
  intro item member
  obtain ⟨line, shown⟩ :=
    exists_instructionLine prototype (sound item.1 (List.fst_mem_of_mem_zipIdx member)) item.2
  rw [shown]
  rfl

theorem length_rows (prototype : Prototype) : (rows prototype).length = prototype.code.length := by
  rw [rows, List.length_map, List.length_zipIdx]

private theorem zipIdx_take (items : List α) (count : Nat) :
    (items.take count).zipIdx = items.zipIdx.take count := by
  apply List.ext_getElem?
  intro index
  simp only [List.getElem?_zipIdx, List.getElem?_take]
  split <;> rfl

private theorem take_rows (limit : Option Int) (prototype : Prototype) :
    (rows prototype).take ((limit.map Int.toNat).getD prototype.code.length) =
      (rows prototype).take (shownCount limit prototype.code.length) := by
  rw [List.take_eq_take_iff, length_rows]
  cases limit with
  | none => rfl
  | some most =>
    simp only [Option.map_some, Option.getD_some, shownCount]
    omega

/-- As there is some code, also a limit below zero leaves some of it out. -/
theorem isEmpty_drop_code (limit : Option Int) (filled : prototype.code ≠ []) :
    (prototype.code.drop ((limit.map Int.toNat).getD prototype.code.length)).isEmpty =
      !isCut limit prototype.code.length := by
  have some := List.length_pos_iff.mpr filled
  cases limit with
  | none => simp [isCut]
  | some most =>
    rw [Bool.eq_iff_iff]
    simp only [Option.map_some, Option.getD_some, List.isEmpty_iff, List.drop_eq_nil_iff, isCut,
      Option.any_some, Bool.not_eq_true', decide_eq_false_iff_not]
    omega

private theorem codeLines_eq (limit : Option Int) (filled : prototype.code ≠ [])
    (sound : ∀ instruction ∈ prototype.code, instruction.Sound) :
    codeLines limit prototype =
      .ok ((rows prototype).take (shownCount limit prototype.code.length) ++
        if isCut limit prototype.code.length then
          [Text.ofString "; ... truncated ..."] else []) := by
  have lines := List.forall₂_take ((limit.map Int.toNat).getD prototype.code.length)
    (forall₂_rows sound)
  rw [← zipIdx_take, ← mapM_eq_ok] at lines
  rw [codeLines]
  simp only [lines, take_rows, isEmpty_drop_code limit filled]
  cases isCut limit prototype.code.length <;> rfl

private theorem legible_labelOf (place : List Nat) : (labelOf place).Legible names := by
  induction place using List.reverseRecOn with
  | nil => exact legible_of_ascii (by decide)
  | append_singleton outer position ih =>
    have point : Legible names "." := legible_of_ascii (by decide)
    rw [labelOf_append]
    simp [ih, point]

private theorem legible_rows (legible : prototype.Legible names)
    (sound : ∀ instruction ∈ prototype.code, instruction.Sound) :
    ∀ row ∈ rows prototype, row.Legible names := by
  intro row member
  obtain ⟨item, among, rfl⟩ := List.mem_map.mp member
  obtain ⟨line, shown, fine⟩ :=
    legible_instructionLine legible (sound item.1 (List.fst_mem_of_mem_zipIdx among)) item.2
  rw [shown]
  exact fine

private theorem legible_sectionLines (limit : Option Int) (place : List Nat)
    (legible : prototype.Legible names)
    (sound : ∀ instruction ∈ prototype.code, instruction.Sound) :
    ∀ line ∈ sectionLines limit place prototype, line.Legible names := by
  have title : Legible names ("; " ++ labelOf place ++ ": " ++ prototype.summary) := by
    simp only [legible_append, legible_labelOf, legible.summary, and_true]
    and_intros <;> exact legible_of_ascii (by decide)
  have locals : ∀ line ∈ prototype.locals.zipIdx.map fun item => localLine item.2 item.1,
      Legible names line := by
    intro line member
    obtain ⟨item, among, rfl⟩ := List.mem_map.mp member
    exact legible_localLine item.2 (legible.locals item.1 (List.fst_mem_of_mem_zipIdx among))
  have code : ∀ line ∈ (rows prototype).take (shownCount limit prototype.code.length),
      Legible names line :=
    fun line member => legible_rows legible sound line (List.mem_of_mem_take member)
  have mark : ∀ line ∈ if isCut limit prototype.code.length then
      [Text.ofString "; ... truncated ..."] else [], Legible names line := by
    split
    · exact List.forall_mem_singleton.mpr (legible_of_ascii (by decide))
    · exact List.forall_mem_nil _
  have front := List.forall_mem_append.mpr ⟨List.forall_mem_cons.mpr ⟨title, locals⟩,
    List.forall_mem_append.mpr ⟨code, mark⟩⟩
  exact List.forall_mem_append.mpr ⟨front, List.forall_mem_singleton.mpr legible_nil⟩

private theorem titled_eq (limit : Option Int) (place : List Nat) (filled : prototype.code ≠ [])
    (sound : ∀ instruction ∈ prototype.code, instruction.Sound) :
    titled limit (labelOf place) prototype = .ok (sectionLines limit place prototype) := by
  rw [titled, codeLines_eq limit filled sound]
  rfl

/-- The code of the prototype and of all inside it can be listed. -/
def Listable (prototype : Prototype) : Prop :=
  ∀ part ∈ prototype.all, part.code ≠ [] ∧ ∀ instruction ∈ part.code, instruction.Sound

private theorem sectionsOf_eq {prototypes : List Prototype} {place : List Nat}
    (each : ∀ inner ∈ prototypes, ∀ place, sections limit (labelOf place) inner =
      .ok ((inner.placed place).flatMap fun item => sectionLines limit item.1 item.2))
    (position : Nat) :
    sectionsOf limit (labelOf place) position prototypes =
      .ok ((Prototype.placedFrom place position prototypes).flatMap fun item =>
        sectionLines limit item.1 item.2) := by
  induction prototypes generalizing position with
  | nil =>
    rw [sectionsOf, Prototype.placedFrom]
    rfl
  | cons first rest ih =>
    obtain ⟨own, others⟩ := List.forall_mem_cons.mp each
    rw [sectionsOf, ← labelOf_append, own, ih others, Prototype.placedFrom, List.flatMap_append]
    rfl

private theorem sections_eq (listable : Listable prototype) (place : List Nat) :
    sections limit (labelOf place) prototype =
      .ok ((prototype.placed place).flatMap fun item => sectionLines limit item.1 item.2) := by
  induction prototype using Prototype.induct generalizing place with
  | step prototype ih =>
    obtain ⟨⟨filled, sound⟩, inside⟩ := Prototype.forall_mem_all_iff.mp listable
    have inner : sectionsOf limit (labelOf place) 0 prototype.functions = _ :=
      sectionsOf_eq (fun inner member place => ih inner member (inside inner member) place) 0
    have own := titled_eq limit place filled sound
    rw [Prototype.placed_eq, List.flatMap_cons]
    cases prototype
    rw [sections, own, inner]
    rfl

end Listing

namespace Chunk

open Listing

variable {names : Symbol → Prop} {bytes : List UInt8} {chunk : Chunk}

/-- The lines of a listing: what the preamble says, an empty line, and the sections. -/
def listingLines (chunk : Chunk) (limit : Option Int) : List Text :=
  ("; " ++ chunk.preamble.summary) :: [] ::
    (chunk.main.placed []).flatMap fun (place, part) => sectionLines limit place part

theorem listing_eq (listable : Listable chunk.main) (limit : Option Int) :
    chunk.listing limit = .ok (unlines (chunk.listingLines limit ++ [[]])) := by
  have all : sections limit "main" chunk.main = _ := sections_eq listable []
  have present : chunk.listingLines limit ≠ [] := List.cons_ne_nil _ _
  rw [listing, all, unlines_append present]
  rfl

private theorem legible_listingLines (listable : Listable chunk.main)
    (legible : ∀ part ∈ chunk.main.all, part.Legible names) (limit : Option Int) :
    ∀ line ∈ chunk.listingLines limit ++ [[]], line.Legible names := by
  have head : Legible names ("; " ++ chunk.preamble.summary) :=
    legible_append.mpr ⟨legible_of_ascii (by decide), chunk.preamble.legible_summary⟩
  have sections : ∀ line ∈ (chunk.main.placed []).flatMap fun item =>
      sectionLines limit item.1 item.2, line.Legible names := by
    intro line member
    obtain ⟨item, among, inside⟩ := List.mem_flatMap.mp member
    have part := Prototype.snd_mem_all among
    exact legible_sectionLines limit item.1 (legible _ part) (listable _ part).2 line inside
  have front := List.forall_mem_cons.mpr ⟨head, List.forall_mem_cons.mpr ⟨legible_nil, sections⟩⟩
  exact List.forall_mem_append.mpr ⟨front, List.forall_mem_singleton.mpr legible_nil⟩

/-- There is a listing without stray bytes, however many instructions it is limited to. -/
theorem plain_listing (limit : Option Int) (listable : Listable chunk.main)
    (plain : ∀ part ∈ chunk.main.all, part.Plain) : Yields Text.Plain (chunk.listing limit) := by
  rw [listing_eq listable limit]
  have lines := legible_listingLines listable (fun part member => (plain part member).legible) limit
  exact .ok (plain_join (by decide) fun line member => (lines line member).plain)

theorem lines_listing (listable : Listable chunk.main)
    (unbroken : ∀ part ∈ chunk.main.all, part.Unbroken) (limit : Option Int) :
    lines (unlines (chunk.listingLines limit ++ [[]])) = chunk.listingLines limit ++ [[]] := by
  have legible := legible_listingLines listable
    (fun part member => (unbroken part member).legible) limit
  exact lines_unlines (List.append_ne_nil_of_right_ne_nil _ (List.cons_ne_nil _ _))
    fun line member => (legible line member).unbroken

theorem listable_of_ofBytes (read : (ofBytes bytes).outcome = .ok chunk) : Listable chunk.main :=
  fun part member => ⟨code_ne_nil_of_ofBytes read part member, sound_of_chunk read part member⟩

/-- A chunk that was loaded is listed under any limit, a section for each prototype in their order.
Where names are on one line the lines of the listing are those of the sections, whatever the
constants are, and the line of an instruction does not depend on the limit. -/
theorem listing_by_sections (read : (ofBytes bytes).outcome = .ok chunk)
    (unbroken : ∀ part ∈ chunk.main.all, part.Unbroken) :
    (chunk.main.placed []).map Prod.snd = chunk.main.all ∧
    (∀ place part, (place, part) ∈ chunk.main.placed [] ↔ chunk.main.at? place = some part) ∧
    (∀ part ∈ chunk.main.all,
      List.Forall₂
        (fun (instruction, index) row => instructionLine part index instruction = .ok row)
        part.code.zipIdx (rows part)) ∧
    ∀ limit, ∃ text, chunk.listing limit = .ok text ∧ text.lines =
      ("; " ++ chunk.preamble.summary) :: [] ::
        (chunk.main.placed []).flatMap (fun (place, part) => sectionLines limit place part) ++
        [[]] := by
  have listable := listable_of_ofBytes read
  refine ⟨Prototype.map_snd_placed [] chunk.main, fun place part => ?_, fun part member => ?_,
    fun limit => ⟨_, listing_eq listable limit, ?_⟩⟩
  · simp [Prototype.mem_placed_iff]
  · exact forall₂_rows (listable part member).2
  · exact lines_listing listable unbroken limit

/-- A constant with a line feed in it, named by the first of two instructions. -/
def divided : Prototype := { nested with strings := ["a\nb"] }

private theorem divided_fits : ∀ part ∈ divided.all, part.Fits compactEncoding compact.widths := by
  decide

/-- One instruction of each function, and a mark where there is another one. -/
theorem listing_by_sections_of_divided :
    ∃ chunk text, (ofBytes (standing ⟨compact, divided⟩ compactEncoding
        (divided.image compactEncoding))).outcome = .ok chunk ∧
      chunk.listing (some 1) = .ok text ∧
      text.lines = [
        "; Lua 4.0 big-endian int=2 size_t=4 instruction=4 (32 bits: op=6 b=9 a=17) number=4", "",
        "; main: function <=é:0> params=-1+ stack=0 locals=1 strings=1 numbers=1 " ++
          "functions=1 instructions=2",
        ";   local 0 x [0, 2)",
        "     0 [ 258] 0000000C    GETGLOBAL    0                 ; 'a\\nb'",
        "; ... truncated ...", "",
        "; main.0: function <?:-3> params=0 stack=0 locals=0 strings=0 numbers=0 " ++
          "functions=0 instructions=1",
        "     0 [  -3] 00000000    END", "", ""].map Text.ofString := by
  have read := ofBytes_of_stands (stands_image compact_readable divided_fits)
  have unbroken : ∀ part ∈ (divided.reread compactEncoding).all, part.Unbroken := by decide
  obtain ⟨_, _, _, limited⟩ := listing_by_sections read unbroken
  obtain ⟨text, shown, whole⟩ := limited (some 1)
  exact ⟨_, text, read, shown, whole.trans (by decide +kernel)⟩

end Chunk

end LuaLift
