import LuaLift.Proofs.Outcome
import LuaLift.Prototype.Read

/-! Exact reading. A reader is exact for a grammar if it succeeds just where the bytes begin with a
word of the grammar, gives the value of that word, and stops behind it; and if it finds the chunk
malformed where the bytes end within a word. Exact readers compose as their grammars do. -/
namespace LuaLift

/-- A place inside a chunk, with the bytes from there to its end. -/
def Cursor.before (offset : Nat) (rest : List UInt8) : Cursor :=
  ⟨offset + rest.length, offset, rest, by omega⟩

theorem Cursor.start_append (front rest : List UInt8) :
    Cursor.start (front ++ rest) front.length = .before front.length rest := by
  simp [Cursor.start, Cursor.before]

theorem Cursor.start_eq_before {bytes : List UInt8} {offset : Nat}
    (inside : offset ≤ bytes.length) : start bytes offset = .before offset (bytes.drop offset) := by
  have whole : offset + (bytes.drop offset).length = bytes.length := by
    rw [List.length_drop]
    omega
  simp only [start, before, whole]

theorem Cursor.take?_before (offset : Nat) (bytes : List UInt8) (count : Nat) :
    (Cursor.before offset bytes).take? count =
      if count ≤ bytes.length then
        some (bytes.take count, .before (offset + count) (bytes.drop count))
      else none := by
  simp only [take?, before, Nat.add_le_add_iff_left]
  split
  · simp only [List.length_drop, Option.some.injEq, Prod.mk.injEq, true_and, mk.injEq, and_true]
    omega
  · rfl

/-- Reading without a journal; a fault ends it. -/
abbrev Reading := StateT Cursor (Except Fault)

namespace Read

/-- What a read comes to, apart from the place where a fault stops it. -/
def reading (read : Read α) : Reading α := fun cursor =>
  match read.run cursor with
  | (.ok value, next) => .ok (value, next)
  | (.error fault, _) => .error fault

theorem reading_pure (value : α) : Read.reading (pure value) = pure value := rfl

theorem reading_bind (first : Read α) (next : α → Read β) :
    Read.reading (first >>= next) = first.reading >>= fun value => (next value).reading := by
  funext cursor
  change reading (first >>= next) cursor =
    (first.reading cursor >>= fun pair => (next pair.1).reading pair.2)
  have shape : (first >>= next).run cursor =
      ExceptT.bindCont next (first.run cursor).1 (first.run cursor).2 := rfl
  simp only [reading, shape]
  rcases first.run cursor with ⟨fault | value, behind⟩ <;> rfl

end Read

namespace Parse

/-- What reading comes to, apart from its journal. -/
def reading (parse : Parse α) : Reading α := fun cursor => (parse.run cursor).outcome

theorem reading_pure (value : α) : Parse.reading (pure value) = pure value := rfl

theorem reading_bind (first : Parse α) (next : α → Parse β) :
    Parse.reading (first >>= next) = first.reading >>= fun value => (next value).reading := by
  funext cursor
  exact Traced.outcome_bind _ _

theorem reading_read (read : Read α) : Parse.reading (liftM read) = read.reading := by
  funext cursor
  change (ofRead read cursor).outcome = read.reading cursor
  simp only [ofRead, Read.reading]
  rcases read.run cursor with ⟨fault | value, behind⟩ <;> rfl

theorem reading_outcome (outcome : Except Fault α) :
    Parse.reading (liftM (liftM outcome : Traced α)) = liftM outcome := by
  funext cursor
  cases outcome <;> rfl

theorem reading_note (event : Event) :
    Parse.reading (liftM (Traced.note event)) = pure PUnit.unit := rfl

theorem reading_throw (fault : Fault) :
    Parse.reading (throw fault : Parse α) = throw fault := rfl

end Parse

/-- The place of the cursor. -/
def Reading.offset : Reading Nat := fun cursor => .ok (cursor.offset, cursor)

theorem Read.reading_offset : Read.offset.reading = Reading.offset := rfl

theorem Parse.reading_offset : Parse.offset.reading = Reading.offset := rfl

/-- Words and what each of them stands for. -/
abbrev Grammar (α : Type) := List UInt8 → α → Prop

namespace Grammar

/-- No bytes at all, for one value. -/
def nothing (value : α) : Grammar α := fun word result => word = [] ∧ value = result

/-- One word behind another, whose value decides what may follow. -/
def followed (first : Grammar α) (next : α → Grammar β) : Grammar β := fun word result =>
  ∃ value front back, word = front ++ back ∧ first front value ∧ next value back result

/-- The words of some items, each with what the item stands for. -/
def spelled (fits : ι → Prop) (bytes : ι → List UInt8) (value : ι → α) : Grammar α :=
  fun word result => ∃ item, fits item ∧ bytes item = word ∧ value item = result

theorem spelled_followed {fits : ι → Prop} {bytes : ι → List UInt8} {value : ι → α}
    {next : α → Grammar β} {word : List UInt8} {result : β} :
    followed (spelled fits bytes value) next word result ↔
      ∃ item back, fits item ∧ bytes item ++ back = word ∧ next (value item) back result := by
  constructor
  · rintro ⟨_, _, back, rfl, ⟨item, fits, rfl, rfl⟩, rest⟩
    exact ⟨item, back, fits, rfl, rest⟩
  · rintro ⟨item, back, fits, rfl, rest⟩
    exact ⟨value item, bytes item, back, rfl, ⟨item, fits, rfl, rfl⟩, rest⟩

end Grammar

/-- Up to a number of bytes, a reader takes the words of a grammar and nothing else, whatever comes
behind them, and is not content with a part of a word. -/
structure Exact (limit : Nat) (reading : Reading α) (grammar : Grammar α) : Prop where
  complete {word : List UInt8} {value : α} (offset : Nat) (rest : List UInt8) :
    (word ++ rest).length ≤ limit → grammar word value →
      reading (.before offset (word ++ rest)) = .ok (value, .before (offset + word.length) rest)
  sound {bytes : List UInt8} {value : α} {offset : Nat} {next : Cursor} :
    bytes.length ≤ limit → reading (.before offset bytes) = .ok (value, next) →
      ∃ word rest, bytes = word ++ rest ∧ grammar word value ∧
        next = .before (offset + word.length) rest
  cut {bytes lost : List UInt8} {value : α} (offset : Nat) :
    bytes.length ≤ limit → grammar (bytes ++ lost) value → lost ≠ [] →
      ∃ problem index place, reading (.before offset bytes) = .error (.malformed problem index place)

namespace Exact

variable {limit : Nat} {reading first : Reading α} {next : α → Reading β}
  {grammar front : Grammar α} {back : α → Grammar β}

theorem mono {less : Nat} (exact : Exact limit reading grammar) (fewer : less ≤ limit) :
    Exact less reading grammar where
  complete offset rest small word := exact.complete offset rest (Nat.le_trans small fewer) word
  sound small read := exact.sound (Nat.le_trans small fewer) read
  cut offset small word more := exact.cut offset (Nat.le_trans small fewer) word more

theorem congr {other : Grammar α} (exact : Exact limit reading grammar)
    (same : ∀ word value, grammar word value ↔ other word value) : Exact limit reading other where
  complete offset rest small word := exact.complete offset rest small ((same _ _).mpr word)
  sound small read := by
    obtain ⟨word, rest, split, among, place⟩ := exact.sound small read
    exact ⟨word, rest, split, (same _ _).mp among, place⟩
  cut offset small word more := exact.cut offset small ((same _ _).mpr word) more

theorem pure (value : α) : Exact limit (pure value) (.nothing value) where
  complete := by
    rintro word result offset rest _ ⟨rfl, rfl⟩
    rfl
  sound := by
    intro bytes result offset next _ read
    obtain ⟨rfl, rfl⟩ := Prod.mk.inj (Except.ok.inj read)
    exact ⟨[], bytes, rfl, ⟨rfl, rfl⟩, rfl⟩
  cut := by
    rintro bytes lost result offset _ ⟨none, _⟩ more
    exact absurd (List.append_eq_nil_iff.mp none).2 more

/-- A reader that always stops at a fault takes no words. -/
theorem throw (fault : Fault) : Exact limit (throw fault : Reading α) fun _ _ => False where
  complete _ _ _ word := word.elim
  sound _ read := nomatch read
  cut _ _ word := word.elim

/-- What is known without reading takes no bytes. -/
theorem outcome (outcome : Except Fault α) :
    Exact limit (liftM outcome : Reading α) fun word value => word = [] ∧ outcome = .ok value := by
  cases outcome with
  | ok value => exact (pure value).congr fun _ _ => by simp [Grammar.nothing]
  | error fault => exact (throw fault).congr fun _ _ => by simp

/-- Two ways to read on, of which a condition chooses one. -/
theorem choice (condition : Prop) [Decidable condition] {other : Reading α} {words : Grammar α}
    (holds : Exact limit reading grammar) (fails : Exact limit other words) :
    Exact limit (if condition then reading else other)
      fun word result => (condition ∧ grammar word result) ∨ (¬ condition ∧ words word result) := by
  by_cases condition
  · rename_i true
    rw [if_pos true]
    exact holds.congr fun _ _ => by simp [true]
  · rename_i false
    rw [if_neg false]
    exact fails.congr fun _ _ => by simp [false]

/-- Nothing is read behind a fault. -/
theorem throw_bind (fault : Fault) (next : β → Reading α) :
    Exact limit (MonadExcept.throw fault >>= next) fun _ _ => False := throw fault

theorem offset {next : Nat → Reading α} (exact : ∀ place, Exact limit (next place) grammar) :
    Exact limit (Reading.offset >>= next) grammar where
  complete place rest small word := (exact place).complete place rest small word
  sound small read := (exact _).sound small read
  cut place small word more := (exact place).cut place small word more

/-- Where one of two pieces ends, it ends within the other or the other ends within it. -/
theorem ends_of_append {bytes lost opening closing : List UInt8}
    (split : bytes ++ lost = opening ++ closing) :
    (∃ present, bytes = opening ++ present ∧ closing = present ++ lost) ∨
      ∃ missing, opening = bytes ++ missing ∧ missing ≠ [] := by
  rcases List.append_eq_append_iff.mp split with ⟨missing, same, rest⟩ | ⟨present, same, rest⟩
  · cases missing with
    | nil => exact .inl ⟨[], by simpa using same.symm, by simpa using rest.symm⟩
    | cons byte missing => exact .inr ⟨byte :: missing, same, by simp⟩
  · exact .inl ⟨present, same, rest⟩

/-- What follows a word is read from the bytes that are left. -/
theorem bind (exact : Exact limit first front)
    (follows : ∀ {value word}, front word value → word.length ≤ limit →
      Exact (limit - word.length) (next value) (back value)) :
    Exact limit (first >>= next) (front.followed back) where
  complete := by
    rintro word result offset rest small ⟨value, opening, closing, rfl, head, tail⟩
    simp only [List.length_append] at small
    have start := exact.complete offset (closing ++ rest)
      (by simp only [List.length_append]; omega) head
    have finish := (follows head (by omega)).complete (offset + opening.length) rest
      (by rw [List.length_append]; omega) tail
    change (first _ >>= fun pair => next pair.1 pair.2) = _
    rw [List.append_assoc, start]
    change next value _ = _
    rw [finish, List.length_append, Nat.add_assoc]
  sound := by
    intro bytes result offset stop small read
    change (first _ >>= fun pair => next pair.1 pair.2) = _ at read
    obtain ⟨⟨value, middle⟩, start, finish⟩ := bind_eq_ok.mp read
    obtain ⟨opening, rest, rfl, head, rfl⟩ := exact.sound small start
    rw [List.length_append] at small
    obtain ⟨closing, behind, rfl, tail, rfl⟩ :=
      (follows head (by omega)).sound (by omega) finish
    refine ⟨opening ++ closing, behind, by rw [List.append_assoc],
      ⟨value, opening, closing, rfl, head, tail⟩, ?_⟩
    rw [List.length_append, Nat.add_assoc]
  cut := by
    rintro bytes lost result offset small ⟨value, opening, closing, split, head, tail⟩ more
    change ∃ problem index place, (first _ >>= fun pair => next pair.1 pair.2) = _
    rcases ends_of_append split with ⟨present, rfl, rfl⟩ | ⟨missing, rfl, some⟩
    · have start := exact.complete offset present small head
      rw [List.length_append] at small
      obtain ⟨problem, index, place, fails⟩ :=
        (follows head (by omega)).cut (offset + opening.length) (by omega) tail more
      refine ⟨problem, index, place, ?_⟩
      rw [start]
      exact fails
    · obtain ⟨problem, index, place, fails⟩ := exact.cut offset small head some
      refine ⟨problem, index, place, ?_⟩
      rw [fails]
      rfl

/-- What follows may be read from any bytes at all. -/
theorem bind_of_exact (exact : Exact limit first front)
    (follows : ∀ value, Exact limit (next value) (back value)) :
    Exact limit (first >>= next) (front.followed back) :=
  exact.bind fun _ _ => (follows _).mono (Nat.sub_le _ _)

/-- A value made of the one that was read. -/
theorem map (exact : Exact limit first front) (view : α → β) :
    Exact limit (first >>= fun value => Pure.pure (view value))
      fun word result => ∃ value, front word value ∧ view value = result := by
  refine (exact.bind_of_exact fun value => .pure (view value)).congr fun word result => ?_
  constructor
  · rintro ⟨value, opening, _, rfl, head, rfl, rfl⟩
    exact ⟨value, by rwa [List.append_nil], rfl⟩
  · rintro ⟨value, head, rfl⟩
    exact ⟨value, word, [], (List.append_nil word).symm, head, rfl, rfl⟩

/-- Where there are no items nothing is read. -/
theorem no_items (fits : ι → Prop) (bytes : ι → List UInt8) (value : ι → α) :
    Exact limit (Pure.pure []) (.spelled
      (fun items : List ι => items.length = 0 ∧ ∀ item ∈ items, fits item)
      (fun items => items.flatMap bytes) (fun items => items.map value)) := by
  refine (pure []).congr fun word result => ?_
  constructor
  · rintro ⟨rfl, rfl⟩
    exact ⟨[], ⟨rfl, nofun⟩, rfl, rfl⟩
  · rintro ⟨items, ⟨none, _⟩, rfl, rfl⟩
    obtain rfl := List.length_eq_zero_iff.mp none
    exact ⟨rfl, rfl⟩

/-- The same reading a number of times in a row. -/
theorem times {parse : Parse α} {fits : ι → Prop} {bytes : ι → List UInt8} {value : ι → α}
    (exact : Exact limit parse.reading (.spelled fits bytes value)) (count : Nat) :
    Exact limit (parse.times count).reading (.spelled
      (fun items : List ι => items.length = count ∧ ∀ item ∈ items, fits item)
      (fun items => items.flatMap bytes) (fun items => items.map value)) := by
  induction count with
  | zero => exact no_items fits bytes value
  | succ count ih =>
    simp only [Parse.times, Parse.reading_bind, Parse.reading_pure]
    refine (exact.bind_of_exact fun first => ih.map (first :: ·)).congr fun word result => ?_
    rw [Grammar.spelled_followed]
    constructor
    · rintro ⟨item, _, fits, rfl, _, ⟨items, ⟨rfl, all⟩, rfl, rfl⟩, rfl⟩
      exact ⟨item :: items, ⟨rfl, List.forall_mem_cons.mpr ⟨fits, all⟩⟩, rfl, rfl⟩
    · rintro ⟨items, ⟨size, all⟩, rfl, rfl⟩
      obtain ⟨item, items, rfl⟩ := List.exists_cons_of_length_eq_add_one size
      obtain ⟨fits, all⟩ := List.forall_mem_cons.mp all
      exact ⟨item, _, fits, rfl, _, ⟨items, ⟨Nat.succ.inj size, all⟩, rfl, rfl⟩, rfl⟩

end Exact

end LuaLift
