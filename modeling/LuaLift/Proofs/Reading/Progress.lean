import LuaLift.Proofs.Reading.Values
import LuaLift.Proofs.Stops
import Mathlib.Data.List.Chain

/-! The cursor over a run of requests that goes on after faults. Every request moves it forward
inside the bytes, also one that fails; a fault names a place that the cursor passed on the way to
it; and a value rests on the bytes that were taken for it, wherever they stand. -/
namespace LuaLift

/-- As many bytes as asked from a place on, or all that are left. -/
def slice (bytes : List UInt8) (place count : Nat) : List UInt8 := (bytes.drop place).take count

namespace Cursor

variable {bytes : List UInt8} {offset : Nat}

private theorem take?_start (count : Nat) :
    (start bytes offset).take? count =
      if offset + count ≤ bytes.length then
        some (slice bytes offset count, start bytes (offset + count))
      else none := by
  simp only [take?, start, slice, List.drop_drop]

end Cursor

/-- The bytes are malformed at a place from a first one to a last one. -/
def Fault.MalformedWithin (first last : Nat) (fault : Fault) : Prop :=
  ∃ problem, ∃ place : Nat,
    fault = .malformed problem none (some place) ∧ first ≤ place ∧ place ≤ last

namespace Read

theorem run_bind (first : Read α) (next : α → Read β) (cursor : Cursor) :
    (first >>= next).run cursor =
      ExceptT.bindCont next (first.run cursor).1 (first.run cursor).2 := rfl

private theorem run_bytes (length : Int) (cursor : Cursor) :
    (Read.bytes length).run cursor =
      if length < 0 then
        (.error (.malformed (.negativeLength length) none (some cursor.offset)), cursor)
      else match cursor.take? length.toNat with
        | some (bytes, next) => (.ok bytes, next)
        | none => (.error (.malformed (.unexpectedEnd length cursor.remaining) none
            (some cursor.offset)), cursor) := by
  have opened : (Read.bytes length).run cursor =
      (if length < 0 then failAt cursor.offset (.negativeLength length)
        else match cursor.take? length.toNat with
          | some (bytes, next) => do
            set next
            pure bytes
          | none => failAt cursor.offset (.unexpectedEnd length cursor.remaining) :
        Read (List UInt8)).run cursor := rfl
  rw [opened]
  split
  · rfl
  · cases cursor.take? length.toNat <;> rfl

/-- Bytes are taken where there are enough of them; else the cursor stays. -/
theorem run_bytes_start (length : Int) (bytes : List UInt8) (offset : Nat) :
    (∃ problem, (Read.bytes length).run (.start bytes offset) =
      (.error (.malformed problem none (some offset)), .start bytes offset)) ∨
    (offset + length.toNat ≤ bytes.length ∧ (Read.bytes length).run (.start bytes offset) =
      (.ok (slice bytes offset length.toNat), .start bytes (offset + length.toNat))) := by
  rw [run_bytes, Cursor.take?_start]
  by_cases negative : length < 0
  · rw [if_pos negative]
    exact .inl ⟨_, rfl⟩
  · rw [if_neg negative]
    by_cases enough : offset + length.toNat ≤ bytes.length
    · rw [if_pos enough]
      exact .inr ⟨enough, rfl⟩
    · rw [if_neg enough]
      exact .inl ⟨_, rfl⟩

/-- Reading from any place of any bytes ends at that place or behind it. If it fails, the bytes are
malformed between the least place and the one where it ends. -/
def Onward (least : Nat) (read : Read α) : Prop :=
  ∀ (bytes : List UInt8) (offset : Nat), least ≤ offset → offset ≤ bytes.length →
    ∃ after answer, read.run (.start bytes offset) = (answer, .start bytes after) ∧
      offset ≤ after ∧ after ≤ bytes.length ∧ Stops (Fault.MalformedWithin least after) answer

namespace Onward

variable {least : Nat} {read : Read α} {next : α → Read β}

theorem pure (value : α) : Onward least (pure value : Read α) := by
  intro bytes offset _ inside
  exact ⟨offset, .ok value, rfl, Nat.le_refl offset, inside, .ok value⟩

private theorem failAt (problem : StructureProblem) :
    Onward least (failAt least problem : Read α) := by
  intro bytes offset reached inside
  refine ⟨offset, _, rfl, Nat.le_refl offset, inside, .error ?_⟩
  exact ⟨problem, least, rfl, Nat.le_refl least, reached⟩

theorem bind (first : Onward least read) (follow : ∀ value, Onward least (next value)) :
    Onward least (read >>= next) := by
  intro bytes offset reached inside
  obtain ⟨middle, answer, start, forward, within, stops⟩ := first bytes offset reached inside
  rw [run_bind, start]
  cases answer with
  | error fault => exact ⟨middle, .error fault, rfl, forward, within, .error (stops fault rfl)⟩
  | ok value =>
    obtain ⟨after, result, finish, further, final, stops⟩ :=
      follow value bytes middle (Nat.le_trans reached forward) within
    exact ⟨after, result, finish, Nat.le_trans forward further, final, stops⟩

/-- A reader that keeps the place where it begins may name that place in a fault. -/
theorem offset {next : Nat → Read α} (follow : ∀ start, least ≤ start → Onward start (next start)) :
    Onward least (Read.offset >>= next) := by
  intro bytes offset reached inside
  obtain ⟨after, answer, run, forward, within, stops⟩ :=
    follow offset reached bytes offset (Nat.le_refl offset) inside
  refine ⟨after, answer, run, forward, within, fun fault failed => ?_⟩
  obtain ⟨problem, place, rfl, low, high⟩ := stops fault failed
  exact ⟨problem, place, rfl, Nat.le_trans reached low, high⟩

private theorem choice {condition : Prop} [Decidable condition] {other : Read α}
    (holds : Onward least read) (fails : Onward least other) :
    Onward least (if condition then read else other) := by
  split
  · exact holds
  · exact fails

private theorem bytes (length : Int) : Onward least (Read.bytes length) := by
  intro bytes offset reached inside
  rcases run_bytes_start length bytes offset with ⟨problem, run⟩ | ⟨enough, run⟩
  · exact ⟨offset, _, run, Nat.le_refl offset, inside,
      .error ⟨problem, offset, rfl, reached, Nat.le_refl offset⟩⟩
  · exact ⟨offset + length.toNat, _, run, Nat.le_add_right _ _, enough, .ok _⟩

/-- A value made of some bytes. -/
theorem ofBytes (length : Int) (view : List UInt8 → α) :
    Onward least (Read.bytes length >>= fun bytes => Pure.pure (view bytes)) :=
  (bytes length).bind fun taken => pure (view taken)

variable (encoding : Encoding)

theorem byte : Onward least Read.byte := ofBytes 1 _

theorem int : Onward least (Read.int encoding) := ofBytes _ _

private theorem size : Onward least (Read.size encoding) := ofBytes _ _

theorem word : Onward least (Read.word encoding) := ofBytes _ _

theorem number : Onward least (Read.number encoding) := ofBytes _ _

theorem count (what : Text) : Onward least (Read.count encoding what) :=
  offset fun _ _ => (int encoding).bind fun value => choice (failAt _) (pure value.toNat)

theorem text : Onward least (Read.text encoding) :=
  offset fun _ _ => (size encoding).bind fun length => choice (pure [])
    ((bytes length).bind fun _ => choice (pure _) (failAt _))

end Onward

private theorem reading_eq_ok_iff {read : Read α} {cursor next : Cursor} {value : α} :
    read.reading cursor = .ok (value, next) ↔ read.run cursor = (.ok value, next) := by
  unfold reading
  rcases read.run cursor with ⟨fault | found, behind⟩
  · constructor <;> intro same <;> cases same
  · constructor <;> intro same <;> cases same <;> rfl

/-- A reader that is exact for words whose own bytes tell their length. -/
def Sized (extent : List UInt8 → Nat) (read : Read α) : Prop :=
  ∃ grammar, (∀ limit, Exact limit read.reading grammar) ∧
    ∀ word value, grammar word value → word.length = extent word

namespace Sized

variable {extent : List UInt8 → Nat} {read : Read α}

theorem map (sized : Sized extent read) (view : α → β) :
    Sized extent (read >>= fun value => pure (view value)) := by
  obtain ⟨grammar, exact, long⟩ := sized
  refine ⟨fun word result => ∃ value, grammar word value ∧ view value = result, fun limit => ?_, ?_⟩
  · rw [reading_bind]
    exact (exact limit).map view
  · rintro word _ ⟨value, among, rfl⟩
    exact long word value among

private theorem spelled {fits : ι → Prop} {bytes : ι → List UInt8} {value : ι → α}
    (exact : ∀ limit, Exact limit read.reading (.spelled fits bytes value))
    (long : ∀ item, fits item → (bytes item).length = extent (bytes item)) : Sized extent read := by
  refine ⟨_, exact, ?_⟩
  rintro _ _ ⟨item, fit, rfl, rfl⟩
  exact long item fit

private theorem bytes (length : Int) : Sized (fun _ => length.toNat) (Read.bytes length) := by
  by_cases negative : length < 0
  · have refused (cursor : Cursor) : (Read.bytes length).reading cursor =
        .error (.malformed (.negativeLength length) none (some cursor.offset)) := by
      unfold reading
      rw [run_bytes, if_pos negative]
    refine ⟨fun _ _ => False, fun limit => ⟨fun _ _ _ word => word.elim, fun _ done => ?_,
      fun _ _ word => word.elim⟩, fun _ _ word => word.elim⟩
    rw [refused] at done
    cases done
  · obtain ⟨count, rfl⟩ := Int.eq_ofNat_of_zero_le (Int.not_lt.mp negative)
    exact ⟨_, fun _ => exact_bytes count, fun _ _ taken => taken.1⟩

private theorem byte : Sized (fun _ => 1) Read.byte :=
  spelled (fun _ => exact_byte) fun _ _ => rfl

variable (encoding : Encoding)

private theorem int : Sized (fun _ => encoding.intSize) (Read.int encoding) :=
  spelled (fun _ => exact_int encoding) fun _ _ => ByteOrder.length_bytesOfNat _ _ _

private theorem size : Sized (fun _ => encoding.sizeSize) (Read.size encoding) :=
  spelled (fun _ => exact_size encoding) fun _ _ => ByteOrder.length_bytesOfNat _ _ _

private theorem word : Sized (fun _ => encoding.wordSize) (Read.word encoding) :=
  spelled (fun _ => exact_word encoding) fun _ _ => ByteOrder.length_bytesOfNat _ _ _

private theorem number : Sized (fun _ => encoding.number.size) (Read.number encoding) :=
  spelled (fun _ => exact_number encoding) fun _ _ => ByteOrder.length_bytesOfNat _ _ _

private theorem count (what : Text) :
    Sized (fun _ => encoding.intSize) (Read.count encoding what) :=
  spelled (fun _ => exact_count encoding what) fun _ _ => ByteOrder.length_bytesOfNat _ _ _

/-- A text takes its length and as many bytes as the length says. -/
theorem text : Sized
    (fun front => encoding.sizeSize + encoding.order.natOf (front.take encoding.sizeSize))
    (Read.text encoding) := by
  refine spelled (fun _ => exact_text encoding) fun spelling fits => ?_
  have told (length : Nat) (rest : List UInt8) (small : length < 256 ^ encoding.sizeSize) :
      encoding.order.natOf
        ((encoding.order.bytesOfNat encoding.sizeSize length ++ rest).take encoding.sizeSize) =
        length := by
    rw [List.take_left' (ByteOrder.length_bytesOfNat _ _ _), ByteOrder.natOf_bytesOfNat,
      Nat.mod_eq_of_lt small]
  cases spelling with
  | absent =>
    have none := told 0 [] (Nat.pow_pos (by decide))
    rw [List.append_nil] at none
    simp only [Spelling.bytes, none, ByteOrder.length_bytesOfNat, Nat.add_zero]
  | ended content =>
    have some := told (content.length + 1) (content ++ [0]) fits
    rw [← List.append_assoc] at some
    simp only [Spelling.bytes, some, List.length_append, ByteOrder.length_bytesOfNat,
      List.length_singleton, Nat.add_assoc]

/-- A value that was read is the value of the bytes up to the place where the cursor is now, and
they have the same value wherever they stand. -/
theorem of_run (sized : Sized extent read) {bytes : List UInt8} {offset after : Nat} {value : α}
    (inside : offset ≤ bytes.length)
    (done : read.run (.start bytes offset) = (.ok value, .start bytes after)) :
    ∃ word rest, bytes.drop offset = word ++ rest ∧ word.length = extent word ∧
      after = offset + word.length ∧
      ∀ front more : List UInt8, read.run (.start (front ++ word ++ more) front.length) =
        (.ok value, .start (front ++ word ++ more) (front.length + word.length)) := by
  obtain ⟨grammar, exact, long⟩ := sized
  rw [Cursor.start_eq_before inside] at done
  obtain ⟨word, rest, split, among, finish⟩ :=
    (exact _).sound (Nat.le_refl _) (reading_eq_ok_iff.mpr done)
  refine ⟨word, rest, split, long word value among, congrArg Cursor.offset finish, ?_⟩
  intro front more
  have again := reading_eq_ok_iff.mp
    ((exact _).complete front.length more (Nat.le_refl _) among)
  have behind := Cursor.start_append (front ++ word) more
  rw [List.length_append] at behind
  rw [behind, List.append_assoc, Cursor.start_append]
  exact again

end Sized

end Read

namespace Request

/-- The bytes that a request takes where it succeeds, told by those from its place on. -/
def extent (encoding : Encoding) (front : List UInt8) : Request → Nat
  | bytes length => length.toNat
  | byte => 1
  | int | count _ => encoding.intSize
  | size => encoding.sizeSize
  | word => encoding.wordSize
  | number => encoding.number.size
  | text => encoding.sizeSize + encoding.order.natOf (front.take encoding.sizeSize)

variable (encoding : Encoding) (request : Request)

private theorem onward_read (least : Nat) : (request.read encoding).Onward least := by
  cases request with
  | bytes length => exact (Read.Onward.bytes length).bind fun _ => .pure _
  | byte => exact Read.Onward.byte.bind fun _ => .pure _
  | int => exact (Read.Onward.int encoding).bind fun _ => .pure _
  | size => exact (Read.Onward.size encoding).bind fun _ => .pure _
  | word => exact (Read.Onward.word encoding).bind fun _ => .pure _
  | number => exact (Read.Onward.number encoding).bind fun _ => .pure _
  | count what => exact (Read.Onward.count encoding what).bind fun _ => .pure _
  | text => exact (Read.Onward.text encoding).bind fun _ => .pure _

private theorem sized_read : (request.read encoding).Sized (request.extent encoding ·) := by
  cases request with
  | bytes length => exact (Read.Sized.bytes length).map Value.bytes
  | byte => exact Read.Sized.byte.map fun value => Value.whole value.toNat
  | int => exact (Read.Sized.int encoding).map Value.whole
  | size => exact (Read.Sized.size encoding).map fun value => Value.whole value
  | word => exact (Read.Sized.word encoding).map fun value => Value.whole value
  | number => exact (Read.Sized.number encoding).map Value.number
  | count what => exact (Read.Sized.count encoding what).map fun value => Value.whole value
  | text => exact (Read.Sized.text encoding).map Value.text

/-- What stands behind the bytes of a request does not change how many they are. -/
theorem extent_append {encoding : Encoding} {request : Request} {front : List UInt8}
    (whole : front.length = request.extent encoding front) (rest : List UInt8) :
    request.extent encoding (front ++ rest) = request.extent encoding front := by
  cases request with
  | text =>
    have least : encoding.sizeSize ≤ front.length := whole ▸ Nat.le_add_right _ _
    rw [extent, extent, List.take_append_of_le_length least]
  | _ => rfl

/-- One request at a place in some bytes, with its answer and the place after it. -/
structure Step (encoding : Encoding) (bytes : List UInt8) (before : Nat) (request : Request)
    (answer : Except Fault Value) (after : Nat) : Prop where
  forward : before ≤ after
  inside : after ≤ bytes.length
  advance : ∀ value, answer = .ok value →
    after = before + request.extent encoding (bytes.drop before)
  kept : ∀ length fault, request = .bytes length → answer = .error fault → after = before
  located : ∀ fault, answer = .error fault → fault.MalformedWithin before after
  within : ∀ value, answer = .ok value → ∀ front rest : List UInt8,
    let other := front ++ slice bytes before (after - before) ++ rest
    (request.read encoding).run (.start other front.length) =
      (.ok value, .start other (front.length + (after - before)))

/-- Requests in a row with their answers: each begins at the place after the one before it, whether
that succeeded or not. -/
inductive Course (encoding : Encoding) (bytes : List UInt8) :
    Nat → List Request → List (Except Fault Value × Cursor) → Prop where
  | done (place : Nat) : Course encoding bytes place [] []
  | next {before after : Nat} {request : Request} {answer : Except Fault Value}
      {requests : List Request} {answers : List (Except Fault Value × Cursor)}
      (step : Step encoding bytes before request answer after)
      (rest : Course encoding bytes after requests answers) :
      Course encoding bytes before (request :: requests)
        ((answer, .start bytes after) :: answers)

variable {encoding request} {bytes : List UInt8} {offset : Nat}

private theorem exists_step (encoding : Encoding) (request : Request)
    (inside : offset ≤ bytes.length) :
    ∃ after answer, (request.read encoding).run (.start bytes offset) =
      (answer, .start bytes after) ∧ Step encoding bytes offset request answer after := by
  obtain ⟨after, answer, run, forward, within, stops⟩ :=
    request.onward_read encoding offset bytes offset (Nat.le_refl offset) inside
  refine ⟨after, answer, run, forward, within, ?_, ?_, stops, ?_⟩
  · rintro value rfl
    obtain ⟨word, rest, split, long, rfl, _⟩ := (request.sized_read encoding).of_run inside run
    rw [split, extent_append long, long]
  · rintro length fault rfl rfl
    rw [read, Read.run_bind] at run
    rcases Read.run_bytes_start length bytes offset with ⟨problem, stopped⟩ | ⟨_, done⟩
    · rw [stopped] at run
      exact (congrArg (·.2.offset) run).symm
    · rw [done] at run
      cases run
  · rintro value rfl front rest
    obtain ⟨word, behind, split, _, rfl, again⟩ := (request.sized_read encoding).of_run inside run
    have taken : slice bytes offset (offset + word.length - offset) = word := by
      rw [Nat.add_sub_cancel_left, slice, split, List.take_left]
    rw [Nat.add_sub_cancel_left] at taken ⊢
    rw [taken]
    exact again front rest

private theorem Course.sorted {before : Nat} {requests : List Request}
    {answers : List (Except Fault Value × Cursor)}
    (course : Course encoding bytes before requests answers) (inside : before ≤ bytes.length) :
    (before :: (answers.map (·.2.offset) ++ [bytes.length])).IsChain (· ≤ ·) := by
  induction course with
  | done place => exact .cons_cons inside (.singleton _)
  | next step rest ih => exact .cons_cons step.forward (ih step.inside)

private theorem exists_course (encoding : Encoding) (requests : List Request)
    (inside : offset ≤ bytes.length) :
    Course encoding bytes offset requests (run encoding requests (.start bytes offset)) := by
  induction requests generalizing offset with
  | nil => exact .done offset
  | cons request rest ih =>
    obtain ⟨after, answer, made, step⟩ := exists_step encoding request inside
    rw [run, made]
    exact .next step (ih step.inside)

/-- Whatever is asked for, and whatever fails on the way, the places of the cursor never go back and
stay inside the bytes. A read of fixed width moves it by that width, and a text by the width of its
length and the length; a fault names a place on the way; a value rests on the bytes taken for it. -/
theorem course_run (encoding : Encoding) (requests : List Request)
    (inside : offset ≤ bytes.length) :
    let answers := run encoding requests (.start bytes offset)
    Course encoding bytes offset requests answers ∧
      (offset :: (answers.map (·.2.offset) ++ [bytes.length])).Pairwise (· ≤ ·) := by
  have course := exists_course encoding requests inside
  exact ⟨course, (course.sorted inside).pairwise⟩

/-- A text without its zero byte, a negative count, a length that is too long and a negative one,
with a good text between them and a text that goes on past the end. -/
theorem course_run_of_faults :
    let encoding : Encoding := ⟨.little, 2, 2, 4, .double⟩
    let bytes : List UInt8 := [0, 1, 0, 97, 255, 255, 2, 0, 98, 0, 7, 0]
    let requests : List Request :=
      [.text, .count "local", .bytes 7, .bytes (-1), .text, .text, .byte, .bytes 0]
    let answers := run encoding requests (.start bytes 1)
    1 ≤ bytes.length ∧ Course encoding bytes 1 requests answers ∧
      answers.map (·.2.offset) = [4, 6, 6, 6, 10, 12, 12, 12] ∧
      answers.map (·.1.toOption) =
        [none, none, none, none, some (.text "b"), none, none, some (.bytes [])] := by
  intro encoding bytes requests answers
  have inside : 1 ≤ bytes.length := by decide
  exact ⟨inside, (course_run encoding requests inside).1, by decide, by decide⟩

end Request

end LuaLift
