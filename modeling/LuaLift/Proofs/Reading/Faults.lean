import LuaLift.Proofs.Reading.Progress

/-! Where reading stops. A reader stays inside the bytes of its chunk, and where it fails the fault
names a place inside them. -/
namespace LuaLift

/-- A fault of the bytes of a chunk, with a place among them or behind the last. -/
def Fault.LocatedIn (size : Nat) : Fault → Prop
  | preamble _ (some offset) | encoding _ (some offset) | invalidOpcode _ _ _ (some offset)
  | malformed _ _ (some offset) => 0 ≤ offset ∧ offset ≤ size
  | _ => False

/-- A cursor in a chunk of some size, with all the bytes from its place on. -/
def Cursor.Within (size : Nat) (cursor : Cursor) : Prop :=
  ∃ offset rest, cursor = .before offset rest ∧ offset + rest.length = size

theorem Cursor.Within.offset_le {cursor : Cursor} {size : Nat} (within : cursor.Within size) :
    cursor.offset ≤ size := by
  obtain ⟨offset, rest, rfl, rfl⟩ := within
  exact Nat.le_add_right offset rest.length

theorem Cursor.within_start {bytes : List UInt8} {offset : Nat} (inside : offset ≤ bytes.length) :
    (start bytes offset).Within bytes.length := by
  refine ⟨offset, bytes.drop offset, start_eq_before inside, ?_⟩
  rw [List.length_drop]
  omega

/-- A cursor that is within a chunk could have been started on some bytes. -/
theorem Cursor.Within.exists_start {cursor : Cursor} {size : Nat} (within : cursor.Within size) :
    ∃ bytes offset, cursor = .start bytes offset ∧ bytes.length = size ∧
      offset ≤ bytes.length := by
  obtain ⟨offset, rest, rfl, total⟩ := within
  have started := Cursor.start_append (List.replicate offset 0) rest
  rw [List.length_replicate] at started
  refine ⟨List.replicate offset 0 ++ rest, offset, started.symm, ?_, ?_⟩ <;>
    rw [List.length_append, List.length_replicate] <;> omega

namespace Reading

variable {size : Nat} {cursor : Cursor} {reading : Reading α} {next : α → Reading β}

/-- Reading from a cursor ends inside the chunk, or stops at a fault that points inside. -/
structure Contained (size : Nat) (reading : Reading α) (cursor : Cursor) : Prop where
  stays : ∀ value next, reading cursor = .ok (value, next) → next.Within size
  stops : Stops (Fault.LocatedIn size) (reading cursor)

namespace Contained

theorem pure (value : α) (within : cursor.Within size) : Contained size (pure value) cursor where
  stays := by
    intro result finish read
    obtain ⟨rfl, rfl⟩ := Prod.mk.inj (Except.ok.inj read)
    exact within
  stops := .ok _

theorem throw {fault : Fault} (located : fault.LocatedIn size) :
    Contained size (throw fault : Reading α) cursor where
  stays := nofun
  stops := .error located

theorem bind (first : Contained size reading cursor)
    (follow : ∀ value finish, reading cursor = .ok (value, finish) → finish.Within size →
      Contained size (next value) finish) : Contained size (reading >>= next) cursor where
  stays := by
    intro result finish read
    obtain ⟨⟨value, middle⟩, start, behind⟩ := bind_eq_ok.mp read
    exact (follow value middle start (first.stays value middle start)).stays result finish behind
  stops := by
    refine Stops.bind first.stops fun pair start => ?_
    obtain ⟨value, middle⟩ := pair
    exact (follow value middle start (first.stays value middle start)).stops

theorem offset {next : Nat → Reading α} (follow : Contained size (next cursor.offset) cursor) :
    Contained size (Reading.offset >>= next) cursor where
  stays := follow.stays
  stops := follow.stops

/-- What is known without reading leaves the cursor where it is. -/
theorem known {outcome : Except Fault α} {value : α} (known : outcome = .ok value)
    (follow : Contained size (next value) cursor) :
    Contained size (liftM outcome >>= next) cursor := by
  subst outcome
  exact ⟨follow.stays, follow.stops⟩

end Contained

/-- Wherever in a chunk it begins, a reader is contained in it. -/
def Safe (size : Nat) (reading : Reading α) : Prop :=
  ∀ cursor, cursor.Within size → Contained size reading cursor

namespace Safe

theorem pure (value : α) : Safe size (pure value) := fun _ within => .pure value within

theorem throw {fault : Fault} (located : fault.LocatedIn size) :
    Safe size (throw fault : Reading α) := fun _ _ => .throw located

/-- Nothing is read behind a fault. -/
theorem throw_bind {fault : Fault} (located : fault.LocatedIn size) (next : β → Reading α) :
    Safe size (MonadExcept.throw fault >>= next) := throw located

theorem known {outcome : Except Fault α} (known : ∃ value, outcome = .ok value)
    (follow : ∀ value, Safe size (next value)) : Safe size (liftM outcome >>= next) := by
  obtain ⟨value, known⟩ := known
  exact fun cursor within => .known known (follow value cursor within)

theorem bind (first : Safe size reading) (follow : ∀ value, Safe size (next value)) :
    Safe size (reading >>= next) :=
  fun cursor within => (first cursor within).bind fun value finish _ => follow value finish

theorem choice {condition : Prop} [Decidable condition] {other : Reading α}
    (holds : Safe size reading) (fails : Safe size other) :
    Safe size (if condition then reading else other) := by
  by_cases condition
  · rename_i true
    rw [if_pos true]
    exact holds
  · rename_i false
    rw [if_neg false]
    exact fails

theorem offset {next : Nat → Reading α} (follow : ∀ place ≤ size, Safe size (next place)) :
    Safe size (Reading.offset >>= next) :=
  fun cursor within => .offset (follow cursor.offset within.offset_le cursor within)

/-- The same reading a number of times in a row. -/
theorem times {parse : Parse α} (safe : Safe size parse.reading) (count : Nat) :
    Safe size (parse.times count).reading := by
  induction count with
  | zero => exact pure []
  | succ count ih =>
    simp only [Parse.times, Parse.reading_bind, Parse.reading_pure]
    exact safe.bind fun first => ih.bind fun rest => pure (first :: rest)

end Safe

end Reading

namespace Read

/-- A place that has been reached is one that a fault may name. -/
theorem located_malformed (problem : StructureProblem) (index : Option Int) {place size : Nat}
    (inside : place ≤ size) : (Fault.malformed problem index (some place)).LocatedIn size :=
  ⟨Int.natCast_nonneg place, Int.ofNat_le.mpr inside⟩

/-- What only moves onwards never leaves the chunk. -/
theorem Onward.safe {size : Nat} {read : Read α} (onward : read.Onward 0) :
    Reading.Safe size read.reading := by
  intro cursor within
  obtain ⟨bytes, offset, rfl, rfl, inside⟩ := within.exists_start
  obtain ⟨after, answer, run, _, further, stops⟩ := onward bytes offset (Nat.zero_le _) inside
  have opened : read.reading (.start bytes offset) = answer.map (·, .start bytes after) := by
    rw [reading, run]
    cases answer <;> rfl
  refine ⟨fun value next read => ?_, ?_⟩
  · rw [opened] at read
    cases answer with
    | error fault => cases read
    | ok found =>
      obtain ⟨_, rfl⟩ := Prod.mk.inj (Except.ok.inj read)
      exact Cursor.within_start further
  · rw [opened]
    cases answer with
    | ok found => exact .ok _
    | error fault =>
      obtain ⟨problem, place, rfl, _, reached⟩ := stops fault rfl
      exact .error (located_malformed problem none (Nat.le_trans reached further))

end Read

end LuaLift
