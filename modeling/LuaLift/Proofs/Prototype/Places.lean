import LuaLift.Proofs.Prototype.Induction

/-! Prototypes with their places: the positions that lead from the outermost one down to each of
them. -/
namespace LuaLift.Prototype

mutual
/-- The prototype and, after it, those inside it, each with its place. -/
def placed (place : List Nat) : Prototype → List (List Nat × Prototype)
  | ⟨source, line, paramCount, isVararg, maxStack, locals, lines, strings, numbers, functions,
      code⟩ =>
    (place, ⟨source, line, paramCount, isVararg, maxStack, locals, lines, strings, numbers,
      functions, code⟩) :: placedFrom place 0 functions

/-- Prototypes inside the one at a place, numbered from some position on. -/
def placedFrom (place : List Nat) (position : Nat) : List Prototype → List (List Nat × Prototype)
  | [] => []
  | prototype :: rest =>
    prototype.placed (place ++ [position]) ++ placedFrom place (position + 1) rest
end

/-- The prototype that some positions lead down to. -/
def at? : List Nat → Prototype → Option Prototype
  | [], prototype => some prototype
  | position :: deeper, prototype => prototype.functions[position]?.bind (at? deeper)

variable {prototype part : Prototype} {prototypes : List Prototype} {place found : List Nat}

theorem placed_eq (place : List Nat) (prototype : Prototype) :
    prototype.placed place = (place, prototype) :: placedFrom place 0 prototype.functions := by
  cases prototype
  rw [placed]

private theorem map_snd_placedFrom
    (each : ∀ inner ∈ prototypes, ∀ place, (inner.placed place).map Prod.snd = inner.all)
    (position : Nat) :
    (placedFrom place position prototypes).map Prod.snd = prototypes.flatMap all := by
  induction prototypes generalizing position with
  | nil => rw [placedFrom, List.map_nil, List.flatMap_nil]
  | cons first rest ih =>
    obtain ⟨own, others⟩ := List.forall_mem_cons.mp each
    rw [placedFrom, List.map_append, own, ih others, List.flatMap_cons]

/-- Without their places these are all prototypes in their order. -/
theorem map_snd_placed (place : List Nat) (prototype : Prototype) :
    (prototype.placed place).map Prod.snd = prototype.all := by
  induction prototype using induct generalizing place with
  | step prototype ih =>
    rw [placed_eq, List.map_cons, map_snd_placedFrom ih, all_eq]

theorem snd_mem_all {item : List Nat × Prototype} (member : item ∈ prototype.placed place) :
    item.2 ∈ prototype.all := by
  rw [← map_snd_placed place prototype]
  exact List.mem_map_of_mem member

private theorem mem_placedFrom_iff
    (each : ∀ inner ∈ prototypes, ∀ place, (found, part) ∈ inner.placed place ↔
      ∃ deeper, found = place ++ deeper ∧ inner.at? deeper = some part)
    (position : Nat) :
    (found, part) ∈ placedFrom place position prototypes ↔
      ∃ index deeper, found = place ++ (position + index) :: deeper ∧
        prototypes[index]?.bind (at? deeper) = some part := by
  induction prototypes generalizing position with
  | nil => simp [placedFrom]
  | cons first rest ih =>
    obtain ⟨own, others⟩ := List.forall_mem_cons.mp each
    rw [placedFrom, List.mem_append, own, ih others]
    constructor
    · rintro (⟨deeper, rfl, leads⟩ | ⟨index, deeper, rfl, leads⟩)
      · exact ⟨0, deeper, by simp, leads⟩
      · exact ⟨index + 1, deeper, by rw [Nat.add_right_comm, Nat.add_assoc], leads⟩
    · rintro ⟨index, deeper, rfl, leads⟩
      cases index with
      | zero => exact .inl ⟨deeper, by simp, leads⟩
      | succ index => exact .inr ⟨index, deeper, by rw [Nat.add_right_comm, Nat.add_assoc], leads⟩

/-- A prototype stands at just the places that lead down to it. -/
theorem mem_placed_iff : (found, part) ∈ prototype.placed place ↔
    ∃ deeper, found = place ++ deeper ∧ prototype.at? deeper = some part := by
  induction prototype using induct generalizing place with
  | step prototype ih =>
    rw [placed_eq, List.mem_cons, Prod.mk.injEq,
      mem_placedFrom_iff fun inner member _ => ih inner member]
    constructor
    · rintro (⟨rfl, rfl⟩ | ⟨index, deeper, rfl, leads⟩)
      · exact ⟨[], (List.append_nil _).symm, rfl⟩
      · exact ⟨index :: deeper, by rw [Nat.zero_add], leads⟩
    · rintro ⟨deeper, rfl, leads⟩
      cases deeper with
      | nil => exact .inl ⟨List.append_nil _, (Option.some.inj leads).symm⟩
      | cons index deeper => exact .inr ⟨index, deeper, by rw [Nat.zero_add], leads⟩

end LuaLift.Prototype
