import LuaLift.Proofs.Forest.Replay

/-! Building with a number of prototypes to check closures against. The check refuses code with a
closure that names none of them, at any depth, and changes nothing else. -/
namespace LuaLift

/-- A closure names one of the first so many prototypes. -/
def Instruction.RefersBelow (available : Nat) (instruction : Instruction) : Prop :=
  instruction.opcode = .ok .closure → ∃ number, instruction.a = .ok number ∧ number < available

namespace Forest

variable {instruction : Instruction} {index : Int} {available : Nat} {detailed : Bool}

private theorem checkClosure_eq_ok (known : instruction.opcode = .ok opcode) :
    checkClosure ⟨some available, detailed⟩ instruction index = .ok () ↔
      instruction.RefersBelow available := by
  have opened : checkClosure ⟨some available, detailed⟩ instruction index =
      if opcode = .closure then do
        let number ← instruction.a
        if available ≤ number then
          fail (.missingPrototype (← instruction.text) number available) index
      else pure () := by
    rw [checkClosure, known]
    rfl
  rw [opened, Instruction.RefersBelow, known]
  by_cases closure : opcode = .closure
  · rw [if_pos closure, bind_eq_ok]
    constructor
    · intro passed _
      obtain ⟨number, reads, passed⟩ := passed
      refine ⟨number, reads, Int.not_le.mp fun large => ?_⟩
      rw [if_pos large] at passed
      obtain ⟨_, _, never⟩ := bind_eq_ok.mp passed
      cases never
    · intro refers
      obtain ⟨number, reads, small⟩ := refers (congrArg Except.ok closure)
      exact ⟨number, reads, if_neg (Int.not_le.mpr small)⟩
  · rw [if_neg closure]
    exact iff_of_true rfl fun same => absurd (Except.ok.inj same) closure

/-- What is built with a check is what is built without one, from code that passes the check. -/
theorem replay_checked {pending statements forest : List Node} {code : List Instruction} :
    (replay ⟨some available, detailed⟩ pending statements index code).outcome = .ok forest ↔
      (replay ⟨none, detailed⟩ pending statements index code).outcome = .ok forest ∧
        ∀ instruction ∈ code, instruction.RefersBelow available := by
  induction pending, statements, index, code using replay.induct generalizing forest with
  | case1 pending statements index =>
    rw [replay, replay]
    exact (and_iff_left (List.forall_mem_nil _)).symm
  | case2 pending statements index instruction code ihBody ihStatement ihProducer =>
    have behind (pushed : Int) (operands left : List Node) (skip : Nat) (nested : List Node) :
        (if pushed = 0 then
            replay ⟨some available, detailed⟩ left
              (⟨instruction, operands ++ nested, index⟩ :: statements) (index + 1 + skip)
              (code.drop skip)
          else
            replay ⟨some available, detailed⟩ (⟨instruction, operands ++ nested, index⟩ :: left)
              statements (index + 1 + skip) (code.drop skip)).outcome = .ok forest ↔
          (if pushed = 0 then
            replay ⟨none, detailed⟩ left (⟨instruction, operands ++ nested, index⟩ :: statements)
              (index + 1 + skip) (code.drop skip)
          else
            replay ⟨none, detailed⟩ (⟨instruction, operands ++ nested, index⟩ :: left) statements
              (index + 1 + skip) (code.drop skip)).outcome = .ok forest ∧
          ∀ item ∈ code.drop skip, item.RefersBelow available := by
      by_cases leaves : pushed = 0
      · rw [if_pos leaves, if_pos leaves]
        exact ihStatement operands left skip nested
      · rw [if_neg leaves, if_neg leaves]
        exact ihProducer operands left skip nested
    have whole (skip : Nat) : (∀ item ∈ instruction :: code, item.RefersBelow available) ↔
        instruction.RefersBelow available ∧
          (∀ item ∈ code.take skip, item.RefersBelow available) ∧
          ∀ item ∈ code.drop skip, item.RefersBelow available := by
      rw [List.forall_mem_cons, ← List.forall_mem_append, List.take_append_drop]
    rw [replay, replay]
    simp only [Traced.bind_ok, Traced.outcome_ofExcept]
    constructor
    · rintro ⟨pushed, pushes, needed, pops, _, noted, _, passed, ⟨operands, left⟩, consumed, skip,
        owned, nested, body, rest⟩
      obtain ⟨opcode, known⟩ := Instruction.opcode_of_pushes pushes
      obtain ⟨plain, inside⟩ := (ihBody skip).mp body
      obtain ⟨later, after⟩ := (behind pushed operands left skip nested).mp rest
      refine ⟨⟨pushed, pushes, needed, pops, _, noted, (), rfl, (operands, left), consumed, skip,
        owned, nested, plain, later⟩, ?_⟩
      exact (whole skip).mpr ⟨(checkClosure_eq_ok known).mp passed, inside, after⟩
    · rintro ⟨⟨pushed, pushes, needed, pops, _, noted, _, _, ⟨operands, left⟩, consumed, skip,
        owned, nested, body, rest⟩, refers⟩
      obtain ⟨opcode, known⟩ := Instruction.opcode_of_pushes pushes
      obtain ⟨here, inside, after⟩ := (whole skip).mp refers
      exact ⟨pushed, pushes, needed, pops, _, noted, (), (checkClosure_eq_ok known).mpr here,
        (operands, left), consumed, skip, owned, nested, (ihBody skip).mpr ⟨body, inside⟩,
        (behind pushed operands left skip nested).mpr ⟨rest, after⟩⟩

theorem build_checked {code : List Instruction} {forest : List Node} :
    (build ⟨some available, detailed⟩ base code).outcome = .ok forest ↔
      (build ⟨none, detailed⟩ base code).outcome = .ok forest ∧
        ∀ instruction ∈ code, instruction.RefersBelow available := replay_checked

end Forest

end LuaLift
