import LuaLift.Proofs.Forest.ProgramOrder
import LuaLift.Proofs.Source.Strict

/-! The order of what a text says. The statements are written as they are in the forest, and nothing
refuses a statement that is complete while older values wait for a later one, so the order of the
code is kept exactly where that does not happen. -/
namespace LuaLift.Prototype

/-- A text has its instructions in the order of the code exactly where no statement takes a value
that was pushed before an earlier statement was complete. Whether that is so shows in the code. -/
theorem program_eq_iff_of_bodyText {options : Options} {prototype : Prototype} {upvalues : List Text}
    (written : (prototype.bodyText options detailed upvalues).outcome = .ok text) :
    ∃ forest, (Forest.build ⟨some prototype.functions.length, detailed⟩ 0
        prototype.code).outcome = .ok forest ∧
      ((prototype.scope options detailed upvalues).forestText forest).outcome = .ok text ∧
      (Node.programOf forest = numbered 0 prototype.code ↔ Timely forest) ∧
      (Timely forest ↔ Forest.Settled 0 prototype.code) := by
  obtain ⟨forest, built, shown⟩ := bodyText_eq_ok.mp written
  have timely := Forest.program_eq_iff_timely built
  have settled := Forest.program_eq_iff_settled built
  exact ⟨forest, built, shown, timely, timely.symm.trans settled⟩

/-- One assignment after another. -/
theorem program_eq_of_assignments :
    let prototype : Prototype := { (default : Prototype) with
      strings := ["x", "y"]
      code := [⟨2147483654, {}⟩, ⟨19, {}⟩, ⟨12, {}⟩, ⟨83, {}⟩, ⟨0, {}⟩] }
    (prototype.bodyText {} false []).outcome = .ok "x = 1\ny = x" ∧
      ∃ forest, (Forest.build ⟨some 0, false⟩ 0 prototype.code).outcome = .ok forest ∧
        Node.programOf forest = numbered 0 prototype.code ∧ Timely forest := by
  intro prototype
  have written : (prototype.bodyText {} false []).outcome = .ok "x = 1\ny = x" := by cbv
  let known : List Node := [⟨⟨19, {}⟩, [⟨⟨2147483654, {}⟩, [], 0⟩], 1⟩,
    ⟨⟨83, {}⟩, [⟨⟨12, {}⟩, [], 2⟩], 3⟩, ⟨⟨0, {}⟩, [], 4⟩]
  have same : (Forest.build ⟨some 0, false⟩ 0 prototype.code).outcome = .ok known := by cbv
  have ordered : Node.programOf known = numbered 0 prototype.code := by decide
  obtain ⟨forest, built, _, timely, _⟩ := program_eq_iff_of_bodyText written
  have unique : forest = known := Except.ok.inj (built.symm.trans same)
  rw [unique] at timely
  exact ⟨written, known, same, ordered, timely.mp ordered⟩

/-- An assignment to two names at once has the same text, which reads `x` after it was changed. -/
theorem program_ne_of_double_assignment :
    let prototype : Prototype := { (default : Prototype) with
      strings := ["x", "y"]
      code := [⟨12, {}⟩, ⟨2147483654, {}⟩, ⟨19, {}⟩, ⟨83, {}⟩, ⟨0, {}⟩] }
    (prototype.bodyText {} false []).outcome = .ok "x = 1\ny = x" ∧
      ∃ forest, (Forest.build ⟨some 0, false⟩ 0 prototype.code).outcome = .ok forest ∧
        Node.programOf forest ≠ numbered 0 prototype.code ∧ ¬ Timely forest := by
  intro prototype
  let forest : List Node := [⟨⟨19, {}⟩, [⟨⟨2147483654, {}⟩, [], 1⟩], 2⟩,
    ⟨⟨83, {}⟩, [⟨⟨12, {}⟩, [], 0⟩], 3⟩, ⟨⟨0, {}⟩, [], 4⟩]
  have built : (Forest.build ⟨some 0, false⟩ 0 prototype.code).outcome = .ok forest := by cbv
  have mixed : Node.programOf forest ≠ numbered 0 prototype.code := by decide
  have late : ¬ Timely forest := fun timely => mixed ((Forest.program_eq_iff_timely built).mpr timely)
  exact ⟨by cbv, forest, built, mixed, late⟩

end LuaLift.Prototype
