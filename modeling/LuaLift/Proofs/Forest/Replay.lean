import LuaLift.Proofs.Forest.Operands

/-! The statement forest as a derivation: one rule for an instruction that leaves values on the
stack, one for an instruction that completes a statement. A derivation exists exactly where the
forest can be built, and it fixes the forest. -/
namespace LuaLift.Forest

/-- How a stretch of code becomes statements, given the producers pending before it. The rule says
which producers may still be pending where a statement is complete, at every depth. -/
inductive Replay (rule : List Node → Prop) :
    List Node → Int → List Instruction → List Node → Prop where
  | done {index : Int} : Replay rule [] index [] []
  | producer {instruction : Instruction} {pushed needed index : Int}
      {pending operands left statements : List Node} {code : List Instruction}
      (pushes : instruction.pushes = .ok pushed) (leaves : pushed ≠ 0)
      (pops : instruction.pops = .ok needed)
      (consumed : consume instruction index needed pending = .ok (operands, left))
      (rest : Replay rule (⟨instruction, operands, index⟩ :: left) (index + 1) code statements) :
      Replay rule pending index (instruction :: code) statements
  | statement {instruction : Instruction} {needed index : Int}
      {pending operands left nested statements : List Node} {inner outer : List Instruction}
      (pushes : instruction.pushes = .ok 0) (pops : instruction.pops = .ok needed)
      (consumed : consume instruction index needed pending = .ok (operands, left))
      (owned : skipped instruction index (inner ++ outer).length = .ok inner.length)
      (allowed : rule left)
      (body : Replay rule [] (index + 1) inner nested)
      (rest : Replay rule left (index + 1 + inner.length) outer statements) :
      Replay rule pending index (instruction :: (inner ++ outer))
        (⟨instruction, operands ++ nested, index⟩ :: statements)

/-- Every statement of the code, at every depth, is complete while no producer of its stretch is
pending. -/
def Settled (base : Int) (code : List Instruction) : Prop :=
  ∃ forest, Replay (· = []) [] base code forest

theorem close_eq_ok (done : close pending statements = .ok forest) :
    pending = [] ∧ forest = statements.reverse := by
  unfold close at done
  split at done
  · rename_i empty
    exact ⟨List.reverse_eq_nil_iff.mp empty, (pure_eq_ok.mp done).symm⟩
  · simp only [bind_eq_ok, fail] at done
    obtain ⟨_, _, never⟩ := done
    cases never

/-- An instruction that leaves values owns no code, so it has no body. -/
theorem bodiless_of_pushes {instruction : Instruction} {code : List Instruction}
    (pushes : instruction.pushes = .ok pushed) (leaves : pushed ≠ 0)
    (owned : skipped instruction index available = .ok skip)
    (body : (replay watch [] [] next (code.take skip)).outcome = .ok nested) :
    skip = 0 ∧ nested = [] := by
  obtain rfl : skip = 0 :=
    Except.ok.inj (owned.symm.trans (skipped_of_pushes pushes leaves index available))
  rw [List.take_zero, replay, Traced.outcome_ofExcept] at body
  exact ⟨rfl, (close_eq_ok body).2⟩

/-- What building comes to is derivable, whatever else it watches. -/
theorem replay_sound (built : (replay watch pending statements index code).outcome = .ok forest) :
    ∃ later, forest = statements.reverse ++ later ∧
      Replay (fun _ => True) pending index code later := by
  induction pending, statements, index, code using replay.induct generalizing forest with
  | case1 pending statements index =>
    rw [replay] at built
    obtain ⟨rfl, rfl⟩ := close_eq_ok built
    exact ⟨[], by simp, .done⟩
  | case2 pending statements index instruction code ihBody ihStatement ihProducer =>
    rw [replay] at built
    simp only [Traced.bind_ok, Traced.outcome_ofExcept] at built
    obtain ⟨pushed, pushes, needed, pops, _, _, _, _, ⟨operands, left⟩, consumed, skip, owned,
      nested, body, rest⟩ := built
    have fits := skipped_le owned
    split at rest
    · subst pushed
      obtain ⟨nestedLater, same, bodyTrace⟩ := ihBody skip body
      have nestedSame : nested = nestedLater := by simpa using same
      subst nestedSame
      obtain ⟨later, rfl, restTrace⟩ := ihStatement operands left skip nested rest
      refine ⟨⟨instruction, operands ++ nested, index⟩ :: later, by simp, ?_⟩
      have size : (code.take skip).length = skip := by simp [fits]
      rw [← List.take_append_drop skip code] at owned ⊢
      refine .statement pushes pops consumed ?_ trivial bodyTrace ?_
      · simpa only [size] using owned
      · simpa only [size] using restTrace
    · rename_i leaves
      obtain ⟨rfl, rfl⟩ := bodiless_of_pushes pushes leaves owned body
      obtain ⟨later, rfl, restTrace⟩ := ihProducer operands left 0 [] rest
      refine ⟨later, rfl, .producer pushes leaves pops consumed ?_⟩
      simpa using restTrace

/-- A derivation is followed by building without checks and without notes. -/
theorem Replay.complete (trace : Replay rule pending index code later) (statements : List Node) :
    (replay {} pending statements index code).outcome = .ok (statements.reverse ++ later) := by
  induction trace generalizing statements with
  | done =>
    rw [replay]
    simp [close, pure, Except.pure]
  | @producer instruction pushed needed index pending operands left later code pushes leaves pops
      consumed rest ih =>
    have owned := skipped_of_pushes pushes leaves index code.length
    have body : (replay {} [] [] (index + 1) (code.take 0)).outcome = .ok [] := by
      rw [List.take_zero, replay]
      rfl
    rw [replay]
    simp only [Traced.bind_ok, Traced.outcome_ofExcept]
    refine ⟨pushed, pushes, needed, pops, (), rfl, (), rfl, (operands, left), consumed, 0, owned,
      [], body, ?_⟩
    simpa [leaves] using ih statements
  | @statement instruction needed index pending operands left nested later inner outer pushes pops
      consumed owned allowed body rest ihBody ihRest =>
    rw [replay]
    simp only [Traced.bind_ok, Traced.outcome_ofExcept]
    refine ⟨0, pushes, needed, pops, (), rfl, (), rfl, (operands, left), consumed, inner.length,
      owned, nested, by simpa using ihBody [], ?_⟩
    simpa using ihRest (⟨instruction, operands ++ nested, index⟩ :: statements)

/-- A forest can be built exactly where there is a derivation of it. -/
theorem build_eq_ok_iff :
    (build {} base code).outcome = .ok forest ↔ Replay (fun _ => True) [] base code forest := by
  constructor
  · intro built
    obtain ⟨later, rfl, trace⟩ := replay_sound built
    simpa using trace
  · intro trace
    simpa [build] using trace.complete []

theorem build_sound (built : (build watch base code).outcome = .ok forest) :
    Replay (fun _ => True) [] base code forest := by
  obtain ⟨later, rfl, trace⟩ := replay_sound built
  simpa using trace

private theorem Replay.unique (first : Replay rule pending index code forest₁)
    (second : Replay other pending index code forest₂) : forest₁ = forest₂ := by
  have same := (first.complete []).symm.trans (second.complete [])
  simpa using same

theorem Settled.replay (settled : Settled base code)
    (built : (build watch base code).outcome = .ok forest) : Replay (· = []) [] base code forest := by
  obtain ⟨other, trace⟩ := settled
  rw [(build_sound built).unique trace]
  exact trace

end LuaLift.Forest
