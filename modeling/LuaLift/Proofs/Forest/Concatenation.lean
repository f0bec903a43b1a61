import LuaLift.Proofs.Forest.Faults
import Mathlib

/-! Building a forest of two stretches of code, one behind the other. The second is built as if it
stood alone, and no instruction behind a fault can take it away, except where the fault is that the
code ends too early. -/
namespace LuaLift

/-- The faults that more code behind the instruction cannot repair. -/
def Fault.isLasting : Fault → Bool
  | malformed (.underflow _ _ _) _ _ | malformed (.missingPrototype _ _ _) _ _ => true
  | _ => false

/-- The faults that may be gone once there is more code. -/
def Fault.Passes (fault : Fault) : Prop := fault.isLasting = false

private theorem Stops.not_lasting {outcome : Except Fault α} {fault : Fault}
    (stops : Stops Fault.Passes outcome)
    (lasting : fault.isLasting = true) : outcome ≠ .error fault := by
  intro failed
  have passes : fault.isLasting = false := stops fault failed
  rw [lasting] at passes
  cases passes

private theorem Instruction.confined_of_passing (instruction : Instruction) :
    instruction.Confined Fault.Passes := by
  apply confined_of_word
  intro fault word
  cases fault with
  | malformed problem index offset => cases word
  | _ => rfl

namespace Forest

/-- How the outcome for the first stretch bears on the outcome for both: a forest is continued, and
a lasting fault stays. -/
structure Carries (continued : List Node → Except Fault (List Node))
    (first both : Except Fault (List Node)) : Prop where
  built : ∀ forest, first = .ok forest → both = continued forest
  stopped : ∀ fault, fault.isLasting = true → first = .error fault → both = .error fault

namespace Carries

variable {continued : List Node → Except Fault (List Node)} {before after : Except Fault α}
  {next other : α → Except Fault (List Node)}

/-- A step that does not see the code behind it. -/
theorem bind_same
    (follow : ∀ value, before = .ok value → Carries continued (next value) (other value)) :
    Carries continued (before >>= next) (before >>= other) := by
  cases done : before with
  | ok value => exact follow value done
  | error fault => exact ⟨nofun, fun _ _ same => same⟩

/-- A step that may stop only because the code ends too early. -/
theorem bind_passing (grows : ∀ value, before = .ok value → after = .ok value)
    (passing : Stops Fault.Passes before)
    (follow : ∀ value, before = .ok value → Carries continued (next value) (other value)) :
    Carries continued (before >>= next) (after >>= other) := by
  cases done : before with
  | ok value =>
    rw [grows value done]
    exact follow value done
  | error fault =>
    refine ⟨nofun, fun found lasting same => ?_⟩
    obtain rfl : fault = found := Except.error.inj same
    exact (passing.not_lasting lasting done).elim

end Carries

variable {watch : Watch} {instruction : Instruction} {pending statements : List Node} {index : Int}

theorem skipped_more (owned : skipped instruction index available = .ok count) (more : Nat) :
    skipped instruction index (available + more) = .ok count := by
  rcases skipped_eq_ok.mp owned with alone | ⟨ahead, distance, fits⟩
  · exact skipped_eq_ok.mpr (.inl alone)
  · exact skipped_eq_ok.mpr (.inr ⟨ahead, distance, Nat.le_add_right_of_le fits⟩)

private theorem skipped_passing (instruction : Instruction) (index : Int) (available : Nat) :
    Stops Fault.Passes (skipped instruction index available) :=
  stops_skipped instruction.confined_of_passing (fun _ _ => rfl) available

private theorem close_passing (pending statements : List Node) :
    Stops Fault.Passes (close pending statements) :=
  stops_close (fun node _ => node.instruction.confined_of_passing) (fun _ _ _ => rfl) statements

/-- One stretch of code, replayed with another one behind it. -/
theorem replay_append (watch : Watch) (pending statements : List Node) (index : Int)
    (before after : List Instruction) :
    Carries
      (fun forest => (replay watch [] forest.reverse (index + before.length) after).outcome)
      (replay watch pending statements index before).outcome
      (replay watch pending statements index (before ++ after)).outcome := by
  induction pending, statements, index, before using replay.induct with
  | case1 pending statements index =>
    rw [replay]
    refine ⟨fun forest done => ?_, fun fault lasting stopped => ?_⟩
    · obtain ⟨rfl, rfl⟩ := close_eq_ok done
      simp
    · exact ((close_passing pending statements).not_lasting lasting stopped).elim
  | case2 pending statements index instruction before ihBody ihStatement ihProducer =>
    rw [List.cons_append, replay, replay]
    simp only [Traced.outcome_bind, Traced.outcome_ofExcept]
    refine .bind_same fun pushed _ => .bind_same fun needed _ => .bind_same fun _ _ =>
      .bind_same fun _ _ => .bind_same fun taken _ => ?_
    obtain ⟨operands, left⟩ := taken
    rw [List.length_append]
    refine .bind_passing (fun count owned => skipped_more owned after.length)
      (skipped_passing instruction index before.length) fun skip owned => ?_
    have fits := skipped_le owned
    -- what a jump owns lies in the first stretch, so its body is the same in both
    rw [List.take_append_of_le_length fits, List.drop_append_of_le_length fits]
    refine .bind_same fun body _ => ?_
    have behind : index + (instruction :: before).length =
        index + 1 + skip + (before.drop skip).length := by
      rw [List.length_cons, List.length_drop]
      omega
    rw [behind]
    by_cases leaves : pushed = 0
    · rw [if_pos leaves, if_pos leaves]
      exact ihStatement operands left skip body
    · rw [if_neg leaves, if_neg leaves]
      exact ihProducer operands left skip body

/-- Statements made earlier stand before those of the code and have no part in them. -/
theorem replay_earlier (watch : Watch) (pending statements earlier : List Node) (index : Int)
    (code : List Instruction) :
    (replay watch pending (statements ++ earlier) index code).outcome =
      (replay watch pending statements index code).outcome.map (earlier.reverse ++ ·) := by
  induction pending, statements, index, code using replay.induct with
  | case1 pending statements index =>
    rw [replay, replay]
    simp only [Traced.outcome_ofExcept, close]
    cases pending.reverse with
    | nil => simp [Except.map, pure, Except.pure]
    | cons oldest others =>
      rw [map_bind]
      rfl
  | case2 pending statements index instruction code ihBody ihStatement ihProducer =>
    rw [replay, replay]
    simp only [Traced.outcome_bind, Traced.outcome_ofExcept, map_bind]
    refine bind_congr fun pushed => bind_congr fun needed => bind_congr fun _ => bind_congr fun _ =>
      bind_congr fun taken => bind_congr fun skip => bind_congr fun body => ?_
    obtain ⟨operands, left⟩ := taken
    by_cases leaves : pushed = 0
    · rw [if_pos leaves, if_pos leaves]
      exact ihStatement operands left skip body
    · rw [if_neg leaves, if_neg leaves]
      exact ihProducer operands left skip body

/-- Building is compositional: the statements of two stretches of code are those of the first and
then those of the second, the second fails as it fails alone, and a lasting fault of the first is
one of both. -/
theorem build_append (watch : Watch) (base : Int) (before after : List Instruction) :
    (∀ forest, (build watch base before).outcome = .ok forest →
      (build watch base (before ++ after)).outcome =
        (build watch (base + before.length) after).outcome.map (forest ++ ·)) ∧
    ∀ fault, fault.isLasting = true → (build watch base before).outcome = .error fault →
      (build watch base (before ++ after)).outcome = .error fault := by
  have carries := replay_append watch [] [] base before after
  refine ⟨fun forest built => ?_, carries.stopped⟩
  have continued := replay_earlier watch [] [] forest.reverse (base + before.length) after
  rw [List.nil_append, List.reverse_reverse] at continued
  exact (carries.built forest built).trans continued

/-- A condition over one statement, and one whose statement finds nothing on the stack. -/
theorem build_append_of_condition :
    let test : Instruction := ⟨2147483750, {}⟩
    let code : List Instruction := [⟨12, {}⟩, test, ⟨2147483654, {}⟩, ⟨19, {}⟩]
    let forest : List Node :=
      [⟨test, [⟨⟨12, {}⟩, [], 3⟩, ⟨⟨19, {}⟩, [⟨⟨2147483654, {}⟩, [], 5⟩], 6⟩], 4⟩]
    let unbalanced : List Instruction := [⟨12, {}⟩, test, ⟨19, {}⟩, ⟨0, {}⟩]
    let fault : Fault := .malformed (.underflow "SET_GLOBAL(0)" 1 0) (some 5) none
    (build {} 3 code).outcome = .ok forest ∧
      (build {} 3 (code ++ [⟨0, {}⟩])).outcome = .ok (forest ++ [⟨⟨0, {}⟩, [], 7⟩]) ∧
      (build {} 3 unbalanced).outcome = .error fault ∧
      ∀ after, (build {} 3 (unbalanced ++ after)).outcome = .error fault := by
  intro test code forest unbalanced fault
  have built : (build {} 3 code).outcome = .ok forest := by cbv
  have stopped : (build {} 3 unbalanced).outcome =
      .error (.malformed (.underflow "SET_GLOBAL(0)" 1 0) (some 5) none) := by cbv
  refine ⟨built, ?_, stopped, fun after => ?_⟩
  · rw [(build_append {} 3 code [⟨0, {}⟩]).1 forest built]
    cbv
  · exact (build_append {} 3 unbalanced after).2 fault rfl stopped

end Forest

end LuaLift
