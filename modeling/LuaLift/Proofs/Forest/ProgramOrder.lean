import LuaLift.Proofs.Forest.Program
import Mathlib

/-! When a forest is read in the order of the code. That is so exactly where no statement is complete
before all values pushed earlier in its stretch are taken; and the forest shows it: no operand of a
statement is older than a statement before it. -/
namespace LuaLift

open Node (programOf programOf_nil programOf_cons mem_programOf_of_operands mem_program_self size
  sizeAll)

/-- No statement has an operand from before an earlier statement of its stretch, at any depth. -/
inductive Timely : List Node → Prop where
  | nil : Timely []
  | cons {node : Node} {rest : List Node} (inner : Timely node.body)
      (after : ∀ later ∈ rest, ∀ item ∈ programOf later.operands, node.index < item.1)
      (others : Timely rest) : Timely (node :: rest)

namespace Forest

/-- Where nothing is pending at a complete statement, reading the forest is reading the code. -/
theorem Replay.program_eq (trace : Replay (· = []) pending index code statements) :
    programOf statements = programOf pending.reverse ++ numbered index code := by
  induction trace with
  | done => rfl
  | @producer instruction pushed needed index pending operands left statements code pushes leaves
      pops consumed rest ih =>
    have listed := program_of_consume pops consumed [] index
    rw [ih, numbered_cons]
    simpa using congrArg (· ++ numbered (index + 1) code) listed
  | @statement instruction needed index pending operands left nested statements inner outer pushes
      pops consumed owned allowed body rest ihBody ihRest =>
    subst left
    have listed := program_of_consume pops consumed nested index
    simp only [List.reverse_nil, programOf_nil, List.nil_append] at listed ihBody ihRest
    rw [programOf_cons, listed, ihBody, ihRest]
    simp

/-- Whatever is pending becomes an operand of a later statement. -/
theorem Replay.operand_of_pending (trace : Replay rule pending index code statements) :
    ∀ item ∈ programOf pending, ∃ statement ∈ statements, item ∈ programOf statement.operands := by
  induction trace with
  | done => simp
  | @producer instruction pushed needed index pending operands left statements code pushes leaves
      pops consumed rest ih =>
    obtain ⟨same, _⟩ := operands_of_consume pops consumed [] index
    rw [List.append_nil] at same
    intro item member
    rw [← consume_append consumed, Node.programOf_append, List.mem_append] at member
    apply ih item
    rw [Node.programOf_cons, List.mem_append]
    rcases member with taken | kept
    · left
      rw [Node.program_eq, same]
      exact List.mem_append_left _ (Node.mem_programOf_reverse.mpr taken)
    · exact .inr kept
  | @statement instruction needed index pending operands left nested statements inner outer pushes
      pops consumed owned allowed body rest ihBody ihRest =>
    obtain ⟨same, _⟩ := operands_of_consume pops consumed nested index
    intro item member
    rw [← consume_append consumed, Node.programOf_append, List.mem_append] at member
    rcases member with taken | kept
    · exact ⟨_, List.mem_cons_self, by rwa [same]⟩
    · obtain ⟨statement, among, used⟩ := ihRest item kept
      exact ⟨statement, List.mem_cons_of_mem _ among, used⟩

/-- A forest that is read by increasing positions is timely. -/
theorem Replay.timely_of_sorted (trace : Replay rule pending index code statements)
    (sorted : (programOf statements).Pairwise (fun earlier later => earlier.1 < later.1)) :
    Timely statements := by
  induction trace with
  | done => exact .nil
  | producer _ _ _ _ _ ih => exact ih sorted
  | @statement instruction needed index pending operands left nested statements inner outer pushes
      pops consumed owned allowed body rest ihBody ihRest =>
    obtain ⟨_, sameBody⟩ := operands_of_consume pops consumed nested index
    rw [programOf_cons, List.pairwise_append] at sorted
    obtain ⟨ownSorted, restSorted, across⟩ := sorted
    have bodySorted : (programOf nested).Pairwise (fun earlier later => earlier.1 < later.1) := by
      rw [Node.program_eq, sameBody, List.pairwise_append] at ownSorted
      exact (List.pairwise_cons.mp ownSorted.2.1).2
    refine .cons (by rw [sameBody]; exact ihBody bodySorted) ?_ (ihRest restSorted)
    intro later among item member
    exact across _ (mem_program_self _) item (mem_programOf_of_operands among member)

/-- In a timely forest nothing was pending at a complete statement: it would have become an operand
of a later one. -/
theorem Replay.settled_of_timely (trace : Replay rule pending index code statements)
    (below : ∀ item ∈ programOf pending, item.1 < index) (timely : Timely statements) :
    Replay (· = []) pending index code statements := by
  induction trace with
  | done => exact .done
  | @producer instruction pushed needed index pending operands left statements code pushes leaves
      pops consumed rest ih =>
    exact .producer pushes leaves pops consumed (ih (below_of_consume pops consumed below) timely)
  | @statement instruction needed index pending operands left nested statements inner outer pushes
      pops consumed owned allowed body rest ihBody ihRest =>
    obtain ⟨_, sameBody⟩ := operands_of_consume pops consumed nested index
    cases timely with
    | cons bodyTimely after restTimely =>
      have leftBelow := left_below_of_consume consumed below
      -- a kept producer is older than this statement, and yet an operand of a later one
      have none : left = [] := by
        cases left with
        | nil => rfl
        | cons kept others =>
          have waits : (kept.index, kept.instruction) ∈ programOf (kept :: others) := by
            simp [mem_program_self]
          obtain ⟨later, among, taken⟩ := rest.operand_of_pending _ waits
          have later := after later among _ taken
          have before := leftBelow _ waits
          exact absurd (Int.lt_trans later before) (Int.lt_irrefl _)
      rw [sameBody] at bodyTimely
      refine .statement pushes pops consumed owned none (ihBody (by simp) bodyTimely)
        (ihRest ?_ restTimely)
      intro item member
      have before := leftBelow item member
      omega

/-- A forest lists its instructions in the order of the code exactly where no statement takes a
value from before an earlier statement. -/
theorem program_eq_iff_timely (built : (build watch base code).outcome = .ok forest) :
    programOf forest = numbered base code ↔ Timely forest := by
  have trace := build_sound built
  constructor
  · intro ordered
    apply trace.timely_of_sorted
    rw [ordered]
    exact numbered_sorted base code
  · intro timely
    simpa using (trace.settled_of_timely (by simp) timely).program_eq

/-- It is also exactly where every statement was complete with nothing pending. -/
theorem program_eq_iff_settled (built : (build watch base code).outcome = .ok forest) :
    programOf forest = numbered base code ↔ Settled base code := by
  constructor
  · intro ordered
    have timely := (program_eq_iff_timely built).mp ordered
    exact ⟨forest, (build_sound built).settled_of_timely (by simp) timely⟩
  · intro settled
    simpa using (settled.replay built).program_eq

/-- A forest that can be built holds each instruction of the code at its position once, and keeps
their order where every statement was complete with nothing pending. -/
theorem build_program (built : (build watch base code).outcome = .ok forest) :
    (programOf forest).Perm (numbered base code) ∧ (forest.map size).sum = code.length ∧
      (programOf forest = numbered base code ↔ Settled base code) := by
  have trace := build_sound built
  refine ⟨by simpa using trace.perm, ?_, program_eq_iff_settled built⟩
  rw [← Node.sizeAll_eq_sum, trace.size_sum]
  simp [sizeAll]

/-- A condition over one statement, counted from three. -/
theorem build_program_of_condition :
    let test : Instruction := ⟨2147483750, {}⟩
    let code : List Instruction := [⟨12, {}⟩, test, ⟨2147483654, {}⟩, ⟨19, {}⟩, ⟨0, {}⟩]
    let forest : List Node :=
      [⟨test, [⟨⟨12, {}⟩, [], 3⟩, ⟨⟨19, {}⟩, [⟨⟨2147483654, {}⟩, [], 5⟩], 6⟩], 4⟩, ⟨⟨0, {}⟩, [], 7⟩]
    (build {} 3 code).outcome = .ok forest ∧
      (programOf forest).Perm (numbered 3 code) ∧ (forest.map size).sum = code.length ∧
      (programOf forest = numbered 3 code ↔ Settled 3 code) := by
  intro test code forest
  have built : (build {} 3 code).outcome = .ok forest := by cbv
  exact ⟨built, build_program built⟩

end Forest

end LuaLift
