import LuaLift.Proofs.Forest.Program
import LuaLift.Proofs.Instruction.Faults

/-! Where building a forest may stop: at an instruction that cannot be read, or at one that breaks a
rule of the stack, and then the fault names its position. -/
namespace LuaLift

/-- At its position an instruction gives rise to no other faults than the allowed ones. -/
structure Instruction.ConfinedAt (allowed : Fault → Prop) (index : Int)
    (instruction : Instruction) : Prop where
  reads : instruction.Confined allowed
  malformed : ∀ problem, allowed (.malformed problem (some index) none)

/-- The problems that stop the building of a forest. -/
def StructureProblem.isOfForest : StructureProblem → Bool
  | underflow _ _ _ | jumpTooFar _ _ | missingPrototype _ _ _ | residue _ => true
  | _ => false

/-- While a forest is built, an instruction gives rise to no other faults than the allowed ones. -/
structure Instruction.BuiltAt (allowed : Fault → Prop) (index : Int)
    (instruction : Instruction) : Prop where
  reads : instruction.Confined allowed
  malformed : ∀ problem, problem.isOfForest = true → allowed (.malformed problem (some index) none)

theorem Instruction.ConfinedAt.built {allowed : Fault → Prop} {instruction : Instruction}
    (confined : instruction.ConfinedAt allowed index) : instruction.BuiltAt allowed index :=
  ⟨confined.reads, fun problem _ => confined.malformed problem⟩

namespace Node

theorem stops_takePushed {allowed : Fault → Prop} {pushes : α → Except Fault Int} {items : List α}
    (each : ∀ item ∈ items, Stops allowed (pushes item)) (needed : Int) :
    Stops allowed (takePushed pushes needed items) := by
  induction items generalizing needed with
  | nil => exact .ok _
  | cons item rest ih =>
    rw [takePushed]
    by_cases full : needed ≤ 0
    · rw [if_pos full]
      exact .ok _
    · rw [if_neg full]
      refine (each item List.mem_cons_self).bind fun pushed _ => ?_
      have behind := ih (fun other member => each other (List.mem_cons_of_mem _ member))
      exact (behind _).bind fun _ _ => .ok _

end Node

namespace Forest

variable {allowed : Fault → Prop} {instruction : Instruction} {index : Int}
  {pending statements : List Node}

private theorem stops_fail {problem : StructureProblem}
    (among : allowed (.malformed problem (some index) none)) :
    Stops allowed (fail problem index : Except Fault α) := .error among

private theorem stops_consume (confined : instruction.Confined allowed)
    (waiting : ∀ node ∈ pending, node.instruction.Confined allowed)
    (underflow : ∀ shown needed available,
      allowed (.malformed (.underflow shown needed available) (some index) none)) (pops : Int) :
    Stops allowed (consume instruction index pops pending) := by
  refine (Node.stops_takePushed (fun node member => (waiting node member).pushes) pops).bind
    fun taken _ => ?_
  obtain ⟨operands, left, missing⟩ := taken
  dsimp only
  by_cases short : 0 < missing
  · rw [if_pos short]
    exact confined.text.bind fun _ _ => stops_fail (underflow _ _ _)
  · rw [if_neg short]
    exact .ok _

theorem stops_skipped (confined : instruction.Confined allowed)
    (far : ∀ shown left, allowed (.malformed (.jumpTooFar shown left) (some index) none))
    (available : Nat) : Stops allowed (skipped instruction index available) := by
  refine confined.skipsAhead.bind fun ahead _ => ?_
  cases ahead with
  | false => exact .ok 0
  | true =>
    refine confined.s.bind fun distance _ => ?_
    by_cases short : (available : Int) < distance
    · rw [if_pos short]
      exact confined.text.bind fun _ _ => stops_fail (far _ _)
    · rw [if_neg short]
      exact .ok _

private theorem stops_checkClosure (watch : Watch) (confined : instruction.Confined allowed)
    (missing : ∀ shown number available,
      allowed (.malformed (.missingPrototype shown number available) (some index) none)) :
    Stops allowed (checkClosure watch instruction index) := by
  rw [checkClosure]
  cases watch.prototypes with
  | none => exact .ok ()
  | some available =>
    refine confined.opcode.bind fun opcode _ => ?_
    by_cases closure : opcode = .closure
    · rw [if_pos closure]
      refine confined.a.bind fun number _ => ?_
      split
      · exact confined.text.bind fun _ _ => stops_fail (missing _ _ _)
      · exact .ok ()
    · rw [if_neg closure]
      exact .ok ()

theorem stops_noteStep (watch : Watch) (confined : instruction.Confined allowed)
    (waiting : ∀ node ∈ pending, node.instruction.Confined allowed) (pops pushes : Int) :
    Stops allowed (noteStep watch instruction index pops pushes pending).outcome := by
  rw [noteStep]
  by_cases detailed : watch.detailed = true
  · simp only [if_pos detailed, Traced.outcome_bind, Traced.outcome_ofExcept]
    refine confined.text.bind fun _ _ => Stops.bind (.mapM fun node member => ?_) fun _ _ => .ok ()
    exact (waiting node (List.mem_reverse.mp member)).text
  · rw [if_neg detailed]
    exact .ok ()

theorem stops_close (waiting : ∀ node ∈ pending, node.instruction.Confined allowed)
    (residue : ∀ node ∈ pending, ∀ values,
      allowed (.malformed (.residue values) (some node.index) none)) (statements : List Node) :
    Stops allowed (close pending statements) := by
  unfold close
  split
  · exact .ok _
  · rename_i oldest others reversed
    have among (node : Node) (member : node ∈ oldest :: others) : node ∈ pending := by
      rw [← reversed] at member
      exact List.mem_reverse.mp member
    refine Stops.bind (.mapM fun node member => ?_) fun values _ => ?_
    · exact (waiting node (among node member)).text.bind fun _ _ => .ok _
    · exact stops_fail (residue oldest (among oldest List.mem_cons_self) values)

/-- Replaying some code stops at no other faults than its instructions, and the producers that are
pending before it, may give rise to. -/
theorem stops_replay (watch : Watch) {code : List Instruction}
    (each : ∀ item ∈ numbered index code, item.2.BuiltAt allowed item.1)
    (waiting : ∀ node ∈ pending, node.instruction.BuiltAt allowed node.index) :
    Stops allowed (replay watch pending statements index code).outcome := by
  induction pending, statements, index, code using replay.induct with
  | case1 pending statements index =>
    rw [replay]
    exact stops_close (fun node member => (waiting node member).reads)
      (fun node member _ => (waiting node member).malformed _ rfl) statements
  | case2 pending statements index instruction code ihBody ihStatement ihProducer =>
    rw [numbered_cons] at each
    obtain ⟨here, behind⟩ := List.forall_mem_cons.mp each
    have reads := here.reads
    have before (node : Node) (member : node ∈ pending) := (waiting node member).reads
    rw [replay]
    simp only [Traced.outcome_bind, Traced.outcome_ofExcept]
    refine reads.pushes.bind fun pushed _ => reads.pops.bind fun needed _ =>
      (stops_noteStep watch reads before _ _).bind fun _ _ =>
      (stops_checkClosure watch reads fun _ _ _ => here.malformed _ rfl).bind fun _ _ =>
      (stops_consume reads before (fun _ _ _ => here.malformed _ rfl) needed).bind
        fun taken consumed => ?_
    obtain ⟨operands, left⟩ := taken
    refine (stops_skipped reads (fun _ _ => here.malformed _ rfl) code.length).bind fun skip owned => ?_
    have fits := skipped_le owned
    rw [← List.take_append_drop skip code, numbered_append, List.length_take_of_le fits] at behind
    obtain ⟨own, rest⟩ := List.forall_mem_append.mp behind
    refine (ihBody skip own (List.forall_mem_nil _)).bind fun body _ => ?_
    have kept : ∀ node ∈ left, node.instruction.BuiltAt allowed node.index := by
      intro node member
      apply waiting node
      rw [← consume_append consumed]
      exact List.mem_append_right _ member
    by_cases leaves : pushed = 0
    · rw [if_pos leaves]
      exact ihStatement operands left skip body rest kept
    · rw [if_neg leaves]
      exact ihProducer operands left skip body rest (List.forall_mem_cons.mpr ⟨here, kept⟩)

theorem stops_build (watch : Watch) {code : List Instruction}
    (each : ∀ item ∈ numbered base code, item.2.BuiltAt allowed item.1) :
    Stops allowed (build watch base code).outcome :=
  stops_replay watch each (List.forall_mem_nil _)

end Forest

end LuaLift
