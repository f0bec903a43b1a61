import LuaLift.Proofs.Forest.ProgramOrder
import LuaLift.Proofs.Machine

/-! Executing a forest comes to what the machine comes to on the code. The pending producers of a
derivation stand for the stack: running them as they were pushed gives the machine's state and the
values on its stack. -/
namespace LuaLift

namespace Meaning

variable {State Value : Type} (meaning : Meaning State Value) {instruction : Instruction}

private theorem Reaches.head {meaning : Meaning State Value} {code : List Instruction}
    {start middle final : Config State Value} (moves : meaning.step code start = some middle)
    (rest : meaning.Reaches code middle final) : meaning.Reaches code start final :=
  Relation.ReflTransGen.head moves rest

theorem Reaches.trans {meaning : Meaning State Value} {code : List Instruction}
    {start middle final : Config State Value} (first : meaning.Reaches code start middle)
    (rest : meaning.Reaches code middle final) : meaning.Reaches code start final :=
  Relation.ReflTransGen.trans first rest

/-- The machine can come to rest in one way only. -/
theorem Halts.unique {meaning : Meaning State Value} {code : List Instruction}
    {start first second : Config State Value} (one : meaning.Halts code start first)
    (other : meaning.Halts code start second) : first = second := by
  have stuck {final next : Config State Value} (rests : meaning.step code final = none)
      (path : meaning.Reaches code final next) : final = next := by
    rcases Relation.ReflTransGen.cases_head path with same | ⟨middle, moves, _⟩
    · exact same
    · rw [rests] at moves
      cases moves
  have deterministic : Relator.RightUnique fun before after : Config State Value =>
      meaning.step code before = some after := by
    intro before left right toLeft toRight
    exact Option.some.inj (toLeft.symm.trans toRight)
  rcases Relation.ReflTransGen.total_of_right_unique deterministic one.1 other.1 with path | path
  · exact stuck one.2 path
  · exact (stuck other.2 path).symm

private theorem inTurn_append (before after : List (State → State × List Value)) (state : State) :
    inTurn (before ++ after) state =
      ((inTurn after (inTurn before state).1).1,
        (inTurn after (inTurn before state).1).2 ++ (inTurn before state).2) := by
  induction before generalizing state with
  | nil => simp [inTurn]
  | cons action rest ih => simp [inTurn, ih]

private theorem runNodes_append (before after : List Node) (state : State) :
    meaning.runNodes (before ++ after) state =
      ((meaning.runNodes after (meaning.runNodes before state).1).1,
        (meaning.runNodes after (meaning.runNodes before state).1).2 ++
          (meaning.runNodes before state).2) := by
  simp only [runNodes, List.map_append, inTurn_append]

@[simp] theorem runNodes_nil (state : State) : meaning.runNodes [] state = (state, []) := rfl

private theorem runNodes_cons (node : Node) (rest : List Node) (state : State) :
    meaning.runNodes (node :: rest) state =
      ((meaning.runNodes rest (meaning.runNode node state).1).1,
        (meaning.runNodes rest (meaning.runNode node state).1).2 ++
          (meaning.runNode node state).2) := rfl

private theorem runNode_eq (node : Node) (state : State) :
    meaning.runNode node state =
      (let ready := meaning.runNodes node.operands.reverse state
       let after := meaning.perform node.instruction ready.1 ready.2
       (if after.taken then after.state else (meaning.runNodes node.body after.state).1,
         after.pushed)) := by
  rw [runNode, Node.fold_eq]
  rfl

private theorem perform_producer (pushes : instruction.pushes = .ok 1) (state : State)
    (popped : List Value) :
    (meaning.perform instruction state popped).pushed.length = 1 ∧
      (meaning.perform instruction state popped).taken = false := by
  have stays := Instruction.isJump_of_pushes pushes (by decide)
  simp [perform, stays, pushes, Except.toOption]

private theorem perform_statement (pushes : instruction.pushes = .ok 0) (state : State)
    (popped : List Value) : (meaning.perform instruction state popped).pushed = [] := by
  have none : instruction.pushes.toOption ≠ some 1 := by
    simp [pushes, Except.toOption]
  by_cases jumps : instruction.isJump.toOption = some true
  · simp [perform, jumps]
  · simp [perform, jumps, none]

/-- Only jumps are taken. -/
theorem isJump_of_taken {state : State} {popped : List Value}
    (taken : (meaning.perform instruction state popped).taken = true) :
    instruction.isJump = .ok true := by
  by_cases jumps : instruction.isJump.toOption = some true
  · cases known : instruction.isJump with
    | error fault => simp [known, Except.toOption] at jumps
    | ok flag => simpa [known, Except.toOption] using jumps
  · by_cases single : instruction.pushes.toOption = some 1 <;> simp [perform, jumps, single] at taken

private theorem length_runNodes {nodes : List Node}
    (single : ∀ node ∈ nodes, node.instruction.pushes = .ok 1) (state : State) :
    (meaning.runNodes nodes state).2.length = nodes.length := by
  induction nodes generalizing state with
  | nil => rfl
  | cons node rest ih =>
    have own : (meaning.runNode node state).2.length = 1 := by
      rw [runNode_eq]
      exact (meaning.perform_producer (single node (by simp)) _ _).1
    have others := ih (fun later member => single later (by simp [member]))
      (meaning.runNode node state).1
    rw [runNodes_cons]
    simp [own, others]

variable {code : List Instruction} {counter : Nat} {popped : List Value} {state : State}
  (below : List Value)

/-- On a stack that is high enough, a plain instruction takes its values from the top and hands
over to its successor or, where it jumps, to its target. -/
theorem step_eq (found : code[counter]? = some instruction) (plain : instruction.Plain)
    (pushes : instruction.pushes = .ok pushed) (pops : instruction.pops = .ok needed)
    (enough : popped.length = needed.toNat) :
    meaning.step code ⟨counter, popped ++ below, state⟩ =
      (let after := meaning.perform instruction state popped
       if after.taken then do
         let distance ← instruction.s.toOption
         let target : Int := counter + 1 + distance
         if target < 0 then none else some ⟨target.toNat, after.pushed ++ below, after.state⟩
       else some ⟨counter + 1, after.pushed ++ below, after.state⟩) := by
  obtain ⟨opcode, known⟩ := Instruction.opcode_of_pushes pushes
  obtain ⟨noLoop, noSkip⟩ := plain.straight opcode known
  have few : ¬ 1 < pushed := by
    have most := plain.single pushed pushes
    omega
  have high : ¬ ((popped ++ below).length : Int) < needed := by
    rw [List.length_append]
    omega
  simp only [step, found, known, pushes, pops, Except.toOption, noLoop, noSkip, few, high,
    Option.bind_eq_bind, Option.bind_some, decide_false, Bool.or_self, Bool.false_eq_true,
    ↓reduceIte, ← enough, List.take_left, List.drop_left]

private theorem step_next (found : code[counter]? = some instruction) (plain : instruction.Plain)
    (pushes : instruction.pushes = .ok pushed) (pops : instruction.pops = .ok needed)
    (enough : popped.length = needed.toNat)
    (stays : (meaning.perform instruction state popped).taken = false) :
    meaning.step code ⟨counter, popped ++ below, state⟩ =
      some ⟨counter + 1, (meaning.perform instruction state popped).pushed ++ below,
        (meaning.perform instruction state popped).state⟩ := by
  simp [meaning.step_eq below found plain pushes pops enough, stays]

private theorem step_jump (found : code[counter]? = some instruction) (plain : instruction.Plain)
    (pushes : instruction.pushes = .ok pushed) (pops : instruction.pops = .ok needed)
    (enough : popped.length = needed.toNat)
    (jumps : (meaning.perform instruction state popped).taken = true) {count : Nat}
    (distance : instruction.s = .ok (count : Int)) :
    meaning.step code ⟨counter, popped ++ below, state⟩ =
      some ⟨counter + 1 + count, (meaning.perform instruction state popped).pushed ++ below,
        (meaning.perform instruction state popped).state⟩ := by
  have ahead : ¬ (counter : Int) + 1 + count < 0 := by omega
  have target : ((counter : Int) + 1 + count).toNat = counter + 1 + count := by omega
  simp [meaning.step_eq below found plain pushes pops enough, jumps, distance, Except.toOption, ahead,
    target]

end Meaning

namespace Forest

variable {State Value : Type} (meaning : Meaning State Value) {instruction : Instruction}
  {pending operands left : List Node}

/-- A plain jump, taken, lands behind the instructions it owns. -/
theorem distance_of_skipped (plain : instruction.Plain) (jumps : instruction.isJump = .ok true)
    (owned : skipped instruction index available = .ok count) :
    instruction.s = .ok (count : Int) := by
  rcases skipped_eq_ok.mp owned with ⟨stays, rfl⟩ | ⟨_, distance, _⟩
  · simp only [Instruction.skipsAhead, jumps, bind_eq_ok, Except.ok.injEq, exists_eq_left',
      ↓reduceIte, pure_eq_ok, decide_eq_false_iff_not] at stays
    obtain ⟨distance, reads, near⟩ := stays
    have far := plain.forward jumps distance reads
    rw [reads]
    exact congrArg Except.ok (by omega)
  · exact distance

/-- The pending producers leave the values to be consumed above the others. -/
theorem runNodes_of_consume
    (consumed : consume instruction index needed pending = .ok (operands, left)) (origin : State) :
    meaning.runNodes pending.reverse origin =
      (let below := meaning.runNodes left.reverse origin
       let ready := meaning.runNodes operands.reverse below.1
       (ready.1, ready.2 ++ below.2)) := by
  rw [← consume_append consumed, List.reverse_append, Meaning.runNodes_append]

private theorem runNode_of_consume (pops : instruction.pops = .ok needed)
    (consumed : consume instruction index needed pending = .ok (operands, left))
    (nested : List Node) (position : Int) (state : State) :
    meaning.runNode ⟨instruction, operands ++ nested, position⟩ state =
      (let ready := meaning.runNodes operands.reverse state
       let after := meaning.perform instruction ready.1 ready.2
       (if after.taken then after.state else (meaning.runNodes nested after.state).1,
         after.pushed)) := by
  obtain ⟨sameOperands, sameBody⟩ := operands_of_consume pops consumed nested position
  rw [Meaning.runNode_eq, sameOperands, sameBody]

private theorem length_popped (single : ∀ node ∈ pending, node.instruction.pushes = .ok 1)
    (consumed : consume instruction index needed pending = .ok (operands, left)) (state : State) :
    (meaning.runNodes operands.reverse state).2.length = needed.toNat := by
  rw [meaning.length_runNodes, List.length_reverse, length_of_consume single consumed]
  intro node member
  apply single node
  rw [← consume_append consumed]
  exact List.mem_append_left _ (List.mem_reverse.mp member)

/-- The step of a producer puts its node's values where those of its operands were. -/
theorem step_producer (plain : instruction.Plain) (pushes : instruction.pushes = .ok 1)
    (pops : instruction.pops = .ok needed)
    (consumed : consume instruction index needed pending = .ok (operands, left))
    (single : ∀ node ∈ pending, node.instruction.pushes = .ok 1)
    (before behind : List Instruction) (origin : State) :
    meaning.step (before ++ instruction :: behind)
        ⟨before.length, (meaning.runNodes pending.reverse origin).2,
          (meaning.runNodes pending.reverse origin).1⟩ =
      some ⟨before.length + 1,
        (meaning.runNodes (⟨instruction, operands, index⟩ :: left : List Node).reverse origin).2,
        (meaning.runNodes (⟨instruction, operands, index⟩ :: left : List Node).reverse origin).1⟩ := by
  let below := meaning.runNodes left.reverse origin
  let ready := meaning.runNodes operands.reverse below.1
  have found : (before ++ instruction :: behind)[before.length]? = some instruction := by simp
  have enough : ready.2.length = needed.toNat := length_popped meaning single consumed below.1
  have stays := (meaning.perform_producer pushes ready.1 ready.2).2
  have own := runNode_of_consume meaning pops consumed [] index below.1
  rw [List.append_nil] at own
  rw [runNodes_of_consume meaning consumed, List.reverse_cons, Meaning.runNodes_append,
    Meaning.runNodes_cons, own]
  refine (meaning.step_next _ found plain pushes pops enough stays).trans ?_
  simp [ready, below]

/-- The step of a statement that takes all pending values leaves none, and hands over to the body or
to what follows it. -/
theorem step_statement (plain : instruction.Plain) (pushes : instruction.pushes = .ok 0)
    (pops : instruction.pops = .ok needed)
    (consumed : consume instruction index needed pending = .ok (pending, []))
    (owned : skipped instruction index available = .ok count)
    (single : ∀ node ∈ pending, node.instruction.pushes = .ok 1)
    (before behind : List Instruction) (origin : State) :
    meaning.step (before ++ instruction :: behind)
        ⟨before.length, (meaning.runNodes pending.reverse origin).2,
          (meaning.runNodes pending.reverse origin).1⟩ =
      (let ready := meaning.runNodes pending.reverse origin
       let after := meaning.perform instruction ready.1 ready.2
       some ⟨if after.taken then before.length + 1 + count else before.length + 1, [],
        after.state⟩) := by
  let ready := meaning.runNodes pending.reverse origin
  have found : (before ++ instruction :: behind)[before.length]? = some instruction := by simp
  have enough : ready.2.length = needed.toNat := length_popped meaning single consumed origin
  have nothing := meaning.perform_statement pushes ready.1 ready.2
  cases taken : (meaning.perform instruction ready.1 ready.2).taken with
  | true =>
    have distance := distance_of_skipped plain (meaning.isJump_of_taken taken) owned
    have moves := meaning.step_jump [] found plain pushes pops enough taken distance
    simpa [nothing, taken, ready] using moves
  | false =>
    have moves := meaning.step_next [] found plain pushes pops enough taken
    simpa [nothing, taken, ready] using moves

/-- The machine runs a stretch as its statements are executed, if its stack and state come from the
producers pending before the stretch. -/
theorem Replay.reaches (trace : Replay (· = []) pending index code statements)
    (plain : ∀ instruction ∈ code, instruction.Plain)
    (single : ∀ node ∈ pending, node.instruction.pushes = .ok 1)
    (before behind : List Instruction) (origin : State) :
    meaning.Reaches (before ++ (code ++ behind))
      ⟨before.length, (meaning.runNodes pending.reverse origin).2,
        (meaning.runNodes pending.reverse origin).1⟩
      ⟨before.length + code.length, [], meaning.runForest statements origin⟩ := by
  induction trace generalizing before behind origin with
  | done => exact .refl
  | @producer instruction pushed needed index pending operands left statements code pushes leaves
      pops consumed rest ih =>
    have here := plain instruction (by simp)
    have one : pushed = 1 := by
      have most := here.single pushed pushes
      have least := Instruction.nonneg_of_pushes here.nonneg pushes
      omega
    subst one
    have singleNext : ∀ node ∈ (⟨instruction, operands, index⟩ :: left : List Node),
        node.instruction.pushes = .ok 1 := by
      intro node member
      rcases List.mem_cons.mp member with same | earlier
      · subst node
        exact pushes
      · apply single node
        rw [← consume_append consumed]
        exact List.mem_append_right _ earlier
    have next := ih (fun other member => plain other (by simp [member])) singleNext
      (before ++ [instruction]) behind origin
    apply Meaning.Reaches.head
      (step_producer meaning here pushes pops consumed single before (code ++ behind) origin)
    simpa [Nat.add_assoc, Nat.add_comm 1] using next
  | @statement instruction needed index pending operands left nested statements inner outer pushes
      pops consumed owned allowed body rest ihBody ihRest =>
    subst left
    have same : operands = pending := by simpa using consume_append consumed
    subst same
    have here := plain instruction (by simp)
    let ready := meaning.runNodes operands.reverse origin
    let after := meaning.perform instruction ready.1 ready.2
    have own := runNode_of_consume meaning pops consumed nested index origin
    have later (state : State) := ihRest (fun other member => plain other (by simp [member]))
      (by simp) (before ++ instruction :: inner) behind state
    apply Meaning.Reaches.head (step_statement meaning here pushes pops consumed owned single before
      (inner ++ outer ++ behind) origin)
    have finish : meaning.runForest (⟨instruction, operands ++ nested, index⟩ :: statements) origin =
        meaning.runForest statements
          (if after.taken then after.state else meaning.runForest nested after.state) := by
      simp only [Meaning.runForest, Meaning.runNodes_cons, own, after, ready]
    rw [finish]
    -- a jump that is taken lands where its body ends, otherwise the body runs first
    cases taken : after.taken with
    | true => simpa [taken, after, ready, Nat.add_assoc, Nat.add_comm 1] using later after.state
    | false =>
      have nestedRun := ihBody (fun other member => plain other (by simp [member])) (by simp)
        (before ++ [instruction]) (outer ++ behind) after.state
      have laterRun := later (meaning.runForest nested after.state)
      have through : meaning.Reaches (before ++ (instruction :: (inner ++ outer) ++ behind))
          ⟨before.length + 1, [], after.state⟩
          ⟨before.length + 1 + inner.length, [], meaning.runForest nested after.state⟩ := by
        simpa using nestedRun
      apply Meaning.Reaches.trans
      · simpa [taken, after, ready] using through
      · simpa [Nat.add_assoc, Nat.add_comm 1] using laterRun

/-- Behind the code the machine has no step. -/
theorem step_behind (code : List Instruction) (stack : List Value) (state : State) :
    meaning.step code ⟨code.length, stack, state⟩ = none := by
  simp [Meaning.step]

/-- Where every statement is complete with nothing pending, running plain code comes to executing
its forest, under any meaning of the instructions. -/
theorem halts_iff_executed (built : (build watch base code).outcome = .ok forest)
    (settled : Settled base code) (plain : ∀ instruction ∈ code, instruction.Plain)
    (state : State) (final : Config State Value) :
    meaning.Halts code ⟨0, [], state⟩ final ↔
      final = ⟨code.length, [], meaning.runForest forest state⟩ := by
  have trace := settled.replay built
  have reaches := trace.reaches meaning plain (by simp) [] [] state
  have halts : meaning.Halts code ⟨0, [], state⟩
      ⟨code.length, [], meaning.runForest forest state⟩ :=
    ⟨by simpa using reaches, step_behind meaning code [] _⟩
  constructor
  · intro other
    exact other.unique halts
  · rintro rfl
    exact halts

/-- A jump inside what another jump may skip. The inner one is taken, the outer one is not. -/
theorem halts_of_nested_jumps :
    let outer : Instruction := ⟨2147483943, {}⟩
    let inner : Instruction := ⟨2147483745, {}⟩
    let code : List Instruction :=
      [⟨12, {}⟩, outer, ⟨76, {}⟩, ⟨2147483654, {}⟩, inner, ⟨2147484038, {}⟩, ⟨19, {}⟩, ⟨0, {}⟩]
    let meaning : Meaning (List Int) Int :=
      ⟨fun instruction state popped => instruction.raw :: popped ++ state,
        fun instruction state _ => (state, instruction.raw % 64),
        fun instruction state popped => (instruction.raw :: state, popped = [6, 12])⟩
    Settled 0 code ∧ (∀ instruction ∈ code, instruction.Plain) ∧
      ∀ final, meaning.Halts code ⟨0, [], []⟩ final ↔
        final = ⟨8, [], [0, inner.raw, outer.raw]⟩ := by
  intro outer inner code meaning
  let forest : List Node :=
    [⟨outer, [⟨⟨12, {}⟩, [], 0⟩, ⟨inner, [⟨⟨2147483654, {}⟩, [], 3⟩, ⟨⟨76, {}⟩, [], 2⟩,
      ⟨⟨19, {}⟩, [⟨⟨2147484038, {}⟩, [], 5⟩], 6⟩], 4⟩], 1⟩, ⟨⟨0, {}⟩, [], 7⟩]
  have built : (build {} 0 code).outcome = .ok forest := by cbv
  have ordered : Node.programOf forest = numbered 0 code := by cbv
  have settled := (program_eq_iff_settled built).mp ordered
  have plain : ∀ instruction ∈ code, instruction.Plain := by decide
  have executed : meaning.runForest forest [] = [0, inner.raw, outer.raw] := by cbv
  refine ⟨settled, plain, fun final => ?_⟩
  rw [← executed]
  exact halts_iff_executed meaning built settled plain [] final

end Forest

end LuaLift
