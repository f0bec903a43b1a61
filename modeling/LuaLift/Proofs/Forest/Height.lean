import LuaLift.Proofs.Forest.Replay
import Mathlib

/-! Which code has a forest. Where no instruction leaves more than one value it is enough to count
the values on the stack: every block begins and ends with none, and what a jump may skip is a block
inside the one around it. -/
namespace LuaLift

namespace Instruction

variable {instruction : Instruction}

/-- How many of the instructions behind this one it may skip. -/
def reach (instruction : Instruction) : Except Fault Nat := do
  if ← instruction.skipsAhead then pure (← instruction.s).toNat else pure 0

private theorem reach_of_stays (stays : instruction.skipsAhead = .ok false) :
    instruction.reach = .ok 0 := by
  rw [reach, stays]
  rfl

private theorem reach_of_ahead (ahead : instruction.skipsAhead = .ok true)
    (reads : instruction.s = .ok distance) : instruction.reach = .ok distance.toNat := by
  rw [reach, ahead, reads]
  rfl

/-- An instruction whose word is no negative number, and that leaves one value or none. -/
structure Counted (instruction : Instruction) : Prop where
  nonneg : 0 ≤ instruction.raw
  single : ∀ pushed, instruction.pushes = .ok pushed → pushed ≤ 1

instance (instruction : Instruction) : Decidable instruction.Counted :=
  decidable_of_iff (0 ≤ instruction.raw ∧ ∀ pushed, instruction.pushes = .ok pushed → pushed ≤ 1)
    ⟨fun ⟨nonneg, single⟩ => ⟨nonneg, single⟩, fun counted => ⟨counted.nonneg, counted.single⟩⟩

private theorem Counted.pushes_eq_one (counted : instruction.Counted)
    (pushes : instruction.pushes = .ok pushed) (leaves : pushed ≠ 0) : pushed = 1 := by
  have most := counted.single pushed pushes
  have least := nonneg_of_pushes counted.nonneg pushes
  omega

private theorem nonneg_of_pops (nonneg : 0 ≤ instruction.raw)
    (pops : instruction.pops = .ok needed) :
    0 ≤ needed := by
  obtain ⟨opcode, known, _⟩ := bind_eq_ok.mp pops
  rw [pops_of_opcode known] at pops
  exact nonneg_of_count nonneg pops

end Instruction

namespace Forest

/-- Whether a block can be left without a value, if it is entered with a number of values on the
stack. -/
def balanced (height : Nat) : List Instruction → Bool
  | [] => height = 0
  | instruction :: rest =>
    match instruction.pops, instruction.pushes, instruction.reach with
    | .ok pops, .ok pushes, .ok reach =>
      pops ≤ height && reach ≤ rest.length && balanced 0 (rest.take reach) &&
        balanced (height - pops.toNat + pushes.toNat) (rest.drop reach)
    | _, _, _ => false
termination_by code => code.length
decreasing_by all_goals simp only [List.length_take, List.length_drop, List.length_cons]; omega

variable {instruction : Instruction} {pending operands left statements : List Node}
  {code : List Instruction} {height : Nat} {index : Int}

private theorem balanced_cons : balanced height (instruction :: code) = true ↔
    ∃ pops pushes reach, instruction.pops = .ok pops ∧ instruction.pushes = .ok pushes ∧
      instruction.reach = .ok reach ∧ pops ≤ height ∧ reach ≤ code.length ∧
      balanced 0 (code.take reach) = true ∧
      balanced (height - pops.toNat + pushes.toNat) (code.drop reach) = true := by
  rw [balanced]
  split
  · rename_i pops pushes reach popped pushed reached
    simp [popped, pushed, reached, and_assoc]
  · rename_i unread
    constructor
    · exact nofun
    · rintro ⟨pops, pushes, reach, popped, pushed, reached, _⟩
      exact (unread pops pushes reach popped pushed reached).elim

/-- A jump owns the code that it may skip, if there is as much. -/
theorem skipped_eq_ok_iff_reach : skipped instruction index available = .ok count ↔
    instruction.reach = .ok count ∧ count ≤ available := by
  rw [skipped_eq_ok]
  constructor
  · rintro (⟨stays, rfl⟩ | ⟨ahead, reads, fits⟩)
    · exact ⟨Instruction.reach_of_stays stays, Nat.zero_le _⟩
    · exact ⟨Instruction.reach_of_ahead ahead reads, fits⟩
  · rintro ⟨reached, fits⟩
    obtain ⟨ahead, known, _⟩ := bind_eq_ok.mp reached
    cases ahead with
    | false =>
      rw [Instruction.reach_of_stays known] at reached
      exact .inl ⟨known, (Except.ok.inj reached).symm⟩
    | true =>
      obtain ⟨_, distance, reads, positive⟩ := Instruction.skipsAhead_eq_true.mp known
      rw [Instruction.reach_of_ahead known reads] at reached
      obtain rfl := Except.ok.inj reached
      refine .inr ⟨known, ?_, fits⟩
      rw [reads]
      exact congrArg Except.ok (Int.toNat_of_nonneg (Int.le_of_lt positive)).symm

/-- Where every producer leaves one value, as many producers are taken as values are needed. -/
theorem consume_of_single (single : ∀ node ∈ pending, node.instruction.pushes = .ok 1)
    (enough : count ≤ pending.length) (instruction : Instruction) (index : Int) :
    consume instruction index count pending = .ok (pending.take count, pending.drop count) := by
  have front : ∀ node ∈ pending.take count, node.instruction.pushes = .ok 1 :=
    fun node member => single node (List.mem_of_mem_take member)
  have all := Node.takePushed_of_single front
  rw [List.length_take_of_le enough] at all
  have taken := Node.takePushed_stop all (Int.le_refl 0) (pending.drop count)
  rw [List.take_append_drop] at taken
  exact consume_eq_ok.mpr ⟨0, Int.le_refl 0, taken⟩

private theorem single_of_consume (single : ∀ node ∈ pending, node.instruction.pushes = .ok 1)
    (consumed : consume instruction index needed pending = .ok (operands, left)) :
    ∀ node ∈ left, node.instruction.pushes = .ok 1 := by
  intro node member
  apply single node
  rw [← consume_append consumed]
  exact List.mem_append_right _ member

/-- The number of pending producers goes down by the values that are needed, which are there. -/
theorem height_of_consume (single : ∀ node ∈ pending, node.instruction.pushes = .ok 1)
    (consumed : consume instruction index needed pending = .ok (operands, left)) :
    needed ≤ pending.length ∧ left.length = pending.length - needed.toNat := by
  have taken := length_of_consume single consumed
  have whole := congrArg List.length (consume_append consumed)
  rw [List.length_append] at whole
  omega

/-- Replaying code keeps the number of pending producers at the height that is counted. -/
theorem Replay.counts (trace : Replay rule pending index code statements)
    (counted : ∀ instruction ∈ code, instruction.Counted)
    (single : ∀ node ∈ pending, node.instruction.pushes = .ok 1) :
    balanced pending.length code = true := by
  induction trace with
  | done => simp [balanced]
  | @producer instruction pushed needed index pending operands left statements code pushes leaves
      pops consumed rest ih =>
    obtain ⟨here, behind⟩ := List.forall_mem_cons.mp counted
    obtain rfl := here.pushes_eq_one pushes leaves
    have stays := Instruction.skipsAhead_of_not_jump (Instruction.isJump_of_pushes pushes leaves)
    obtain ⟨enough, height⟩ := height_of_consume single consumed
    have next := ih behind (List.forall_mem_cons.mpr ⟨pushes, single_of_consume single consumed⟩)
    rw [List.length_cons, height] at next
    refine balanced_cons.mpr ⟨needed, 1, 0, pops, pushes, Instruction.reach_of_stays stays, enough,
      Nat.zero_le _, ?_, ?_⟩
    · simp [balanced]
    · simpa using next
  | @statement instruction needed index pending operands left nested statements inner outer pushes
      pops consumed owned allowed body rest ihBody ihRest =>
    obtain ⟨here, behind⟩ := List.forall_mem_cons.mp counted
    obtain ⟨inside, after⟩ := List.forall_mem_append.mp behind
    obtain ⟨enough, height⟩ := height_of_consume single consumed
    obtain ⟨reached, fits⟩ := skipped_eq_ok_iff_reach.mp owned
    have block := ihBody inside (List.forall_mem_nil _)
    have next := ihRest after (single_of_consume single consumed)
    rw [height] at next
    refine balanced_cons.mpr ⟨needed, 0, inner.length, pops, pushes, reached, enough, fits, ?_, ?_⟩
    · simpa using block
    · simpa using next

/-- Code that is balanced can be replayed from as many producers as are counted. -/
theorem exists_replay (holds : balanced height code = true)
    (counted : ∀ instruction ∈ code, instruction.Counted)
    (single : ∀ node ∈ pending, node.instruction.pushes = .ok 1)
    (size : pending.length = height) (index : Int) :
    ∃ statements, Replay (fun _ => True) pending index code statements := by
  induction height, code using balanced.induct generalizing pending index with
  | case1 height =>
    have none : height = 0 := by simpa [balanced] using holds
    obtain rfl := List.length_eq_zero_iff.mp (size.trans none)
    exact ⟨[], .done⟩
  | case2 height instruction code pops pushes reach reached pushed popped ihBlock ihRest =>
    obtain ⟨needed, leaves, count, takes, gives, owns, enough, fits, block, behind⟩ :=
      balanced_cons.mp holds
    obtain rfl := Except.ok.inj (popped.symm.trans takes)
    obtain rfl := Except.ok.inj (pushed.symm.trans gives)
    obtain rfl := Except.ok.inj (reached.symm.trans owns)
    obtain ⟨here, later⟩ := List.forall_mem_cons.mp counted
    obtain ⟨needed, rfl⟩ := Int.eq_ofNat_of_zero_le (Instruction.nonneg_of_pops here.nonneg popped)
    subst size
    have consumed := consume_of_single single (Int.ofNat_le.mp enough) instruction index
    have kept := single_of_consume single consumed
    rw [← List.take_append_drop reach code] at later
    obtain ⟨inside, after⟩ := List.forall_mem_append.mp later
    by_cases none : pushes = 0
    · subst none
      have length : (code.take reach).length = reach := List.length_take_of_le fits
      have owned : skipped instruction index (code.take reach ++ code.drop reach).length =
          .ok (code.take reach).length := by
        rw [List.take_append_drop, length]
        exact skipped_eq_ok_iff_reach.mpr ⟨reached, fits⟩
      obtain ⟨nested, body⟩ := ihBlock block inside (List.forall_mem_nil _) rfl (index + 1)
      obtain ⟨statements, rest⟩ := ihRest behind after kept (by simp)
        (index + 1 + (code.take reach).length)
      rw [← List.take_append_drop reach code]
      exact ⟨_, .statement pushed popped consumed owned trivial body rest⟩
    · obtain rfl := here.pushes_eq_one pushed none
      have stays := Instruction.skipsAhead_of_not_jump (Instruction.isJump_of_pushes pushed none)
      obtain rfl := Except.ok.inj (reached.symm.trans (Instruction.reach_of_stays stays))
      have waiting : ∀ node ∈ (⟨instruction, pending.take needed, index⟩ :: pending.drop needed :
          List Node), node.instruction.pushes = .ok 1 := List.forall_mem_cons.mpr ⟨pushed, kept⟩
      obtain ⟨statements, rest⟩ := ihRest behind after waiting (by simp) (index + 1)
      exact ⟨statements, .producer pushed none popped consumed rest⟩
  | case3 height instruction code unread =>
    obtain ⟨pops, pushes, reach, popped, pushed, reached, _⟩ := balanced_cons.mp holds
    exact (unread pops pushes reach popped pushed reached).elim

/-- Where every instruction leaves one value or none, the code has a forest exactly if it passes
the check of its blocks, which tracks nothing but a number. -/
theorem build_iff_balanced (counted : ∀ instruction ∈ code, instruction.Counted) (base : Int) :
    (∃ forest, (build {} base code).outcome = .ok forest) ↔ balanced 0 code = true := by
  constructor
  · rintro ⟨forest, built⟩
    exact (build_sound built).counts counted (List.forall_mem_nil _)
  · intro holds
    obtain ⟨forest, trace⟩ := exists_replay holds counted (List.forall_mem_nil _) rfl base
    exact ⟨forest, build_eq_ok_iff.mpr trace⟩

/-- A condition over an assignment, and one over a value that is assigned behind its block. -/
theorem build_iff_balanced_of_blocks :
    let whole : List Instruction := [⟨12, {}⟩, ⟨2147483750, {}⟩, ⟨2147483654, {}⟩, ⟨19, {}⟩]
    let torn : List Instruction := [⟨12, {}⟩, ⟨2147483686, {}⟩, ⟨2147483654, {}⟩, ⟨19, {}⟩]
    (∀ instruction ∈ whole ++ torn, instruction.Counted) ∧
      (balanced 0 whole = true ∧ ∃ forest, (build {} 3 whole).outcome = .ok forest) ∧
      (balanced 0 torn = false ∧ ¬ ∃ forest, (build {} 3 torn).outcome = .ok forest) := by
  intro whole torn
  have counted : ∀ instruction ∈ whole ++ torn, instruction.Counted := by decide
  obtain ⟨left, right⟩ := List.forall_mem_append.mp counted
  have built : (build {} 3 whole).outcome = .ok [⟨⟨2147483750, {}⟩, [⟨⟨12, {}⟩, [], 3⟩,
      ⟨⟨19, {}⟩, [⟨⟨2147483654, {}⟩, [], 5⟩], 6⟩], 4⟩] := by cbv
  have residue : (build {} 3 torn).outcome =
      .error (.malformed (.residue [(5, "PUSH_INT(1)")]) (some 5) none) := by cbv
  have refused : ¬ ∃ forest, (build {} 3 torn).outcome = .ok forest := by
    rintro ⟨forest, found⟩
    cases residue.symm.trans found
  exact ⟨counted, ⟨(build_iff_balanced left 3).mp ⟨_, built⟩, _, built⟩,
    Bool.eq_false_iff.mpr fun passes => refused ((build_iff_balanced right 3).mpr passes), refused⟩

end Forest

end LuaLift
