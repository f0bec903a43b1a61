import LuaLift.Node.Forest
import LuaLift.Proofs.Agree
import LuaLift.Proofs.Instruction.Operands
import LuaLift.Proofs.Nested

/-! Forests of two stretches of code with the same instructions. Where one can be built so can the
other, and the trees are alike; where one cannot, both stop at the same fault. -/
namespace LuaLift

namespace Node

/-- Trees of one shape, with the same instructions at the same places. -/
inductive Alike : Node → Node → Prop where
  | node {left right : Node} (instruction : left.instruction.Same right.instruction)
      (children : List.Forall₂ Alike left.children right.children)
      (index : left.index = right.index) : Alike left right

@[elab_as_elim]
theorem induct {motive : Node → Prop}
    (step : ∀ node, (∀ child ∈ node.children, motive child) → motive node)
    (node : Node) : motive node := by
  refine Nested.induct (fun outer => ?_) step node
  cases outer
  simp only [mk.sizeOf_spec]
  omega

/-- What holds of the empty forest, and of a tree before others where it holds of the trees below
it and of those others, holds of every forest. -/
@[elab_as_elim]
theorem induct_forest {motive : List Node → Prop} (nil : motive [])
    (cons : ∀ node rest, motive node.children → motive rest → motive (node :: rest)) :
    ∀ forest, motive forest := by
  intro forest
  induction forest with
  | nil => exact nil
  | cons node rest ih =>
    refine cons node rest ?_ ih
    clear ih
    induction node using induct with
    | step node below =>
      generalize node.children = children at below
      induction children with
      | nil => exact nil
      | cons child others ih =>
        obtain ⟨own, behind⟩ := List.forall_mem_cons.mp below
        exact cons child others own (ih behind)

theorem Alike.instruction {left right : Node} (alike : left.Alike right) :
    left.instruction.Same right.instruction := by
  cases alike
  assumption

theorem Alike.index {left right : Node} (alike : left.Alike right) : left.index = right.index := by
  cases alike
  assumption

theorem Alike.children {left right : Node} (alike : left.Alike right) :
    List.Forall₂ Alike left.children right.children := by
  cases alike
  assumption

/-- What was taken and what was left is related, and as much is missing. -/
structure Taken (related : α → β → Prop) (first : List α × List α × Int)
    (second : List β × List β × Int) : Prop where
  operands : List.Forall₂ related first.1 second.1
  others : List.Forall₂ related first.2.1 second.2.1
  missing : first.2.2 = second.2.2

theorem takePushed_agree {related : α → β → Prop} {pushes : α → Except Fault Int}
    {other : β → Except Fault Int}
    (same : ∀ {left right}, related left right → pushes left = other right)
    {items : List α} {others : List β} (alike : List.Forall₂ related items others) (needed : Int) :
    Agree (Taken related) (takePushed pushes needed items) (takePushed other needed others) := by
  induction alike generalizing needed with
  | nil => exact .ok ⟨.nil, .nil, rfl⟩
  | cons here rest ih =>
    rw [takePushed, takePushed]
    by_cases full : needed ≤ 0
    · rw [if_pos full, if_pos full]
      exact .ok ⟨.nil, .cons here rest, rfl⟩
    · rw [if_neg full, if_neg full]
      refine .bind_same (same here) fun pushed _ => ?_
      refine (ih (needed - pushed)).bind fun taken => ?_
      exact .ok ⟨.cons here taken.operands, taken.others, taken.missing⟩

end Node

namespace Forest

variable {left right : Instruction} {pending others statements finished : List Node}

private theorem shown_of_alike (alike : List.Forall₂ Node.Alike pending others) :
    (∀ node ∈ pending, ∃ text, node.instruction.text = .ok text) ∧
      ∀ node ∈ others, ∃ text, node.instruction.text = .ok text := by
  induction alike with
  | nil => exact ⟨nofun, nofun⟩
  | cons here rest ih =>
    obtain ⟨shown, leftShown, rightShown⟩ := here.instruction.text
    exact ⟨List.forall_mem_cons.mpr ⟨⟨shown, leftShown⟩, ih.1⟩,
      List.forall_mem_cons.mpr ⟨⟨shown, rightShown⟩, ih.2⟩⟩

private theorem consume_agree (same : left.Same right)
    (alike : List.Forall₂ Node.Alike pending others) (index pops : Int) :
    Agree (fun first second => List.Forall₂ Node.Alike first.1 second.1 ∧
      List.Forall₂ Node.Alike first.2 second.2)
      (consume left index pops pending) (consume right index pops others) := by
  refine (Node.takePushed_agree (fun node => node.instruction.pushes_eq) alike pops).bind
    fun {first second} taken => ?_
  obtain ⟨operands, kept, missing⟩ := first
  obtain ⟨otherOperands, otherKept, otherMissing⟩ := second
  obtain rfl : missing = otherMissing := taken.missing
  by_cases short : 0 < missing
  · obtain ⟨shown, leftShown, rightShown⟩ := same.text
    simp only [if_pos short, leftShown, rightShown]
    exact .error _
  · simp only [if_neg short]
    exact .ok ⟨taken.operands, taken.others⟩

private theorem skipped_eq (same : left.Same right) (index : Int) (available : Nat) :
    skipped left index available = skipped right index available := by
  obtain ⟨shown, leftShown, rightShown⟩ := same.text
  apply Agree.eq
  rw [skipped, skipped, leftShown, rightShown]
  refine .bind_same same.skipsAhead_eq fun ahead known => ?_
  cases ahead with
  | false => exact .of_eq rfl
  | true => exact .bind_same (same.s_eq_of_skipsAhead known) fun distance _ => .of_eq rfl

private theorem checkClosure_eq {watch other : Watch}
    (prototypes : watch.prototypes = other.prototypes) (same : left.Same right) (index : Int) :
    checkClosure watch left index = checkClosure other right index := by
  obtain ⟨shown, leftShown, rightShown⟩ := same.text
  rw [checkClosure, checkClosure, prototypes, leftShown, rightShown]
  cases other.prototypes with
  | none => rfl
  | some available =>
    apply Agree.eq
    refine .bind_same same.opcode_eq fun opcode known => ?_
    by_cases closure : opcode = .closure
    · subst opcode
      obtain ⟨⟨number, reads, also⟩, _⟩ := same.shares known
      simp only [reads, also]
      exact .of_eq rfl
    · simp only [if_neg closure]
      exact .of_eq rfl

/-- What is noted in the journal is always known. -/
theorem outcome_noteStep (watch : Watch) (index pops pushes : Int)
    (shown : ∃ text, left.text = .ok text)
    (waiting : ∀ node ∈ pending, ∃ text, node.instruction.text = .ok text) :
    (noteStep watch left index pops pushes pending).outcome = .ok () := by
  obtain ⟨text, shown⟩ := shown
  obtain ⟨texts, listed⟩ := exists_mapM fun node member => waiting node (List.mem_reverse.mp member)
  rw [noteStep]
  by_cases detailed : watch.detailed = true
  · simp only [if_pos detailed, Traced.outcome_bind, Traced.outcome_ofExcept, shown, listed]
    rfl
  · rw [if_neg detailed]
    rfl

private theorem close_agree (alike : List.Forall₂ Node.Alike pending others)
    (done : List.Forall₂ Node.Alike statements finished) :
    Agree (List.Forall₂ Node.Alike) (close pending statements) (close others finished) := by
  have reversed : List.Forall₂ Node.Alike pending.reverse others.reverse :=
    List.forall₂_reverse_iff.mpr alike
  have value {node other : Node} (alike : node.Alike other) :
      (do pure (node.index, ← node.instruction.text) : Except Fault (Int × Text)) =
        (do pure (other.index, ← other.instruction.text)) := by
    obtain ⟨shown, leftShown, rightShown⟩ := alike.instruction.text
    rw [alike.index, leftShown, rightShown]
  rw [close, close]
  generalize pending.reverse = waiting at reversed
  generalize others.reverse = remaining at reversed
  cases reversed with
  | nil => exact .ok (List.forall₂_reverse_iff.mpr done)
  | cons oldest rest =>
    dsimp only
    rw [oldest.index]
    exact .bind_same (Agree.mapM_eq (.cons oldest rest) value) fun values _ => .error _

/-- Two stretches of code with the same instructions, replayed with producers and statements before
them that are alike. -/
theorem replay_agree {watch other : Watch} (prototypes : watch.prototypes = other.prototypes)
    {code rest : List Instruction} (same : List.Forall₂ Instruction.Same code rest)
    (alike : List.Forall₂ Node.Alike pending others)
    (done : List.Forall₂ Node.Alike statements finished) (index : Int) :
    Agree (List.Forall₂ Node.Alike) (replay watch pending statements index code).outcome
      (replay other others finished index rest).outcome := by
  induction pending, statements, index, code using replay.induct generalizing others finished rest with
  | case1 pending statements index =>
    cases same
    rw [replay, replay]
    exact close_agree alike done
  | case2 pending statements index left code ihBody ihStatement ihProducer =>
    cases same with
    | @cons _ right _ rest here behind =>
      obtain ⟨shown, leftShown, rightShown⟩ := here.text
      obtain ⟨waiting, remaining⟩ := shown_of_alike alike
      rw [replay, replay]
      simp only [Traced.outcome_bind, Traced.outcome_ofExcept]
      refine .bind_same here.pushes_eq fun pushed _ => .bind_same here.pops_eq fun needed _ => ?_
      rw [outcome_noteStep watch _ _ _ ⟨shown, leftShown⟩ waiting,
        outcome_noteStep other _ _ _ ⟨shown, rightShown⟩ remaining]
      refine .bind_same rfl fun _ _ => .bind_same (checkClosure_eq prototypes here index) fun _ _ => ?_
      refine (consume_agree here alike index needed).bind fun taken => ?_
      rw [behind.length_eq]
      refine .bind_same (skipped_eq here index _) fun skip _ => ?_
      refine (ihBody skip (List.forall₂_take skip behind) .nil .nil).bind
        fun {body otherBody} nested => ?_
      have node : Node.Alike ⟨left, _ ++ body, index⟩ ⟨right, _ ++ otherBody, index⟩ :=
        .node here (List.rel_append taken.1 nested) rfl
      by_cases leaves : pushed = 0
      · rw [if_pos leaves, if_pos leaves]
        exact ihStatement _ _ skip body (List.forall₂_drop skip behind) taken.2 (.cons node done)
      · rw [if_neg leaves, if_neg leaves]
        exact ihProducer _ _ skip body (List.forall₂_drop skip behind) (.cons node taken.2) done

theorem build_agree {watch other : Watch} (prototypes : watch.prototypes = other.prototypes)
    {code rest : List Instruction} (same : List.Forall₂ Instruction.Same code rest) (base : Int) :
    Agree (List.Forall₂ Node.Alike) (build watch base code).outcome
      (build other base rest).outcome :=
  replay_agree prototypes same .nil .nil base

end Forest

end LuaLift
