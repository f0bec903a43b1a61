import LuaLift.Node.Forest
import LuaLift.Proofs.Instruction.Effect

/-! Which producers become operands, and which instructions belong to a jump. -/
namespace LuaLift

namespace Node

variable {pushes : α → Except Fault Int}

/-- Operands come from the front, and nothing is lost. -/
theorem takePushed_append {items operands left : List α} {needed missing : Int}
    (taken : takePushed pushes needed items = .ok (operands, left, missing)) :
    operands ++ left = items := by
  induction items generalizing needed operands left missing with
  | nil =>
    simp only [takePushed, pure_eq_ok, Prod.mk.injEq] at taken
    obtain ⟨rfl, rfl, _⟩ := taken
    rfl
  | cons item rest ih =>
    simp only [takePushed] at taken
    split at taken
    · simp only [pure_eq_ok, Prod.mk.injEq] at taken
      obtain ⟨rfl, rfl, _⟩ := taken
      rfl
    · simp only [bind_eq_ok, pure_eq_ok, Prod.mk.injEq] at taken
      obtain ⟨pushed, _, ⟨operands, left, missing⟩, later, rfl, rfl, _⟩ := taken
      rw [List.cons_append, ih later]

/-- Where the operands suffice, taking stops behind them, whatever follows. -/
theorem takePushed_stop {items operands left : List α} {needed missing : Int}
    (taken : takePushed pushes needed items = .ok (operands, left, missing)) (enough : missing ≤ 0)
    (others : List α) :
    takePushed pushes needed (operands ++ others) = .ok (operands, others, missing) := by
  induction items generalizing needed operands left missing with
  | nil =>
    simp only [takePushed, pure_eq_ok, Prod.mk.injEq] at taken
    obtain ⟨rfl, _, rfl⟩ := taken
    cases others with
    | nil => rfl
    | cons other others => simp [takePushed, enough, pure, Except.pure]
  | cons item rest ih =>
    simp only [takePushed] at taken
    split at taken
    · rename_i full
      simp only [pure_eq_ok, Prod.mk.injEq] at taken
      obtain ⟨rfl, _, rfl⟩ := taken
      cases others with
      | nil => rfl
      | cons other others => simp [takePushed, full, pure, Except.pure]
    · rename_i short
      simp only [bind_eq_ok, pure_eq_ok, Prod.mk.injEq] at taken
      obtain ⟨pushed, known, ⟨operands, left, missing⟩, later, rfl, _, rfl⟩ := taken
      simp only [List.cons_append, takePushed, short, ↓reduceIte, bind_eq_ok, pure_eq_ok]
      exact ⟨pushed, known, _, ih later enough, rfl⟩

/-- Taking commutes with a change of what the items are. -/
theorem takePushed_map_eq (view : β → α) (items : List β) (needed : Int) :
    takePushed pushes needed (items.map view) =
      (takePushed (fun item => pushes (view item)) needed items).map fun taken =>
        (taken.1.map view, taken.2.1.map view, taken.2.2) := by
  induction items generalizing needed with
  | nil => rfl
  | cons item rest ih =>
    rw [List.map_cons, takePushed, takePushed]
    by_cases full : needed ≤ 0
    · rw [if_pos full, if_pos full]
      rfl
    · rw [if_neg full, if_neg full, map_bind]
      refine bind_congr fun pushed => ?_
      rw [ih, map_bind]
      cases takePushed (fun item => pushes (view item)) (needed - pushed) rest <;> rfl

theorem takePushed_map (view : β → α) {items operands left : List β} {needed missing : Int}
    (taken : takePushed (fun item => pushes (view item)) needed items = .ok (operands, left, missing)) :
    takePushed pushes needed (items.map view) = .ok (operands.map view, left.map view, missing) := by
  rw [takePushed_map_eq, taken]
  rfl

theorem takePushed_zero (items : List α) : takePushed pushes 0 items = .ok ([], items, 0) := by
  cases items <;> rfl

/-- Items that push one value each are all taken where as many values are needed. -/
theorem takePushed_of_single {items : List α}
    (single : ∀ item ∈ items, pushes item = .ok 1) :
    takePushed pushes items.length items = .ok (items, [], 0) := by
  induction items with
  | nil => rfl
  | cons item rest ih =>
    obtain ⟨own, others⟩ := List.forall_mem_cons.mp single
    have short : ¬ ((item :: rest).length : Int) ≤ 0 := by
      rw [List.length_cons]
      omega
    have less : ((item :: rest).length : Int) - 1 = rest.length := by
      rw [List.length_cons]
      omega
    rw [takePushed, if_neg short, own]
    change (takePushed pushes (((item :: rest).length : Int) - 1) rest >>= _) = _
    rw [less, ih others]
    rfl

end Node

namespace Forest

theorem consume_eq_ok {instruction : Instruction} {pending operands left : List Node} :
    consume instruction index pops pending = .ok (operands, left) ↔
      ∃ missing ≤ 0,
        Node.takePushed (·.instruction.pushes) pops pending = .ok (operands, left, missing) := by
  simp only [consume, bind_eq_ok]
  constructor
  · rintro ⟨⟨operands, left, missing⟩, taken, chosen⟩
    split at chosen
    · simp only [bind_eq_ok, fail] at chosen
      obtain ⟨_, _, never⟩ := chosen
      cases never
    · rename_i enough
      simp only [pure_eq_ok, Prod.mk.injEq] at chosen
      obtain ⟨rfl, rfl⟩ := chosen
      exact ⟨missing, by simpa using enough, taken⟩
  · rintro ⟨missing, enough, taken⟩
    refine ⟨_, taken, ?_⟩
    have full : ¬ 0 < missing := by omega
    simp [full, pure, Except.pure]

theorem consume_append {instruction : Instruction} {pending operands left : List Node}
    (consumed : consume instruction index pops pending = .ok (operands, left)) :
    operands ++ left = pending := by
  obtain ⟨_, _, taken⟩ := consume_eq_ok.mp consumed
  exact Node.takePushed_append taken

/-- Where every producer leaves one value, as many are consumed as values are needed. -/
theorem length_of_consume {instruction : Instruction} {pending operands left : List Node}
    (single : ∀ node ∈ pending, node.instruction.pushes = .ok 1)
    (consumed : consume instruction index needed pending = .ok (operands, left)) :
    operands.length = needed.toNat := by
  obtain ⟨missing, enough, taken⟩ := consume_eq_ok.mp consumed
  clear consumed
  induction pending generalizing needed operands left missing with
  | nil =>
    simp only [Node.takePushed, pure_eq_ok, Prod.mk.injEq] at taken
    obtain ⟨rfl, _, rfl⟩ := taken
    simp
    omega
  | cons node rest ih =>
    simp only [Node.takePushed] at taken
    split at taken
    · simp only [pure_eq_ok, Prod.mk.injEq] at taken
      obtain ⟨rfl, _, _⟩ := taken
      simp
      omega
    · simp only [single node (by simp), bind_eq_ok, pure_eq_ok, Prod.mk.injEq, Except.ok.injEq,
        exists_eq_left'] at taken
      obtain ⟨⟨operands, left, missing⟩, later, rfl, rfl, rfl⟩ := taken
      have rest := ih (fun other member => single other (by simp [member])) missing enough later
      simp only [List.length_cons, rest]
      omega

/-- The operands of a finished node are the producers that were consumed for it. -/
theorem separate_of_consume {instruction : Instruction} {pending operands left : List Node}
    (pops : instruction.pops = .ok needed)
    (consumed : consume instruction index needed pending = .ok (operands, left))
    (body : List Node) (position : Int) :
    Node.separate ⟨instruction, operands ++ body, position⟩ = .ok (operands, body) := by
  obtain ⟨missing, enough, taken⟩ := consume_eq_ok.mp consumed
  simp only [Node.separate, bind_eq_ok, pure_eq_ok]
  exact ⟨needed, pops, _, Node.takePushed_stop taken enough body, rfl⟩

/-- A forward jump owns as many instructions as it may skip, anything else none. -/
theorem skipped_eq_ok {instruction : Instruction} :
    skipped instruction index available = .ok count ↔
      instruction.skipsAhead = .ok false ∧ count = 0 ∨
      instruction.skipsAhead = .ok true ∧ instruction.s = .ok (count : Int) ∧ count ≤ available := by
  simp only [skipped, bind_eq_ok]
  constructor
  · rintro ⟨ahead, known, chosen⟩
    cases ahead with
    | false =>
      simp only [Bool.false_eq_true, ↓reduceIte, pure_eq_ok] at chosen
      exact .inl ⟨known, chosen.symm⟩
    | true =>
      obtain ⟨_, distance, reads, positive⟩ := Instruction.skipsAhead_eq_true.mp known
      simp only [↓reduceIte, bind_eq_ok, reads, Except.ok.injEq, exists_eq_left'] at chosen
      split at chosen
      · simp only [bind_eq_ok, fail] at chosen
        obtain ⟨_, _, never⟩ := chosen
        cases never
      · simp only [pure_eq_ok] at chosen
        refine .inr ⟨known, ?_, by omega⟩
        rw [reads]
        exact congrArg Except.ok (by omega)
  · rintro (⟨known, rfl⟩ | ⟨known, reads, fits⟩)
    · exact ⟨false, known, rfl⟩
    · refine ⟨true, known, ?_⟩
      have inside : ¬ (available : Int) < count := by omega
      simp [reads, inside, bind, Except.bind, pure, Except.pure]

theorem skipped_le {instruction : Instruction}
    (owned : skipped instruction index available = .ok count) : count ≤ available := by
  rcases skipped_eq_ok.mp owned with ⟨_, rfl⟩ | ⟨_, _, fits⟩
  · exact Nat.zero_le _
  · exact fits

theorem skipped_of_pushes {instruction : Instruction} (pushes : instruction.pushes = .ok count)
    (leaves : count ≠ 0) (index : Int) (available : Nat) :
    skipped instruction index available = .ok 0 :=
  skipped_eq_ok.mpr (.inl ⟨Instruction.skipsAhead_of_not_jump
    (Instruction.isJump_of_pushes pushes leaves), rfl⟩)

end Forest

end LuaLift
