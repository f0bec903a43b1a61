import LuaLift.Proofs.Outcome
import Mathlib.Data.List.Forall2

/-! Two computations side by side. They agree if both stop at the same fault, or both give values
that stand in some relation. Steps that agree make computations that agree. -/
namespace LuaLift

/-- Related lists are related member by member. -/
theorem forall₂_mem {related : α → β → Prop} {items : List α} {others : List β}
    (alike : List.Forall₂ related items others) :
    List.Forall₂ (fun left right => left ∈ items ∧ right ∈ others ∧ related left right)
      items others := by
  induction alike with
  | nil => exact .nil
  | cons here rest ih =>
    refine .cons ⟨List.mem_cons_self, List.mem_cons_self, here⟩ (ih.imp fun left right behind => ?_)
    obtain ⟨among, also, same⟩ := behind
    exact ⟨List.mem_cons_of_mem _ among, List.mem_cons_of_mem _ also, same⟩

/-- Lists that are related through something between their members are related through a list. -/
theorem exists_forall₂ {first : α → β → Prop} {second : β → γ → Prop} {items : List α}
    {others : List γ}
    (all : List.Forall₂ (fun item other => ∃ middle, first item middle ∧ second middle other)
      items others) :
    ∃ middles, List.Forall₂ first items middles ∧ List.Forall₂ second middles others := by
  induction all with
  | nil => exact ⟨[], .nil, .nil⟩
  | cons here rest ih =>
    obtain ⟨middle, front, back⟩ := here
    obtain ⟨middles, fronts, backs⟩ := ih
    exact ⟨middle :: middles, .cons front fronts, .cons back backs⟩

inductive Agree (related : α → β → Prop) : Except ε α → Except ε β → Prop where
  | ok {left : α} {right : β} (alike : related left right) : Agree related (.ok left) (.ok right)
  | error (fault : ε) : Agree related (.error fault) (.error fault)

namespace Agree

variable {related : α → β → Prop} {result : γ → δ → Prop}
  {first : Except ε α} {second : Except ε β}

theorem outcomes (agree : Agree related first second) :
    (∃ value other, first = .ok value ∧ second = .ok other ∧ related value other) ∨
      ∃ fault, first = .error fault ∧ second = .error fault := by
  cases agree with
  | ok alike => exact .inl ⟨_, _, rfl, rfl, alike⟩
  | error fault => exact .inr ⟨fault, rfl, rfl⟩

theorem of_eq {first second : Except ε α} (same : first = second) : Agree Eq first second := by
  subst second
  cases first with
  | ok value => exact .ok rfl
  | error fault => exact .error fault

theorem eq {first second : Except ε α} (agree : Agree Eq first second) : first = second := by
  cases agree with
  | ok alike => rw [alike]
  | error fault => rfl

theorem bind {next : α → Except ε γ} {other : β → Except ε δ} (agree : Agree related first second)
    (follow : ∀ {left right}, related left right → Agree result (next left) (other right)) :
    Agree result (first >>= next) (second >>= other) := by
  cases agree with
  | ok alike => exact follow alike
  | error fault => exact .error fault

/-- What both give, if they give anything, is used in the same way. -/
theorem bind_same {next : α → Except ε γ} {other : α → Except ε δ} {first second : Except ε α}
    (same : first = second)
    (follow : ∀ value, first = .ok value → Agree result (next value) (other value)) :
    Agree result (first >>= next) (second >>= other) := by
  subst second
  cases first with
  | ok value => exact follow value rfl
  | error fault => exact .error fault

theorem mapM {action : α → Except ε γ} {other : β → Except ε δ} {items : List α} {others : List β}
    (alike : List.Forall₂ related items others)
    (step : ∀ {left right}, related left right → Agree result (action left) (other right)) :
    Agree (List.Forall₂ result) (items.mapM action) (others.mapM other) := by
  induction alike with
  | nil => exact .ok .nil
  | cons here rest ih =>
    rw [List.mapM_cons, List.mapM_cons]
    exact (step here).bind fun head => ih.bind fun tail => .ok (.cons head tail)

theorem mapM_eq {action : α → Except ε γ} {other : β → Except ε γ} {items : List α}
    {others : List β} (alike : List.Forall₂ related items others)
    (step : ∀ {left right}, related left right → action left = other right) :
    items.mapM action = others.mapM other := by
  apply Agree.eq
  rw [← List.forall₂_eq_eq_eq]
  exact mapM alike fun here => .of_eq (step here)

theorem foldlM {action : γ → α → Except ε γ} {other : δ → β → Except ε δ} {items : List α}
    {others : List β} (alike : List.Forall₂ related items others)
    (step : ∀ {start finish left right}, result start finish → related left right →
      Agree result (action start left) (other finish right))
    {start : γ} {finish : δ} (same : result start finish) :
    Agree result (items.foldlM action start) (others.foldlM other finish) := by
  induction alike generalizing start finish with
  | nil => exact .ok same
  | cons here rest ih =>
    rw [List.foldlM_cons, List.foldlM_cons]
    exact (step same here).bind fun next => ih next

end Agree

/-- Each result is what comes of its item. -/
theorem mapM_eq_ok {action : α → Except ε β} {items : List α} {results : List β} :
    items.mapM action = .ok results ↔
      List.Forall₂ (fun item result => action item = .ok result) items results := by
  induction items generalizing results with
  | nil => rw [List.mapM_nil, pure_eq_ok, List.forall₂_nil_left_iff, eq_comm]
  | cons item rest ih =>
    simp only [List.mapM_cons, bind_eq_ok, pure_eq_ok, ih, List.forall₂_cons_left_iff]
    constructor
    · rintro ⟨result, here, others, later, rfl⟩
      exact ⟨result, others, here, later, rfl⟩
    · rintro ⟨result, others, here, later, rfl⟩
      exact ⟨result, here, others, later, rfl⟩

namespace Traced

/-- What stands in for a fault is the same where the faults are. -/
theorem outcome_tryCatch_congr {first second : Traced α} (same : first.outcome = second.outcome)
    (recover : Fault → Traced α) :
    (tryCatch first recover).outcome = (tryCatch second recover).outcome := by
  simp only [tryCatch, tryCatchThe, MonadExceptOf.tryCatch, ← same]
  cases found : first.outcome with
  | ok value => rw [found, ← same, found]
  | error fault => rfl

theorem outcome_mapM (action : α → Traced β) (items : List α) :
    (items.mapM action).outcome = items.mapM fun item => (action item).outcome := by
  induction items with
  | nil => rfl
  | cons item rest ih => simp only [List.mapM_cons, outcome_bind, ih, outcome_pure]; rfl

theorem mapM_ok {action : α → Traced β} {items : List α} {results : List β} :
    (items.mapM action).outcome = .ok results ↔
      List.Forall₂ (fun item result => (action item).outcome = .ok result) items results := by
  rw [outcome_mapM]
  exact mapM_eq_ok

theorem outcome_foldlM (action : β → α → Traced β) (items : List α) (start : β) :
    (items.foldlM action start).outcome =
      items.foldlM (fun value item => (action value item).outcome) start := by
  induction items generalizing start with
  | nil => rfl
  | cons item rest ih => simp only [List.foldlM_cons, outcome_bind, ih]

end Traced

end LuaLift
