import Mathlib.Data.List.Basic

/-! Trees that keep lists of trees of the same kind: induction from what is directly below a tree,
and functions on a list of trees that go through it one tree at a time. -/
namespace LuaLift.Nested

/-- What holds of a tree wherever it holds of those directly below it holds of every tree. -/
theorem induct {α : Type} [SizeOf α] {below : α → List α}
    (smaller : ∀ tree, sizeOf (below tree) < sizeOf tree) {motive : α → Prop}
    (step : ∀ tree, (∀ inner ∈ below tree, motive inner) → motive tree) (tree : α) : motive tree :=
  step tree fun inner _ => induct smaller step inner
termination_by sizeOf tree
decreasing_by
  rename_i member
  exact Nat.lt_trans (List.sizeOf_lt_of_mem member) (smaller tree)

variable {α β : Type}

theorem eq_map {view : α → β} {all : List α → List β} (none : all [] = [])
    (more : ∀ tree rest, all (tree :: rest) = view tree :: all rest) (trees : List α) :
    all trees = trees.map view := by
  induction trees with
  | nil => exact none
  | cons tree rest ih => rw [more, ih, List.map_cons]

theorem eq_flatMap {view : α → List β} {all : List α → List β} (none : all [] = [])
    (more : ∀ tree rest, all (tree :: rest) = view tree ++ all rest) (trees : List α) :
    all trees = trees.flatMap view := by
  induction trees with
  | nil => exact none
  | cons tree rest ih => rw [more, ih, List.flatMap_cons]

end LuaLift.Nested
