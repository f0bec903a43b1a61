import LuaLift.Fault

/-! Items named by their position. -/
namespace LuaLift

/-- Items are counted from the first one, and below zero from the last one back. -/
def itemAt? {α : Type} (items : List α) (index : Int) : Option α :=
  if index < 0 then items.reverse[(-index - 1).toNat]? else items[index.toNat]?

theorem itemAt?_natCast {α : Type} (items : List α) (index : Nat) :
    itemAt? items index = items[index]? := by
  have low : ¬ (index : Int) < 0 := by omega
  simp [itemAt?, low]

theorem mem_of_itemAt? {α : Type} {items : List α} {index : Int} {item : α}
    (found : itemAt? items index = some item) : item ∈ items := by
  rw [itemAt?] at found
  split at found
  · exact List.mem_reverse.mp (List.mem_of_getElem? found)
  · exact List.mem_of_getElem? found

/-- The item that an index names, if there is one. An index past the last item names none, and one
that counts back past the first is a fault. -/
def findItem {α : Type} (row : RowKind) (items : List α) (index : Int) :
    Except Fault (Option α) :=
  if index < -items.length then .error (.indexUnderflow row) else .ok (itemAt? items index)

section FindItem

variable {α : Type} (row : RowKind) {items : List α} {index : Int}

theorem findItem_ok {found : Option α} :
    findItem row items index = .ok found ↔
      -items.length ≤ index ∧ itemAt? items index = found := by
  rw [findItem]
  split
  · simp only [reduceCtorEq, false_iff, not_and]
    omega
  · simp only [Except.ok.injEq, iff_and_self]
    omega

/-- Wherever there is an item, it is found. -/
theorem findItem_some {item : α} :
    findItem row items index = .ok (some item) ↔ itemAt? items index = some item := by
  refine (findItem_ok row).trans (and_iff_right_of_imp fun found => ?_)
  rw [itemAt?] at found
  split at found
  · have inside := (List.getElem?_eq_some_iff.mp found).1
    rw [List.length_reverse] at inside
    omega
  · omega

/-- What is counted from the first item on is no fault. -/
theorem findItem_of_nonneg (nonneg : 0 ≤ index) :
    findItem row items index = .ok (itemAt? items index) :=
  (findItem_ok row).mpr ⟨by omega, rfl⟩

example : findItem .tuple ['a', 'b'] (-2) = .ok (some 'a') ∧
    findItem .tuple ['a', 'b'] (-3) = .error (.indexUnderflow .tuple) :=
  ⟨rfl, rfl⟩

end FindItem

end LuaLift
