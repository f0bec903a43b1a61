import LuaLift.Proofs.Outcome

/-! Which faults a computation may stop at. A composition stops only where one of its steps may
stop. -/
namespace LuaLift

/-- If there is no result, the fault is one of the allowed ones. -/
def Stops (allowed : Fault → Prop) (outcome : Except Fault α) : Prop :=
  ∀ fault, outcome = .error fault → allowed fault

namespace Stops

variable {allowed : Fault → Prop}

theorem ok (value : α) : Stops allowed (.ok value) := nofun

theorem error {fault : Fault} (among : allowed fault) :
    Stops allowed (.error fault : Except Fault α) := by
  intro found same
  obtain rfl := Except.error.inj same
  exact among

theorem of_exists {outcome : Except Fault α} (found : ∃ value, outcome = .ok value) :
    Stops allowed outcome := by
  obtain ⟨value, rfl⟩ := found
  exact ok value

/-- What may not stop at all has a result. -/
theorem exists_ok {outcome : Except Fault α} (stops : Stops (fun _ => False) outcome) :
    ∃ value, outcome = .ok value := by
  cases outcome with
  | ok value => exact ⟨value, rfl⟩
  | error fault => exact (stops fault rfl).elim

theorem bind {first : Except Fault α} {next : α → Except Fault β} (start : Stops allowed first)
    (follow : ∀ value, first = .ok value → Stops allowed (next value)) :
    Stops allowed (first >>= next) := by
  intro fault failed
  rcases bind_eq_error.mp failed with here | ⟨value, done, later⟩
  · exact start fault here
  · exact follow value done fault later

/-- A check that refuses, or else goes on. -/
theorem refuse {condition : Prop} [Decidable condition] {fault : Fault} {next : β → Except Fault α}
    {rest : Except Fault α} (refused : condition → allowed fault)
    (passed : ¬ condition → Stops allowed rest) :
    Stops allowed (if condition then throw fault >>= next else rest) := by
  by_cases holds : condition
  · rw [if_pos holds]
    exact error (refused holds)
  · rw [if_neg holds]
    exact passed holds

theorem mapM {action : α → Except Fault β} {items : List α}
    (each : ∀ item ∈ items, Stops allowed (action item)) : Stops allowed (items.mapM action) := by
  induction items with
  | nil => exact ok []
  | cons item rest ih =>
    rw [List.mapM_cons]
    refine (each item List.mem_cons_self).bind fun first _ => ?_
    have behind := ih fun later member => each later (List.mem_cons_of_mem _ member)
    exact behind.bind fun others _ => ok (first :: others)

theorem foldlM {step : β → α → Except Fault β} {items : List α}
    (each : ∀ value, ∀ item ∈ items, Stops allowed (step value item)) (start : β) :
    Stops allowed (items.foldlM step start) := by
  induction items generalizing start with
  | nil => exact ok start
  | cons item rest ih =>
    rw [List.foldlM_cons]
    refine (each start item List.mem_cons_self).bind fun next _ => ?_
    exact ih (fun value later member => each value later (List.mem_cons_of_mem _ member)) next

end Stops

end LuaLift
