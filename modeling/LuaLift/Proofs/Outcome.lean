import LuaLift.Journal

/-! Taking results apart: a composition succeeds exactly when each of its steps does. -/
namespace LuaLift

theorem bind_eq_ok {first : Except ε α} {next : α → Except ε β} {result : β} :
    (first >>= next) = .ok result ↔ ∃ value, first = .ok value ∧ next value = .ok result := by
  cases first with
  | error fault => simp [bind, Except.bind]
  | ok value => simp [bind, Except.bind]

/-- A composition stops at a fault of its first step or at one of the step behind it. -/
theorem bind_eq_error {first : Except ε α} {next : α → Except ε β} {fault : ε} :
    (first >>= next) = .error fault ↔
      first = .error fault ∨ ∃ value, first = .ok value ∧ next value = .error fault := by
  cases first with
  | error other => simp [bind, Except.bind]
  | ok value => simp [bind, Except.bind]

/-- A change of the result is a change behind the last step. -/
theorem map_bind (first : Except ε α) (next : α → Except ε β) (view : β → γ) :
    (first >>= next).map view = first >>= fun value => (next value).map view := by
  cases first <;> rfl

theorem pure_eq_ok {value result : α} :
    (pure value : Except ε α) = .ok result ↔ value = result := by
  simp [pure, Except.pure]

theorem throw_eq_ok {fault : ε} {result : α} :
    (throw fault : Except ε α) = .ok result ↔ False := by
  simp [throw, throwThe, MonadExceptOf.throw]

/-- A fault stops the work just where its condition holds. -/
theorem refuse_eq_ok {condition : Prop} [Decidable condition] {fault : ε} {next : β → Except ε α}
    {rest : Except ε α} {result : α} :
    (if condition then throw fault >>= next else rest) = .ok result ↔
      ¬ condition ∧ rest = .ok result := by
  by_cases holds : condition <;> simp [holds, bind_eq_ok, throw_eq_ok]

theorem refuse_eq_error {condition : Prop} [Decidable condition] {fault other : ε}
    {next : β → Except ε α} {rest : Except ε α} :
    (if condition then throw fault >>= next else rest) = .error other ↔
      condition ∧ fault = other ∨ ¬ condition ∧ rest = .error other := by
  by_cases holds : condition <;> simp [holds, bind_eq_error, throw, throwThe, MonadExceptOf.throw]

theorem require_eq_ok {condition : Prop} [Decidable condition] {fault : ε} {next : β → Except ε α}
    {rest : Except ε α} {result : α} :
    (if condition then rest else throw fault >>= next) = .ok result ↔
      condition ∧ rest = .ok result := by
  by_cases holds : condition <;> simp [holds, bind_eq_ok, throw_eq_ok]

theorem toOption_eq_some {outcome : Except ε α} {result : α} :
    outcome.toOption = some result ↔ outcome = .ok result := by
  cases outcome <;> simp [Except.toOption]

theorem exists_mapM {action : α → Except ε β} {items : List α}
    (all : ∀ item ∈ items, ∃ result, action item = .ok result) :
    ∃ results, items.mapM action = .ok results := by
  induction items with
  | nil => exact ⟨[], rfl⟩
  | cons item rest ih =>
    obtain ⟨result, here⟩ := all item List.mem_cons_self
    obtain ⟨results, behind⟩ := ih fun other member => all other (List.mem_cons_of_mem _ member)
    refine ⟨result :: results, ?_⟩
    rw [List.mapM_cons, here, behind]
    rfl

instance decidableExistsOk {outcome : Except ε α} : Decidable (∃ value, outcome = .ok value) :=
  match outcome with
  | .error _ => .isFalse nofun
  | .ok value => .isTrue ⟨value, rfl⟩

instance decidableEqOk [DecidableEq α] {outcome : Except ε α} {value : α} :
    Decidable (outcome = .ok value) :=
  decidable_of_iff (outcome.toOption = some value) toOption_eq_some

instance decidableEqError [DecidableEq ε] {outcome : Except ε α} {fault : ε} :
    Decidable (outcome = .error fault) :=
  match outcome with
  | .error other => decidable_of_iff (other = fault) (by simp)
  | .ok _ => .isFalse nofun

/-- What holds of a result, where there is one, can be decided. -/
instance decidableOfOk {outcome : Except ε α} {holds : α → Prop} [DecidablePred holds] :
    Decidable (∀ value, outcome = .ok value → holds value) :=
  match outcome with
  | .error _ => .isTrue nofun
  | .ok value => decidable_of_iff (holds value)
    ⟨fun fact _ same => Except.ok.inj same ▸ fact, fun all => all value rfl⟩

instance decidableOkAnd {outcome : Except ε α} {holds : α → Prop} [DecidablePred holds] :
    Decidable (∃ value, outcome = .ok value ∧ holds value) :=
  match outcome with
  | .error _ => .isFalse nofun
  | .ok value => decidable_of_iff (holds value)
    ⟨fun fact => ⟨value, rfl, fact⟩, fun ⟨_, same, fact⟩ => Except.ok.inj same ▸ fact⟩

namespace Traced

theorem bind_ok {first : Traced α} {next : α → Traced β} {result : β} :
    (first >>= next).outcome = .ok result ↔
      ∃ value, first.outcome = .ok value ∧ (next value).outcome = .ok result := by
  rw [outcome_bind, bind_eq_ok]

theorem pure_ok {value result : α} :
    (pure value : Traced α).outcome = .ok result ↔ value = result := by
  simp

theorem outcome_bind_of_ok {first : Traced α} {value : α} (next : α → Traced β)
    (done : first.outcome = .ok value) : (first >>= next).outcome = (next value).outcome := by
  rw [outcome_bind, done]
  rfl

theorem outcome_bind_of_error {first : Traced α} {fault : Fault} (next : α → Traced β)
    (stopped : first.outcome = .error fault) : (first >>= next).outcome = .error fault := by
  rw [outcome_bind, stopped]
  rfl

/-- A result is kept as it is, and so is the journal on the way to it. -/
theorem tryCatch_of_ok {first : Traced α} {value : α} (done : first.outcome = .ok value)
    (recover : Fault → Traced α) : tryCatch first recover = first := by
  simp only [tryCatch, tryCatchThe, MonadExceptOf.tryCatch, done]

theorem tryCatch_of_error {first : Traced α} {fault : Fault} (failed : first.outcome = .error fault)
    (recover : Fault → Traced α) : tryCatch first recover =
      ⟨(recover fault).outcome, first.journal ++ (recover fault).journal⟩ := by
  simp only [tryCatch, tryCatchThe, MonadExceptOf.tryCatch, failed]

/-- Going through a list succeeds only where each item does. -/
theorem exists_of_mapM {action : α → Traced β} {items : List α} {results : List β} {item : α}
    (done : (items.mapM action).outcome = .ok results) (member : item ∈ items) :
    ∃ result, (action item).outcome = .ok result := by
  induction items generalizing results with
  | nil => cases member
  | cons head rest ih =>
    simp only [List.mapM_cons, bind_ok] at done
    obtain ⟨result, first, others, later, _⟩ := done
    rcases List.mem_cons.mp member with same | behind
    · subst item
      exact ⟨result, first⟩
    · exact ih later behind

theorem exists_of_foldlM {step : β → α → Traced β} {items : List α} {start finish : β} {item : α}
    (done : (items.foldlM step start).outcome = .ok finish) (member : item ∈ items) :
    ∃ before after, (step before item).outcome = .ok after := by
  induction items generalizing start with
  | nil => cases member
  | cons head rest ih =>
    simp only [List.foldlM_cons, bind_ok] at done
    obtain ⟨middle, first, later⟩ := done
    rcases List.mem_cons.mp member with same | behind
    · subst item
      exact ⟨start, middle, first⟩
    · exact ih later behind

end Traced

end LuaLift
