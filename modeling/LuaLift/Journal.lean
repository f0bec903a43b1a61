import LuaLift.Fault
import LuaLift.Number.Shortest

/-! A journal of what happened on the way to a result. Steps that fail keep the entries made
before them. -/
namespace LuaLift

/-- How much an entry of the journal matters. -/
inductive Level where
  | debug
  | warning
deriving DecidableEq, Repr

namespace Level

def name : Level → String
  | debug => "DEBUG"
  | warning => "WARNING"

/-- Whether entries of a level are kept when all from some level on are. -/
def admits : Level → Level → Bool
  | debug, _ => true
  | warning, level => level = warning

end Level

/-- What the journal tells: what was read, each step on the stack, and what was not as expected. -/
inductive Event where
  | preambleRead (summary : Text)
  | sampleMismatch (found expected : Double)
  | prototypeRead (summary : Text) (offset : Int)
  | step (instruction : Text) (pops pushes : Int) (pending : List Text)
  | placeholder (fault : Fault)
deriving DecidableEq, Repr

namespace Event

def level : Event → Level
  | preambleRead _ | prototypeRead _ _ | step _ _ _ _ => .debug
  | sampleMismatch _ _ | placeholder _ => .warning

/-- The part of the program an entry comes from, as the journal names it. -/
def source : Event → String
  | preambleRead _ | sampleMismatch _ _ => "lua4dec.header"
  | prototypeRead _ _ => "lua4dec.function"
  | step _ _ _ _ => "lua4dec.tree"
  | placeholder _ => "lua4dec.codegen"

open Text in
def message : Event → Text
  | preambleRead summary => "chunk header: " ++ summary
  | sampleMismatch found expected =>
    "header test number " ++ found.shortest ++ " does not match " ++ expected.shortest
  | prototypeRead summary offset => "parsed " ++ summary ++ " at offset 0x" ++ hex offset
  | step instruction pops pushes pending =>
    padRight 30 instruction ++ " pop=" ++ decimal pops ++ " push=" ++ decimal pushes ++
      " unused=[" ++ join ", " (pending.map shown) ++ "]"
  | placeholder fault => fault.message ++ ": emitting placeholder"

def line (event : Event) : Text :=
  event.level.name ++ " " ++ event.source ++ ": " ++ event.message

end Event

/-- A result, or the fault that stopped the work, with the journal up to there. -/
structure Traced (α : Type) where
  outcome : Except Fault α
  journal : List Event := []

namespace Traced

variable {α β : Type}

def note (event : Event) : Traced Unit := ⟨.ok (), [event]⟩

def ofExcept (outcome : Except Fault α) : Traced α := ⟨outcome, []⟩

protected def bind (first : Traced α) (next : α → Traced β) : Traced β :=
  match first.outcome with
  | .ok value =>
    let rest := next value
    ⟨rest.outcome, first.journal ++ rest.journal⟩
  | .error fault => ⟨.error fault, first.journal⟩

instance : Monad Traced where
  pure value := ⟨.ok value, []⟩
  bind := Traced.bind

instance : MonadLift (Except Fault) Traced := ⟨ofExcept⟩

instance : MonadExceptOf Fault Traced where
  throw fault := ⟨.error fault, []⟩
  tryCatch first recover :=
    match first.outcome with
    | .ok _ => first
    | .error fault =>
      let rest := recover fault
      ⟨rest.outcome, first.journal ++ rest.journal⟩

/-- The journal's lines from some level on. -/
def lines (least : Level) (journal : List Event) : List Text :=
  (journal.filter fun event => least.admits event.level).map Event.line

@[ext] theorem ext {left right : Traced α} (outcome : left.outcome = right.outcome)
    (journal : left.journal = right.journal) : left = right := by
  cases left; cases right; simp_all

@[simp] theorem outcome_pure (value : α) : (pure value : Traced α).outcome = .ok value := rfl

@[simp] theorem journal_pure (value : α) : (pure value : Traced α).journal = [] := rfl

@[simp] theorem outcome_throw (fault : Fault) :
    (throw fault : Traced α).outcome = .error fault := rfl

@[simp] theorem journal_throw (fault : Fault) : (throw fault : Traced α).journal = [] := rfl

@[simp] theorem outcome_ofExcept (outcome : Except Fault α) :
    (liftM outcome : Traced α).outcome = outcome := rfl

@[simp] theorem journal_ofExcept (outcome : Except Fault α) :
    (liftM outcome : Traced α).journal = [] := rfl

@[simp] theorem outcome_note (event : Event) : (note event).outcome = .ok () := rfl

@[simp] theorem journal_note (event : Event) : (note event).journal = [event] := rfl

/-- Results compose as if there were no journal. -/
@[simp] theorem outcome_bind (first : Traced α) (next : α → Traced β) :
    (first >>= next).outcome = first.outcome >>= fun value => (next value).outcome := by
  change (Traced.bind first next).outcome = _
  unfold Traced.bind
  cases first.outcome <;> rfl

theorem journal_bind_of_ok {first : Traced α} {value : α} (next : α → Traced β)
    (done : first.outcome = .ok value) :
    (first >>= next).journal = first.journal ++ (next value).journal := by
  change (Traced.bind first next).journal = _
  simp [Traced.bind, done]

theorem journal_bind_of_error {first : Traced α} {fault : Fault} (next : α → Traced β)
    (stopped : first.outcome = .error fault) : (first >>= next).journal = first.journal := by
  change (Traced.bind first next).journal = _
  simp [Traced.bind, stopped]

instance : LawfulMonad Traced := LawfulMonad.mk' Traced
  (by
    intro α first
    change Traced.bind first _ = first
    unfold Traced.bind
    cases done : first.outcome <;> ext <;> simp_all)
  (by
    intro α β value next
    rfl)
  (by
    intro α β γ first next last
    change Traced.bind (Traced.bind first next) last =
      Traced.bind first fun value => Traced.bind (next value) last
    unfold Traced.bind
    cases first.outcome with
    | error fault => rfl
    | ok value =>
      dsimp only
      cases (next value).outcome <;> simp)

end Traced

end LuaLift
