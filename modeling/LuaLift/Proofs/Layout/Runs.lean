import LuaLift.Proofs.Layout.Blanks
import Mathlib.Data.List.Chain

/-! Runs of calls on a layout. A block of steps is a call to go in, the calls of its steps and a call
to go back, so what every call keeps is kept wherever the steps stand and whichever of them fail. -/
namespace LuaLift.Layout

/-- Blank lines stand one by one, and only between other lines. -/
structure Spaced (lines : List Text) : Prop where
  first : lines.head? ≠ some []
  last : lines.getLast? ≠ some []
  apart : lines.IsChain fun line next => line ≠ [] ∨ next ≠ []

private theorem spaced_nil : Spaced [] := ⟨nofun, nofun, .nil⟩

section Spaced

variable {lines : List Text} {line : Text}

private theorem Spaced.push (spaced : Spaced lines) (filled : line ≠ []) :
    Spaced (lines ++ [line]) where
  first := by
    cases lines with
    | nil => simpa using filled
    | cons head rest => exact spaced.first
  last := by simpa using filled
  apart := by
    rw [List.isChain_append]
    refine ⟨spaced.apart, .singleton line, ?_⟩
    intro _ _ next here
    obtain rfl := Option.some.inj here
    exact .inr filled

/-- A blank line may stand where a line is before it and another one follows. -/
theorem Spaced.push_blank (spaced : Spaced lines) (present : lines ≠ []) (filled : line ≠ []) :
    Spaced (lines ++ [[], line]) where
  first := by
    cases lines with
    | nil => exact absurd rfl present
    | cons head rest => exact spaced.first
  last := by simpa using filled
  apart := by
    rw [List.isChain_append]
    refine ⟨spaced.apart, .cons_cons (.inr filled) (.singleton line), ?_⟩
    intro before ends _ _
    refine .inl fun blank => ?_
    subst before
    exact spaced.last ends

end Spaced

/-- The lines are spaced, and the flags tell whether there are any. -/
structure Orderly (layout : Layout) : Prop where
  spaced : Spaced layout.lines.toList
  started : layout.started = true ↔ layout.lines.toList ≠ []
  due : layout.blankDue = true → layout.lines.toList ≠ []

private theorem orderly_fresh (unit : Text) : Orderly { unit } :=
  ⟨spaced_nil, ⟨nofun, fun present => absurd rfl present⟩, nofun⟩

section Lines

variable {layout : Layout}

private theorem Orderly.addLine (orderly : layout.Orderly) (text : Text) :
    (layout.addLine text).Orderly := by
  unfold Layout.addLine
  by_cases empty : text.isEmpty = true
  · rw [if_pos empty]
    refine ⟨orderly.spaced, orderly.started, fun due => ?_⟩
    rcases Bool.or_eq_true_iff.mp due with before | started
    · exact orderly.due before
    · exact orderly.started.mp started
  · rw [if_neg empty]
    have filled : Text.times layout.level layout.unit ++ text ≠ [] := by
      rw [List.isEmpty_iff] at empty
      simp [empty]
    cases due : layout.blankDue with
    | false =>
      refine ⟨?_, by simp, nofun⟩
      simpa using orderly.spaced.push filled
    | true =>
      refine ⟨?_, by simp, nofun⟩
      simpa using orderly.spaced.push_blank (orderly.due due) filled

private theorem Orderly.addBlock (orderly : layout.Orderly) (text : Text) :
    (layout.addBlock text).Orderly := by
  unfold Layout.addBlock
  induction text.lines generalizing layout with
  | nil => exact orderly
  | cons line rest ih => exact ih (orderly.addLine line)

private theorem prefix_addLine (layout : Layout) (text : Text) :
    layout.lines.toList <+: (layout.addLine text).lines.toList :=
  ⟨_, (lines_addLines layout [text]).symm⟩

private theorem prefix_addBlock (layout : Layout) (text : Text) :
    layout.lines.toList <+: (layout.addBlock text).lines.toList :=
  ⟨_, (lines_addLines layout text.lines).symm⟩

/-- A step back changes nothing but the level, and nothing at all at the margin. -/
theorem tryDedent_eq (layout : Layout) : layout.tryDedent =
    ⟨if layout.level = 0 then some .indentUnderflow else none,
      { layout with level := layout.level - 1 }⟩ := by
  obtain ⟨unit, level, lines, blankDue, started⟩ := layout
  cases level <;> rfl

private theorem tryDedent_margin (margin : layout.level = 0) :
    layout.tryDedent = ⟨some .indentUnderflow, layout⟩ := by
  simp only [tryDedent, dedent, margin]

end Lines

/-- A step that has no steps inside it. -/
inductive Call where
  | line (text : Text)
  | block (text : Text)
  | comment (text : Text)
  | indent
  | dedent
deriving DecidableEq, Repr

/-- What a call comes to. -/
def Call.report (layout : Layout) : Call → Report
  | .line text => ⟨none, layout.addLine text⟩
  | .block text => ⟨none, layout.addBlock text⟩
  | .comment text => ⟨none, layout.addComment text⟩
  | .indent => ⟨none, layout.indent⟩
  | .dedent => layout.tryDedent

mutual
/-- The calls of a step. A block goes in before the calls of its own steps and back behind them. -/
def Step.calls : Step → List Call
  | .line text => [.line text]
  | .block text => [.block text]
  | .comment text => [.comment text]
  | .indent => [.indent]
  | .dedent => [.dedent]
  | .indented steps => .indent :: (Step.callsAll steps ++ [.dedent])

def Step.callsAll : List Step → List Call
  | [] => []
  | step :: rest => step.calls ++ Step.callsAll rest
end

/-- The layout behind some calls, whichever of them fail. -/
def after (layout : Layout) (calls : List Call) : Layout :=
  calls.foldl (fun layout call => (call.report layout).layout) layout

/-- What some calls come to, one after another. -/
def reports (layout : Layout) : List Call → List Report
  | [] => []
  | call :: rest => call.report layout :: reports (call.report layout).layout rest

/-- How many of some calls go back and do not fail. -/
def returns (layout : Layout) : List Call → Nat
  | [] => 0
  | call :: rest =>
    (if call = .dedent ∧ (call.report layout).fault = none then 1 else 0) +
      returns (call.report layout).layout rest

section Calls

variable {layout : Layout}

private theorem after_append (layout : Layout) (calls more : List Call) :
    layout.after (calls ++ more) = (layout.after calls).after more := List.foldl_append

private theorem reports_append (layout : Layout) (calls more : List Call) :
    layout.reports (calls ++ more) = layout.reports calls ++ (layout.after calls).reports more := by
  induction calls generalizing layout with
  | nil => rfl
  | cons call rest ih =>
    rw [List.cons_append, reports, ih]
    rfl

private theorem returns_append (layout : Layout) (calls more : List Call) :
    layout.returns (calls ++ more) = layout.returns calls + (layout.after calls).returns more := by
  induction calls generalizing layout with
  | nil => exact (Nat.zero_add _).symm
  | cons call rest ih =>
    rw [List.cons_append, returns, ih, returns, Nat.add_assoc]
    rfl

private theorem Orderly.report (orderly : layout.Orderly) (call : Call) :
    (call.report layout).layout.Orderly := by
  cases call with
  | line text => exact orderly.addLine text
  | block text => exact orderly.addBlock text
  | comment text => exact orderly.addLine _
  | indent => exact ⟨orderly.spaced, orderly.started, orderly.due⟩
  | dedent =>
    rw [Call.report, tryDedent_eq]
    exact ⟨orderly.spaced, orderly.started, orderly.due⟩

private theorem prefix_report (layout : Layout) (call : Call) :
    layout.lines.toList <+: (call.report layout).layout.lines.toList := by
  cases call with
  | line text => exact prefix_addLine layout text
  | block text => exact prefix_addBlock layout text
  | comment text => exact prefix_addLine layout _
  | indent => exact List.prefix_refl _
  | dedent =>
    rewrite [Call.report, tryDedent_eq]
    exact List.prefix_refl _

private theorem level_report (layout : Layout) (call : Call) :
    (layout.after [call]).level + layout.returns [call] = layout.level + [call].count .indent := by
  cases call with
  | line text => exact layout.level_addLine text
  | block text => exact layout.level_addBlock text
  | comment text => exact layout.level_addLine _
  | indent => rfl
  | dedent =>
    simp only [after, List.foldl_cons, List.foldl_nil, returns, Call.report, tryDedent_eq]
    by_cases margin : layout.level = 0
    · simp [margin]
    · simp [margin]
      omega

/-- What one call keeps, any number of calls keep. -/
theorem Orderly.after (orderly : layout.Orderly) (calls : List Call) :
    (layout.after calls).Orderly := by
  induction calls generalizing layout with
  | nil => exact orderly
  | cons call rest ih => exact ih (orderly.report call)

private theorem prefix_after (layout : Layout) (calls : List Call) :
    layout.lines.toList <+: (layout.after calls).lines.toList := by
  induction calls generalizing layout with
  | nil => exact List.prefix_refl _
  | cons call rest ih => exact (prefix_report layout call).trans (ih _)

private theorem level_after (layout : Layout) (calls : List Call) :
    (layout.after calls).level + layout.returns calls = layout.level + calls.count .indent := by
  induction calls generalizing layout with
  | nil => rfl
  | cons call rest ih =>
    have first := level_report layout call
    have others := ih (layout.after [call])
    rw [← List.singleton_append, after_append, List.count_append, returns_append]
    omega

/-- The calls that a run makes: it shows what some of them come to and ends where they do. -/
structure Makes (layout : Layout) (run : List Report × Layout) (calls : List Call) : Prop where
  shown : run.1.Sublist (layout.reports calls)
  ends : run.2 = layout.after calls

private theorem makes_call (layout : Layout) (call : Call) :
    Makes layout ([call.report layout], (call.report layout).layout) [call] :=
  ⟨.refl _, rfl⟩

theorem Makes.append {first others : List Report} {middle last : Layout} {calls more : List Call}
    (makes : Makes layout (first, middle) calls) (next : Makes middle (others, last) more) :
    Makes layout (first ++ others, last) (calls ++ more) := by
  obtain ⟨shown, rfl⟩ := makes
  obtain ⟨behind, rfl⟩ := next
  refine ⟨?_, (after_append layout calls more).symm⟩
  rw [reports_append]
  exact shown.append behind

mutual
theorem makes_run (layout : Layout) (step : Step) : Makes layout (step.run layout) step.calls := by
  cases step with
  | line text => exact makes_call layout (.line text)
  | block text => exact makes_call layout (.block text)
  | comment text => exact makes_call layout (.comment text)
  | indent => exact makes_call layout .indent
  | dedent => exact makes_call layout .dedent
  | indented steps =>
    -- the call that goes in is the only one without a report of its own
    have enters : Makes layout ([], layout.indent) [.indent] := ⟨List.nil_sublist _, rfl⟩
    have inner := makes_runAll layout.indent steps
    have leaves := makes_call (Step.runAll layout.indent steps).2 .dedent
    rw [Step.run, Step.calls]
    exact enters.append (inner.append leaves)

private theorem makes_runAll (layout : Layout) (steps : List Step) :
    Makes layout (Step.runAll layout steps) (Step.callsAll steps) := by
  cases steps with
  | nil => exact ⟨.refl _, rfl⟩
  | cons step rest =>
    have first := makes_run layout step
    have others := makes_runAll (step.run layout).2 rest
    rw [Step.runAll, Step.callsAll]
    exact first.append others
end

/-- A block is left without a fault, at the level where it was entered, just if its own calls go back
as often as they go in. -/
theorem returns_eq_count_iff (layout : Layout) (own : List Call) :
    layout.indent.returns own = own.count .indent ↔
      (layout.indent.after own).tryDedent.fault = none ∧
        (layout.indent.after own).tryDedent.layout.level = layout.level := by
  have levels := level_after layout.indent own
  simp only [indent] at levels
  rw [tryDedent_eq]
  dsimp only
  constructor
  · intro balanced
    have inside : (layout.indent.after own).level = layout.level + 1 := by
      simp only [indent] at balanced ⊢
      omega
    rw [inside]
    exact ⟨if_neg (Nat.succ_ne_zero _), rfl⟩
  · rintro ⟨fine, outside⟩
    have deep : (layout.indent.after own).level ≠ 0 := by
      intro margin
      rw [if_pos margin] at fine
      cases fine
    simp only [indent] at deep outside ⊢
    omega

end Calls

/-- Whatever is called on a new layout, in blocks or not, and whichever calls fail: the lines are
spaced and only grow, the level is the number of calls that go in less the number of those that go
back without a fault, and at the margin a call that goes back fails and changes nothing. A block comes
back to its level just if its own calls are balanced, also if a fault cuts them short. -/
theorem runAll_orderly (unit : Text) :
    let now := after { unit }
    (∀ steps, (Step.runAll { unit } steps).2 = now (Step.callsAll steps) ∧
      (Step.runAll { unit } steps).1.Sublist (reports { unit } (Step.callsAll steps))) ∧
    ∀ calls, Spaced (now calls).lines.toList ∧
      (∀ more, (now calls).lines.toList <+: (now (calls ++ more)).lines.toList) ∧
      (now calls).level + returns { unit } calls = calls.count .indent ∧
      ((now calls).level = 0 →
        Call.dedent.report (now calls) = ⟨some .indentUnderflow, now calls⟩) ∧
      ∀ own, returns (now calls).indent own = own.count .indent ↔
        (now (calls ++ .indent :: own)).tryDedent.fault = none ∧
          (now (calls ++ .indent :: own)).tryDedent.layout.level = (now calls).level := by
  intro now
  refine ⟨fun steps => ?_, fun calls => ⟨?_, fun more => ?_, ?_, fun margin => ?_, fun own => ?_⟩⟩
  · obtain ⟨shown, ends⟩ := makes_runAll { unit } steps
    exact ⟨ends, shown⟩
  · exact ((orderly_fresh unit).after calls).spaced
  · have further := prefix_after (now calls) more
    rwa [← after_append] at further
  · have levels := level_after { unit } calls
    rwa [Nat.zero_add] at levels
  · exact tryDedent_margin margin
  · have block : now (calls ++ .indent :: own) = (now calls).indent.after own :=
      after_append _ _ _
    rw [block]
    exact returns_eq_count_iff (now calls) own

/-- A call that goes back at the margin, and a block whose own calls go back twice, the second time in
vain, before they go in once. -/
theorem runAll_orderly_of_failures :
    let own : List Step := [.line [], .dedent, .dedent, .indent, .line "b", .block "\n\nc\n"]
    let steps : List Step := [.dedent, .line "a", .line [], .indented own, .comment []]
    let fresh : Layout := {}
    let opened := after fresh [.dedent, .line "a", .line []]
    (Step.runAll fresh steps).2.lines.toList =
        ["a", "", "  b", "", "  c", "", "--"].map Text.ofString ∧
      Spaced (Step.runAll fresh steps).2.lines.toList ∧
      fresh.level = 0 ∧ Call.dedent.report fresh = ⟨some .indentUnderflow, fresh⟩ ∧
      returns opened.indent (Step.callsAll own) = (Step.callsAll own).count .indent ∧
      (opened.indent.after (Step.callsAll own)).tryDedent.layout.level = opened.level := by
  intro own steps fresh opened
  obtain ⟨made, kept⟩ := runAll_orderly "  "
  have balanced : returns opened.indent (Step.callsAll own) = (Step.callsAll own).count .indent := by
    decide
  obtain ⟨spaced, -⟩ := kept (Step.callsAll steps)
  obtain ⟨-, -, -, margin, -⟩ := kept []
  obtain ⟨-, -, -, -, block⟩ := kept [.dedent, .line "a", .line []]
  rw [← (made steps).1] at spaced
  exact ⟨by decide, spaced, rfl, margin rfl, balanced, ((block (Step.callsAll own)).mp balanced).2⟩

end LuaLift.Layout
