import LuaLift.Layout

/-! Texts pasted into blocks. What a layout already holds is kept and has no influence on what is
written after it, and a text is pasted line by line; so a stretch of text without a line feed goes
through any number of blocks as it is. -/
namespace LuaLift

namespace Text

theorem unlines_cons {pieces : List Text} (present : pieces ≠ []) (first : Text) :
    unlines (first :: pieces) = first ++ lineFeed :: unlines pieces := by
  cases pieces with
  | nil => exact absurd rfl present
  | cons next rest => simp [unlines, join_cons_cons]

/-- What stands around one of some lines does not depend on that line. -/
theorem unlines_around (above beneath : List Text) :
    ∃ front back, ∀ line, unlines (above ++ line :: beneath) = front ++ line ++ back := by
  induction above with
  | nil =>
    cases beneath with
    | nil => exact ⟨[], [], fun line => by simp [unlines, join_singleton]⟩
    | cons next rest =>
      refine ⟨[], lineFeed :: unlines (next :: rest), fun line => ?_⟩
      exact unlines_cons (List.cons_ne_nil next rest) line
  | cons first rest ih =>
    obtain ⟨front, back, same⟩ := ih
    refine ⟨first ++ lineFeed :: front, back, fun line => ?_⟩
    rw [List.cons_append, unlines_cons (by simp), same]
    simp

/-- A stretch without line feeds lies in one line, and no other line depends on it. -/
theorem lines_around (before after : Text) :
    ∃ (above beneath : List Text) (left right : Text), ∀ core, lineFeed ∉ core →
      lines (before ++ core ++ after) = above ++ (left ++ core ++ right) :: beneath := by
  induction before with
  | nil =>
    cases found : lines after with
    | nil => exact absurd found (lines_ne_nil after)
    | cons right beneath =>
      refine ⟨[], beneath, [], right, fun core unbroken => ?_⟩
      induction core with
      | nil => exact found
      | cons symbol rest ih =>
        obtain ⟨other, behind⟩ := not_or.mp (mt List.mem_cons.mpr unbroken)
        have same := ih behind
        rw [List.nil_append] at same
        rw [List.nil_append, List.cons_append, lines, if_neg (Ne.symm other), same]
        rfl
  | cons symbol rest ih =>
    obtain ⟨above, beneath, left, right, same⟩ := ih
    by_cases broken : symbol = lineFeed
    · refine ⟨[] :: above, beneath, left, right, fun core unbroken => ?_⟩
      rw [List.cons_append, List.cons_append, lines, if_pos broken, same core unbroken]
      rfl
    · cases above with
      | nil =>
        refine ⟨[], beneath, symbol :: left, right, fun core unbroken => ?_⟩
        rw [List.cons_append, List.cons_append, lines, if_neg broken, same core unbroken]
        rfl
      | cons first others =>
        refine ⟨(symbol :: first) :: others, beneath, left, right, fun core unbroken => ?_⟩
        rw [List.cons_append, List.cons_append, lines, if_neg broken, same core unbroken]
        rfl

end Text

open Text

namespace Layout

theorem level_addLine (layout : Layout) (text : Text) :
    (layout.addLine text).level = layout.level := by
  unfold addLine
  split <;> rfl

theorem started_addLine (layout : Layout) (text : Text) :
    (layout.addLine text).started = (layout.started || !text.isEmpty) := by
  unfold addLine
  by_cases empty : text.isEmpty = true
  · rw [if_pos empty, empty, Bool.not_true, Bool.or_false]
  · rw [if_neg empty, Bool.eq_false_iff.mpr empty, Bool.not_false, Bool.or_true]

theorem level_addBlock (layout : Layout) (text : Text) :
    (layout.addBlock text).level = layout.level := by
  unfold addBlock
  induction text.lines generalizing layout with
  | nil => rfl
  | cons line rest ih => rw [List.foldl_cons, ih, level_addLine]

/-- The layout with more lines in front of its own. -/
def below (front : Array Text) (layout : Layout) : Layout :=
  { layout with lines := front ++ layout.lines }

variable (front : Array Text) (layout : Layout)

theorem addLine_below (text : Text) :
    (layout.below front).addLine text = (layout.addLine text).below front := by
  unfold addLine below
  by_cases empty : text.isEmpty = true
  · rw [if_pos empty, if_pos empty]
  · rw [if_neg empty, if_neg empty]
    cases layout.blankDue <;> simp

private theorem addLines_below (lines : List Text) :
    lines.foldl addLine (layout.below front) = (lines.foldl addLine layout).below front := by
  induction lines generalizing layout with
  | nil => rfl
  | cons line rest ih => rw [List.foldl_cons, List.foldl_cons, addLine_below, ih]

theorem addBlock_below (text : Text) :
    (layout.below front).addBlock text = (layout.addBlock text).below front :=
  addLines_below front layout text.lines

private theorem tryDedent_below :
    (layout.below front).tryDedent.layout = layout.tryDedent.layout.below front := by
  obtain ⟨unit, level, lines, blankDue, started⟩ := layout
  cases level <;> rfl

mutual
/-- A step leaves the lines in front as they are and does not see them. -/
theorem run_below (front : Array Text) (layout : Layout) (step : Step) :
    (step.run (layout.below front)).2 = (step.run layout).2.below front := by
  cases step with
  | line text => simp only [Step.run, addLine_below]
  | block text => simp only [Step.run, addBlock_below]
  | comment text => simp only [Step.run, addComment, addLine_below]
  | indent => rfl
  | dedent => simp only [Step.run, tryDedent_below]
  | indented steps =>
    have inner := runAll_below front layout.indent steps
    rw [Step.run, Step.run]
    change (Step.runAll (layout.indent.below front) steps).2.tryDedent.layout = _
    rw [inner, tryDedent_below]

private theorem runAll_below (front : Array Text) (layout : Layout) (steps : List Step) :
    (Step.runAll (layout.below front) steps).2 = (Step.runAll layout steps).2.below front := by
  cases steps with
  | nil => rfl
  | cons step rest =>
    have first := run_below front layout step
    have others := runAll_below front (step.run layout).2 rest
    rw [Step.runAll, Step.runAll]
    dsimp only
    rw [first, others]
end

/-- The layout after a line with something in it, without the lines themselves. -/
def resumed (layout : Layout) : Layout :=
  { layout with lines := #[], blankDue := false, started := true }

theorem addLine_of_ne_nil {text : Text} (filled : text ≠ []) :
    layout.addLine text = layout.resumed.below
      ((if layout.blankDue then layout.lines.push [] else layout.lines).push
        (times layout.level layout.unit ++ text)) := by
  have stays : ¬ text.isEmpty = true := by rwa [List.isEmpty_iff]
  simp only [addLine, if_neg stays, below, resumed, Array.append_empty]

/-- A stretch of a text is written on one line, and no other line depends on it. -/
theorem addBlock_around (before after : Text) :
    ∃ (above : Array Text) (left right : Text) (rest : Layout), ∀ core, core ≠ [] →
      lineFeed ∉ core → layout.addBlock (before ++ core ++ after) =
        rest.below (above.push (left ++ core ++ right)) := by
  obtain ⟨above, beneath, left, right, split⟩ := lines_around before after
  let reached := above.foldl addLine layout
  refine ⟨if reached.blankDue then reached.lines.push [] else reached.lines,
    times reached.level reached.unit ++ left, right, beneath.foldl addLine reached.resumed,
    fun core filled unbroken => ?_⟩
  have line : left ++ core ++ right ≠ [] := by simp [filled]
  rw [addBlock, split core unbroken, List.foldl_append, List.foldl_cons,
    addLine_of_ne_nil reached line, addLines_below]
  simp only [List.append_assoc]

end Layout

/-- Where a text goes in a block: the layout before it, and what is written after it. -/
structure Place where
  layout : Layout
  after : List Layout.Step

namespace Place

/-- The text of a block with some text pasted into it, line by line. -/
def paste (place : Place) (text : Text) : Text :=
  (Layout.Step.runAll (place.layout.addBlock text) place.after).2.text

/-- A text pasted into a block, the text of that block into the next one, and so on. -/
def pasteAll (places : List Place) (text : Text) : Text :=
  places.foldl (fun text place => place.paste text) text

/-- A stretch without line feeds goes into a block as it is. -/
theorem paste_around (place : Place) (before after : Text) :
    ∃ front back, ∀ core, core ≠ [] → lineFeed ∉ core →
      place.paste (before ++ core ++ after) = front ++ core ++ back := by
  obtain ⟨above, left, right, rest, written⟩ := place.layout.addBlock_around before after
  let behind := (Layout.Step.runAll rest place.after).2.lines.toList
  obtain ⟨front, back, around⟩ := unlines_around above.toList behind
  refine ⟨front ++ left, right ++ back, fun core filled unbroken => ?_⟩
  rw [paste, written core filled unbroken, Layout.runAll_below, Layout.text, Layout.below]
  simpa using around (left ++ core ++ right)

/-- So it does into any number of blocks. -/
theorem pasteAll_around (places : List Place) (before after : Text) :
    ∃ front back, ∀ core, core ≠ [] → lineFeed ∉ core →
      pasteAll places (before ++ core ++ after) = front ++ core ++ back := by
  induction places generalizing before after with
  | nil => exact ⟨before, after, fun core _ _ => rfl⟩
  | cons place rest ih =>
    obtain ⟨front, back, pasted⟩ := place.paste_around before after
    obtain ⟨outer, last, others⟩ := ih front back
    refine ⟨outer, last, fun core filled unbroken => ?_⟩
    rw [pasteAll, List.foldl_cons, pasted core filled unbroken]
    exact others core filled unbroken

end Place

end LuaLift
