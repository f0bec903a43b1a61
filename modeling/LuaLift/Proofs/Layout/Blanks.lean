import LuaLift.Proofs.Layout
import LuaLift.Proofs.Text.Rows
import Mathlib.Logic.Function.Iterate

/-! The lines of a text in a layout of its own. Which blank lines are left depends neither on the
indent nor on the level, and every other line is indented by the level, so the levels of one layout
inside another one add up, and what was laid out before is left as it is. -/
namespace LuaLift

namespace Text

private theorem not_mem_of_mem_lines {text : Text} : ∀ line ∈ lines text, lineFeed ∉ line := by
  induction text with
  | nil => simp [lines]
  | cons symbol rest ih =>
    rw [lines]
    by_cases broken : symbol = lineFeed
    · rw [if_pos broken]
      exact List.forall_mem_cons.mpr ⟨List.not_mem_nil, ih⟩
    · rw [if_neg broken]
      cases found : lines rest with
      | nil => exact absurd found (lines_ne_nil rest)
      | cons line others =>
        rw [found] at ih
        obtain ⟨own, behind⟩ := List.forall_mem_cons.mp ih
        refine List.forall_mem_cons.mpr ⟨?_, behind⟩
        rw [List.mem_cons, not_or]
        exact ⟨Ne.symm broken, own⟩

theorem lines_unlines {pieces : List Text} (present : pieces ≠ [])
    (unbroken : ∀ piece ∈ pieces, lineFeed ∉ piece) : lines (unlines pieces) = pieces := by
  induction pieces with
  | nil => exact absurd rfl present
  | cons first rest ih =>
    obtain ⟨own, others⟩ := List.forall_mem_cons.mp unbroken
    by_cases last : rest = []
    · subst rest
      rw [unlines, join_singleton, lines_of_unbroken own]
    · rw [unlines_cons last, lines_append own, ih last others]

private theorem unlines_append_unlines {front rest : List Text} (present : front ≠ [])
    (behind : rest ≠ []) : unlines (front ++ rest) = unlines front ++ lineFeed :: unlines rest := by
  induction front with
  | nil => exact absurd rfl present
  | cons first others ih =>
    by_cases last : others = []
    · subst others
      rw [List.singleton_append, unlines_cons behind, unlines, unlines, join_singleton]
    · have more : others ++ rest ≠ [] := List.append_ne_nil_of_left_ne_nil last rest
      rw [List.cons_append, unlines_cons more, ih last, unlines_cons last, List.append_assoc,
        List.cons_append]

/-- Blocks of lines in a row are the lines of all blocks. -/
theorem unlines_flatten {blocks : List (List Text)} (present : ∀ block ∈ blocks, block ≠ []) :
    unlines (blocks.map unlines) = unlines blocks.flatten := by
  induction blocks with
  | nil => rfl
  | cons first rest ih =>
    obtain ⟨own, others⟩ := List.forall_mem_cons.mp present
    cases rest with
    | nil => rw [List.map_singleton, List.flatten_singleton, unlines, join_singleton]
    | cons next more =>
      have behind : (next :: more).flatten ≠ [] :=
        List.append_ne_nil_of_left_ne_nil (others next List.mem_cons_self) more.flatten
      have mapped : (next :: more).map unlines ≠ [] := List.cons_ne_nil _ _
      rw [List.map_cons, unlines_cons mapped, ih others, ← unlines_append_unlines own behind,
        ← List.flatten_cons]

/-- A line at some level; an empty one stays empty. -/
def indented (unit : Text) (level : Nat) (line : Text) : Text :=
  if line = [] then [] else times level unit ++ line

variable {unit line : Text}

private theorem indented_eq_nil_iff (unit : Text) (level : Nat) :
    indented unit level line = [] ↔ line = [] := by
  rw [indented]
  split <;> simp_all

private theorem indented_zero (unit line : Text) : indented unit 0 line = line := by
  rw [indented]
  split <;> simp_all

private theorem indented_indented (unit : Text) (outer level : Nat) (line : Text) :
    indented unit outer (indented unit level line) = indented unit (outer + level) line := by
  by_cases empty : line = []
  · simp [indented, empty]
  · have inner : indented unit level line ≠ [] := mt (indented_eq_nil_iff unit level).mp empty
    rw [indented, if_neg inner, indented, if_neg empty, indented, if_neg empty, times_add,
      List.append_assoc]

private theorem not_mem_indented (without : lineFeed ∉ unit) (unbroken : lineFeed ∉ line)
    (level : Nat) :
    lineFeed ∉ indented unit level line := by
  rw [indented]
  split
  · exact List.not_mem_nil
  · rw [List.mem_append, not_or]
    exact ⟨not_mem_times without level, unbroken⟩

end Text

open Text

namespace Layout

/-- The lines that are left of some lines, behind a line or not, and with a blank one due or not. -/
def collapsed : (started due : Bool) → List Text → List Text
  | _, _, [] => []
  | started, due, line :: rest =>
    if line = [] then collapsed started (due || started) rest
    else (if due then [[]] else []) ++ line :: collapsed true false rest

/-- Lines are written one by one as they are left. -/
theorem lines_addLines (layout : Layout) (lines : List Text) :
    (lines.foldl addLine layout).lines.toList = layout.lines.toList ++
      (collapsed layout.started layout.blankDue lines).map
        (indented layout.unit layout.level) := by
  induction lines generalizing layout with
  | nil => simp [collapsed]
  | cons line rest ih =>
    rw [List.foldl_cons, ih, collapsed]
    by_cases empty : line = []
    · subst line
      rw [if_pos rfl]
      rfl
    · have stays : ¬ line.isEmpty = true := by rwa [List.isEmpty_iff]
      rw [if_neg empty, addLine, if_neg stays]
      cases layout.blankDue <;> simp [indented, empty]

/-- Which lines are left depends on which ones are empty, and on nothing else of them. -/
theorem collapsed_map {view : Text → Text} (keeps : ∀ line, view line = [] ↔ line = [])
    (started due : Bool) (lines : List Text) :
    collapsed started due (lines.map view) = (collapsed started due lines).map view := by
  induction lines generalizing started due with
  | nil => rfl
  | cons line rest ih =>
    rw [List.map_cons, collapsed, collapsed]
    by_cases empty : line = []
    · rw [if_pos empty, if_pos ((keeps line).mpr empty), ih]
    · rw [if_neg empty, if_neg (mt (keeps line).mp empty), ih]
      cases due <;> simp [(keeps []).mpr rfl]

/-- What is left is left again. -/
theorem collapsed_collapsed {started due : Bool} (behind : due = true → started = true)
    (lines : List Text) :
    collapsed started false (collapsed started due lines) = collapsed started due lines := by
  induction lines generalizing started due with
  | nil => rfl
  | cons line rest ih =>
    rw [collapsed]
    by_cases empty : line = []
    · rw [if_pos empty]
      refine ih fun later => ?_
      cases started with
      | true => rfl
      | false => exact behind (by simpa using later)
    · rw [if_neg empty]
      have again : collapsed true false (collapsed true false rest) = collapsed true false rest :=
        ih nofun
      cases due with
      | false => rw [if_neg nofun, List.nil_append, collapsed, if_neg empty, if_neg nofun,
          List.nil_append, again]
      | true =>
        obtain rfl := behind rfl
        rw [if_pos rfl, List.cons_append, List.nil_append, collapsed, if_pos rfl, collapsed,
          if_neg empty, again]
        rfl

private theorem mem_of_mem_collapsed {started due : Bool} {lines : List Text} :
    ∀ line ∈ collapsed started due lines, line = [] ∨ line ∈ lines := by
  induction lines generalizing started due with
  | nil => simp [collapsed]
  | cons first rest ih =>
    rw [collapsed]
    intro line member
    by_cases empty : first = []
    · rw [if_pos empty] at member
      exact (ih line member).imp_right (List.mem_cons_of_mem _)
    · rw [if_neg empty, List.mem_append, List.mem_cons] at member
      rcases member with blank | here | later
      · cases due with
        | false => cases blank
        | true => exact .inl (List.mem_singleton.mp blank)
      · exact .inr (List.mem_cons.mpr (.inl here))
      · exact (ih line later).imp_right (List.mem_cons_of_mem _)

/-- The lines of a text in a layout of its own at some level. -/
def laidOut (unit : Text) (level : Nat) (text : Text) : List Text :=
  ((indent^[level] { unit }).addBlock text).lines.toList

private theorem iterate_indent (layout : Layout) (level : Nat) :
    indent^[level] layout = { layout with level := layout.level + level } := by
  induction level with
  | zero => rfl
  | succ level ih => rw [Function.iterate_succ_apply', ih, indent, Nat.add_assoc]

private theorem laidOut_eq (unit : Text) (level : Nat) (text : Text) :
    laidOut unit level text =
      (collapsed false false text.lines).map (indented unit level) := by
  rw [laidOut, iterate_indent, addBlock, lines_addLines]
  simp

/-- The lines that were laid out before are the lines of their text, but for a single empty one
where there are none. -/
theorem collapsed_lines_unlines {pieces : List Text}
    (unbroken : ∀ piece ∈ pieces, lineFeed ∉ piece) :
    collapsed false false (unlines pieces).lines = collapsed false false pieces := by
  by_cases present : pieces = []
  · subst pieces
    rfl
  · rw [lines_unlines present unbroken]

private theorem laidOut_laidOut {unit : Text} (unbroken : lineFeed ∉ unit) (outer level : Nat)
    (text : Text) :
    laidOut unit outer (unlines (laidOut unit level text)) = laidOut unit (outer + level) text := by
  have single : ∀ piece ∈ laidOut unit level text, lineFeed ∉ piece := by
    rw [laidOut_eq]
    intro piece member
    obtain ⟨line, left, rfl⟩ := List.mem_map.mp member
    refine not_mem_indented unbroken ?_ level
    rcases mem_of_mem_collapsed line left with rfl | among
    · exact List.not_mem_nil
    · exact not_mem_of_mem_lines line among
  rw [laidOut_eq unit outer, collapsed_lines_unlines single, laidOut_eq unit level,
    collapsed_map (fun line => indented_eq_nil_iff unit level), collapsed_collapsed id,
    List.map_map, laidOut_eq]
  exact List.map_congr_left fun line _ => indented_indented unit outer level line

/-- A text at some level has the lines that it has at the margin, each of them indented unless it is
empty. Laying it out inside another layout adds the levels up, and laying it out again changes
nothing. -/
theorem laidOut_levels {unit : Text} (unbroken : lineFeed ∉ unit) (text : Text) (level : Nat) :
    laidOut unit level text = (laidOut unit 0 text).map
        (fun line => if line = [] then [] else times level unit ++ line) ∧
      (∀ outer, laidOut unit outer (unlines (laidOut unit level text)) =
        laidOut unit (outer + level) text) ∧
      laidOut unit 0 (unlines (laidOut unit level text)) = laidOut unit level text := by
  refine ⟨?_, fun outer => laidOut_laidOut unbroken outer level text, ?_⟩
  · have margin : laidOut unit 0 text = collapsed false false text.lines := by
      rw [laidOut_eq, List.map_congr_left fun line _ => indented_zero unit line, List.map_id']
    rw [margin]
    exact laidOut_eq unit level text
  · rw [laidOut_laidOut unbroken 0 level text, Nat.zero_add]

/-- Blank lines in front, between and behind, two levels deep in tabs. -/
theorem laidOut_levels_of_blanks :
    let unit : Text := "\t"
    let text : Text := "\n\nif (x) then\n\n\n  y()\nend\n"
    lineFeed ∉ unit ∧ laidOut unit 2 text =
        ["\t\tif (x) then", "", "\t\t  y()", "\t\tend"].map Text.ofString ∧
      laidOut unit 1 (unlines (laidOut unit 2 text)) = laidOut unit 3 text ∧
      laidOut unit 0 (unlines (laidOut unit 2 text)) = laidOut unit 2 text := by
  intro unit text
  have unbroken : lineFeed ∉ unit := by decide
  obtain ⟨_, deeper, again⟩ := laidOut_levels unbroken text 2
  exact ⟨unbroken, by decide, deeper 1, again⟩

end Layout

end LuaLift
