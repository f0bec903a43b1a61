import LuaLift.Text.Basic
import Mathlib.Data.List.Basic

/-! Texts row by row. Two texts are laid out alike if they have the same rows at the same depths,
each under an indent of its own. Such texts can be put one behind the other, as the first row with
something in it is never indented. -/
namespace LuaLift

namespace Text

theorem lines_of_unbroken {line : Text} (unbroken : lineFeed ∉ line) : lines line = [line] := by
  induction line with
  | nil => rfl
  | cons symbol rest ih =>
    obtain ⟨other, behind⟩ := not_or.mp (mt List.mem_cons.mpr unbroken)
    rw [lines, if_neg (Ne.symm other), ih behind]

theorem lines_append {line : Text} (unbroken : lineFeed ∉ line) (rest : Text) :
    lines (line ++ lineFeed :: rest) = line :: lines rest := by
  induction line with
  | nil => rfl
  | cons symbol others ih =>
    obtain ⟨other, behind⟩ := not_or.mp (mt List.mem_cons.mpr unbroken)
    rw [List.cons_append, lines, if_neg (Ne.symm other), ih behind]

theorem unlines_append {pieces : List Text} (present : pieces ≠ []) (last : Text) :
    unlines (pieces ++ [last]) = unlines pieces ++ lineFeed :: last := by
  induction pieces with
  | nil => exact absurd rfl present
  | cons piece rest ih =>
    cases rest with
    | nil => simp [unlines, join, List.intercalate, List.intersperse]
    | cons next others =>
      have behind := ih (List.cons_ne_nil next others)
      simp only [unlines, join, List.intercalate, List.intersperse, List.cons_append,
        List.flatten_cons] at behind ⊢
      rw [behind]
      simp

/-- The first line of the text is not empty. -/
def Begun (text : Text) : Prop := ∃ symbol rest, text = symbol :: rest ∧ symbol ≠ lineFeed

theorem Begun.ne_nil {text : Text} (begun : text.Begun) : text ≠ [] := by
  obtain ⟨symbol, rest, rfl, _⟩ := begun
  exact List.cons_ne_nil symbol rest

private theorem Begun.front_ne_nil {front rest : Text} (begun : Begun (front ++ lineFeed :: rest)) :
    front ≠ [] := by
  rintro rfl
  obtain ⟨symbol, behind, same, other⟩ := begun
  exact other (List.cons.inj same).1.symm

@[simp] theorem times_zero (unit : Text) : times 0 unit = [] := rfl

theorem times_add (count more : Nat) (unit : Text) :
    times (count + more) unit = times count unit ++ times more unit := by
  rw [times, List.replicate_add, List.flatten_append, times, times]

theorem not_mem_times {symbol : Symbol} {unit : Text} (without : symbol ∉ unit) (count : Nat) :
    symbol ∉ times count unit := by
  intro member
  obtain ⟨copy, among, inside⟩ := List.mem_flatten.mp member
  rw [List.eq_of_mem_replicate among] at inside
  exact without inside

end Text

open Text

/-- One line of a text: how deep it is, and what stands there. -/
structure Row where
  depth : Nat
  text : Text
deriving DecidableEq, Repr

namespace Row

/-- The line as it is written with some indent for each level. -/
def under (unit : Text) (row : Row) : Text := times row.depth unit ++ row.text

/-- The row is one line, and it is only indented if it is not empty and does not come first. -/
structure Fits (begun : Bool) (row : Row) : Prop where
  unbroken : lineFeed ∉ row.text
  indented : row.depth ≠ 0 → begun = true ∧ row.text ≠ []

/-- Whether there is a row with something in it, up to this one. -/
def reached (begun : Bool) (row : Row) : Bool := begun || !row.text.isEmpty

variable {row : Row} {begun : Bool}

private theorem Fits.under_eq (fits : row.Fits false) (unit : Text) :
    row.under unit = row.text := by
  have margin : row.depth = 0 := by
    by_contra deep
    cases (fits.indented deep).1
  rw [under, margin, times_zero, List.nil_append]

theorem Fits.unbroken_under (fits : row.Fits begun) {unit : Text} (unbroken : lineFeed ∉ unit) :
    lineFeed ∉ row.under unit := by
  rw [under, List.mem_append, not_or]
  exact ⟨not_mem_times unbroken row.depth, fits.unbroken⟩

/-- A row is as empty as what stands there. -/
theorem Fits.under_eq_nil_iff (fits : row.Fits begun) (unit : Text) :
    row.under unit = [] ↔ row.text = [] := by
  constructor
  · intro empty
    exact (List.append_eq_nil_iff.mp empty).2
  · intro empty
    have margin : row.depth = 0 := by
      by_contra deep
      exact (fits.indented deep).2 empty
    rw [under, margin, empty, times_zero, List.nil_append]

end Row

/-- The same rows on both sides. It is told whether a row with something in it stands before, and
whether one has come up to the end. -/
inductive Laid (first second : Text) : Bool → Bool → Text → Text → Prop where
  | last {begun : Bool} (row : Row) (fits : row.Fits begun) :
      Laid first second begun (row.reached begun) (row.under first) (row.under second)
  | more {begun ended : Bool} {left right : Text} (row : Row) (fits : row.Fits begun)
      (rest : Laid first second (row.reached begun) ended left right) :
      Laid first second begun ended (row.under first ++ lineFeed :: left)
        (row.under second ++ lineFeed :: right)

namespace Laid

variable {first second left right : Text} {begun ended : Bool}

/-- What may come first may come behind something. -/
theorem behind (laid : Laid first second begun ended left right) {more : Bool}
    (kept : begun = true → more = true) : ∃ closed, Laid first second more closed left right := by
  induction laid generalizing more with
  | last row fits =>
    have later : row.Fits more := ⟨fits.unbroken, fun deep =>
      ⟨kept (fits.indented deep).1, (fits.indented deep).2⟩⟩
    exact ⟨_, .last row later⟩
  | @more begun ended left right row fits rest ih =>
    have later : row.Fits more := ⟨fits.unbroken, fun deep =>
      ⟨kept (fits.indented deep).1, (fits.indented deep).2⟩⟩
    have reaches : row.reached begun = true → row.reached more = true := by
      intro reached
      rw [Row.reached, Bool.or_eq_true] at reached ⊢
      exact reached.imp_left kept
    obtain ⟨closed, laid⟩ := ih reaches
    exact ⟨closed, .more row later laid⟩

private theorem ended_of_begun (laid : Laid first second begun ended left right)
    (before : begun = true) :
    ended = true := by
  induction laid with
  | last row fits => rw [Row.reached, before, Bool.true_or]
  | more row fits rest ih => exact ih (by rw [Row.reached, before, Bool.true_or])

/-- Texts put one behind the other: the last row of the one goes on with the first of the other. -/
theorem append (laid : Laid first second begun ended left right) {other another : Text}
    {closed : Bool} (next : Laid first second false closed other another) :
    ∃ finished, Laid first second begun finished (left ++ other) (right ++ another) := by
  induction laid with
  | @last begun row fits =>
    have joined {following : Row} (fitting : following.Fits false) :
        (⟨row.depth, row.text ++ following.text⟩ : Row).Fits begun := by
      refine ⟨?_, fun deep => ⟨(fits.indented deep).1, ?_⟩⟩
      · rw [List.mem_append, not_or]
        exact ⟨fits.unbroken, fitting.unbroken⟩
      · exact List.append_ne_nil_of_left_ne_nil (fits.indented deep).2 _
    cases next with
    | last following fitting =>
      have whole : Laid first second begun _ _ _ := .last _ (joined fitting)
      simp only [Row.under, ← List.append_assoc] at whole
      rw [fitting.under_eq, fitting.under_eq]
      exact ⟨_, whole⟩
    | more following fitting rest =>
      have reaches : following.reached false = true →
          (⟨row.depth, row.text ++ following.text⟩ : Row).reached begun = true := by
        intro reached
        simp only [Row.reached, Bool.false_or, Bool.or_eq_true, Bool.not_eq_true',
          List.isEmpty_eq_false_iff] at reached ⊢
        exact .inr (List.append_ne_nil_of_right_ne_nil _ reached)
      obtain ⟨finished, later⟩ := rest.behind reaches
      rw [fitting.under_eq, fitting.under_eq]
      refine ⟨finished, ?_⟩
      simpa only [Row.under, List.append_assoc] using Laid.more _ (joined fitting) later
  | more row fits rest ih =>
    obtain ⟨finished, later⟩ := ih
    refine ⟨finished, ?_⟩
    simpa only [List.append_assoc, List.cons_append] using Laid.more row fits later

/-- Texts one below the other. -/
theorem above (laid : Laid first second begun ended left right) {other another : Text}
    {closed : Bool} (next : Laid first second ended closed other another) :
    Laid first second begun closed (left ++ lineFeed :: other) (right ++ lineFeed :: another) := by
  induction laid with
  | last row fits => exact .more row fits next
  | more row fits rest ih =>
    simpa only [List.append_assoc, List.cons_append] using Laid.more row fits (ih next)

/-- A text without indented rows is laid out like itself. -/
theorem same (first second text : Text) : ∃ ended, Laid first second false ended text text := by
  induction text with
  | nil =>
    have empty : Row.Fits false ⟨0, []⟩ := ⟨List.not_mem_nil, fun deep => absurd rfl deep⟩
    exact ⟨_, .last ⟨0, []⟩ empty⟩
  | cons symbol rest ih =>
    obtain ⟨ended, laid⟩ := ih
    by_cases broken : symbol = lineFeed
    · subst broken
      have empty : Row.Fits false ⟨0, []⟩ := ⟨List.not_mem_nil, fun deep => absurd rfl deep⟩
      exact ⟨ended, .more ⟨0, []⟩ empty laid⟩
    · have single : Row.Fits false ⟨0, [symbol]⟩ := by
        refine ⟨?_, fun deep => absurd rfl deep⟩
        rw [List.mem_singleton]
        exact Ne.symm broken
      exact (Laid.last ⟨0, [symbol]⟩ single).append laid

theorem head (laid : Laid first second false ended left right) : left.head? = right.head? := by
  cases laid with
  | last row fits => rw [fits.under_eq, fits.under_eq]
  | more row fits rest =>
    rw [fits.under_eq, fits.under_eq]
    cases row.text <;> rfl

theorem ended_of_filled (laid : Laid first second false ended left right) (begun : left.Begun) :
    ended = true := by
  cases laid with
  | last row fits =>
    rw [fits.under_eq] at begun
    rw [Row.reached, Bool.false_or, Bool.not_eq_true', List.isEmpty_eq_false_iff]
    exact begun.ne_nil
  | more row fits rest =>
    rw [fits.under_eq] at begun
    apply rest.ended_of_begun
    rw [Row.reached, Bool.false_or, Bool.not_eq_true', List.isEmpty_eq_false_iff]
    exact begun.front_ne_nil

/-- Behind a row with something in it, a text may go deeper up to its first line feed. -/
theorem deeper (laid : Laid first second false ended left right) (begun : left.Begun)
    (level : Nat) :
    Laid first second true true (times level first ++ left) (times level second ++ right) := by
  have deep {row : Row} (fits : row.Fits false) (present : row.text ≠ []) :
      (⟨level, row.text⟩ : Row).Fits true := ⟨fits.unbroken, fun _ => ⟨rfl, present⟩⟩
  cases laid with
  | last row fits =>
    rw [fits.under_eq] at begun
    rw [fits.under_eq, fits.under_eq]
    exact .last ⟨level, row.text⟩ (deep fits begun.ne_nil)
  | more row fits rest =>
    rw [fits.under_eq] at begun
    obtain ⟨closed, later⟩ := rest.behind fun _ => rfl
    obtain rfl := later.ended_of_begun rfl
    rw [fits.under_eq, fits.under_eq, ← List.append_assoc, ← List.append_assoc]
    exact .more ⟨level, row.text⟩ (deep fits begun.front_ne_nil) later

/-- The lines of both texts are the same rows. -/
theorem exists_rows (laid : Laid first second begun ended left right)
    (unbroken : lineFeed ∉ first) (also : lineFeed ∉ second) :
    ∃ rows : List Row, (∀ row ∈ rows, row.text = [] → row.depth = 0) ∧
      left.lines = rows.map (Row.under first) ∧ right.lines = rows.map (Row.under second) := by
  have margin {begun : Bool} {row : Row} (fits : row.Fits begun) (empty : row.text = []) :
      row.depth = 0 := by
    by_contra deep
    exact (fits.indented deep).2 empty
  induction laid with
  | last row fits =>
    refine ⟨[row], List.forall_mem_singleton.mpr (margin fits), ?_, ?_⟩
    · exact lines_of_unbroken (fits.unbroken_under unbroken)
    · exact lines_of_unbroken (fits.unbroken_under also)
  | more row fits rest ih =>
    obtain ⟨rows, plain, leftLines, rightLines⟩ := ih
    refine ⟨row :: rows, List.forall_mem_cons.mpr ⟨margin fits, plain⟩, ?_, ?_⟩
    · rw [lines_append (fits.unbroken_under unbroken), leftLines, List.map_cons]
    · rw [lines_append (fits.unbroken_under also), rightLines, List.map_cons]

end Laid

end LuaLift
