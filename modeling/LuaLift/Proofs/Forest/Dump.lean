import LuaLift.Proofs.Forest.Ownership
import LuaLift.Proofs.Instruction.Text
import LuaLift.Proofs.Layout.Blanks

/-! The dump of a forest. It has a row for each node, and the indents of the rows tell how the nodes
lie below each other: what is deeper than a row lies below it up to the next row that is not. So
forests that are dumped alike are alike. -/
namespace LuaLift

open Text

namespace Node

/-! ### The rows of a dump -/

mutual
/-- The nodes of a tree with their depths, each before those below it. -/
def outline (depth : Nat) : Node → List (Nat × Node)
  | ⟨instruction, children, index⟩ =>
    (depth, ⟨instruction, children, index⟩) :: outlineAll (depth + 1) children

def outlineAll (depth : Nat) : List Node → List (Nat × Node)
  | [] => []
  | node :: rest => node.outline depth ++ outlineAll depth rest
end

@[simp] theorem outlineAll_nil (depth : Nat) : outlineAll depth [] = [] := by
  rw [outlineAll]

@[simp] theorem outlineAll_cons (depth : Nat) (node : Node) (rest : List Node) :
    outlineAll depth (node :: rest) =
      (depth, node) :: (outlineAll (depth + 1) node.children ++ outlineAll depth rest) := by
  cases node
  rw [outlineAll, outline, List.cons_append]

private theorem outlineAll_map_snd (depth : Nat) (forest : List Node) :
    (outlineAll depth forest).map Prod.snd = preorderAll forest := by
  induction forest using induct_forest generalizing depth with
  | nil => rw [outlineAll_nil, List.map_nil, preorderAll]
  | cons node rest below behind =>
    rw [outlineAll_cons, List.map_cons, List.map_append, below, behind, preorderAll, preorder_eq,
      List.cons_append]

private theorem outlineAll_length (depth : Nat) (forest : List Node) :
    (outlineAll depth forest).length = sizeAll forest := by
  induction forest using induct_forest generalizing depth with
  | nil => rw [outlineAll_nil, List.length_nil, sizeAll]
  | cons node rest below behind =>
    rw [outlineAll_cons, List.length_cons, List.length_append, below, behind, sizeAll, size_eq]
    omega

/-- No node of a forest lies above its trees. -/
theorem le_of_mem_outlineAll {forest : List Node} {depth : Nat} :
    ∀ item ∈ outlineAll depth forest, depth ≤ item.1 := by
  induction forest using induct_forest generalizing depth with
  | nil =>
    rw [outlineAll_nil]
    exact nofun
  | cons node rest below behind =>
    rw [outlineAll_cons, List.forall_mem_cons]
    refine ⟨Nat.le_refl depth, ?_⟩
    intro item member
    rcases List.mem_append.mp member with inside | later
    · exact Nat.le_of_succ_le (below item inside)
    · exact behind item later

/-- The row of a node at some depth. -/
def row (unit : Text) (item : Nat × Node) : Except Fault Text := do
  let shown ← item.2.instruction.text
  pure (Row.under unit ⟨item.1, labelled item.2.index shown⟩)

variable {unit text : Text} {rows : List Text} {depth : Nat} {forest : List Node}

private theorem dumpAll_eq (unit : Text) (depth : Nat) (forest : List Node) :
    dumpAll unit depth forest = (outlineAll depth forest).mapM (row unit) := by
  induction forest using induct_forest generalizing depth with
  | nil => rw [dumpAll, outlineAll_nil, List.mapM_nil]
  | cons node rest below behind =>
    cases node
    rw [outlineAll_cons, dumpAll, dumpLines, below, behind]
    simp [row, Row.under]

private theorem dumpLines_ne_nil {node : Node} (dumped : node.dumpLines unit depth = .ok rows) :
    rows ≠ [] := by
  cases node
  simp only [dumpLines, bind_eq_ok, pure_eq_ok] at dumped
  obtain ⟨shown, _, below, _, rfl⟩ := dumped
  exact List.cons_ne_nil _ _

private theorem dumpAll_eq_mapM (unit : Text) (depth : Nat) (forest : List Node) :
    dumpAll unit depth forest = (forest.mapM (dumpLines unit depth)).map List.flatten := by
  induction forest with
  | nil =>
    rw [dumpAll]
    rfl
  | cons node rest ih =>
    rw [dumpAll, ih, List.mapM_cons]
    cases node.dumpLines unit depth with
    | error fault => rfl
    | ok first => cases rest.mapM (dumpLines unit depth) <;> rfl

private theorem mapM_dump (unit : Text) (forest : List Node) :
    forest.mapM (dump unit) = (forest.mapM (dumpLines unit 0)).map (List.map unlines) := by
  induction forest with
  | nil => rfl
  | cons node rest ih =>
    rw [List.mapM_cons, List.mapM_cons, ih, dump]
    cases node.dumpLines unit 0 with
    | error fault => rfl
    | ok first => cases rest.mapM (dumpLines unit 0) <;> rfl

/-- The dumps of the trees, one after another, are the rows of the whole forest. -/
theorem dumpForest_eq (unit : Text) (forest : List Node) :
    dumpForest unit forest = (dumpAll unit 0 forest).map unlines := by
  rw [dumpForest, mapM_dump, dumpAll_eq_mapM]
  cases dumped : forest.mapM (dumpLines unit 0) with
  | error fault => rfl
  | ok blocks =>
    have present : ∀ block ∈ blocks, block ≠ [] := by
      rw [mapM_eq_ok] at dumped
      induction dumped with
      | nil => exact nofun
      | cons here _ ih => exact List.forall_mem_cons.mpr ⟨dumpLines_ne_nil here, ih⟩
    exact congrArg Except.ok (unlines_flatten present)

/-- There is a dump of a forest where there is a text of every node. -/
theorem exists_dumpForest (unit : Text)
    (each : ∀ inner ∈ preorderAll forest, ∃ shown, inner.instruction.text = .ok shown) :
    ∃ text, dumpForest unit forest = .ok text := by
  have written : ∀ item ∈ outlineAll 0 forest, ∃ line, row unit item = .ok line := by
    intro item member
    have among : item.2 ∈ preorderAll forest := by
      rw [← outlineAll_map_snd 0]
      exact List.mem_map_of_mem member
    obtain ⟨shown, reads⟩ := each item.2 among
    exact ⟨Row.under unit ⟨item.1, labelled item.2.index shown⟩, by rw [row, reads]; rfl⟩
  obtain ⟨rows, dumped⟩ := exists_mapM written
  rw [dumpForest_eq, dumpAll_eq, dumped]
  exact ⟨_, rfl⟩

private theorem dumpForest_singleton (unit : Text) (node : Node) :
    dumpForest unit [node] = node.dump unit := by
  rw [dumpForest, List.mapM_cons, List.mapM_nil]
  cases node.dump unit with
  | error fault => rfl
  | ok text => exact congrArg Except.ok (join_singleton _ text)

/-! ### Reading a dump -/

/-- Whether two rows are about nodes at the same depth that read the same. -/
structure Beside (left right : Nat × Node) : Prop where
  depth : left.1 = right.1
  instruction : left.2.instruction.Same right.2.instruction
  index : left.2.index = right.2.index

private theorem times_inj {count other : Nat} (present : unit ≠ [])
    (same : times count unit = times other unit) : count = other := by
  have lengths := congrArg List.length same
  simp only [times, List.length_flatten, List.map_replicate, List.sum_replicate, smul_eq_mul]
    at lengths
  exact Nat.eq_of_mul_eq_mul_right (List.length_pos_iff.mpr present) lengths

/-- An indent ends at the first bracket, and an index at the next one. -/
theorem beside_of_row {left right : Nat × Node} {line : Text} (present : unit ≠ [])
    (plain : Symbol.char '[' ∉ unit) (written : row unit left = .ok line)
    (writes : row unit right = .ok line) : Beside left right := by
  simp only [row, bind_eq_ok, pure_eq_ok] at written writes
  obtain ⟨shown, reads, rfl⟩ := written
  obtain ⟨other, also, same⟩ := writes
  have bracket (value : Int) : Symbol.char ']' ∉ decimal value :=
    not_mem_decimal (by decide) (by decide) value
  simp only [Row.under, labelled, List.append_assoc] at same
  obtain ⟨indent, behind⟩ := cut_inj (not_mem_times plain _) (not_mem_times plain _) same
  obtain ⟨index, ends⟩ := cut_inj (bracket _) (bracket _) behind
  obtain rfl := List.tail_eq_of_cons_eq ends
  exact ⟨(times_inj present indent).symm, .of_text reads also, (decimal_inj index).symm⟩

private theorem beside_of_rows {left right : List (Nat × Node)} (present : unit ≠ [])
    (plain : Symbol.char '[' ∉ unit) (written : left.mapM (row unit) = .ok rows)
    (writes : right.mapM (row unit) = .ok rows) : List.Forall₂ Beside left right := by
  rw [mapM_eq_ok] at written writes
  induction written generalizing right with
  | nil =>
    cases writes
    exact .nil
  | cons own rest ih =>
    cases writes with
    | cons also others => exact .cons (beside_of_row present plain own also) (ih others)

/-- What lies below a row ends where the next row is not deeper. -/
theorem takeWhile_deeper {inner : List (Nat × Node)} (deep : ∀ item ∈ inner, depth < item.1)
    (rest : List Node) :
    ((inner ++ outlineAll depth rest).map Prod.fst).takeWhile (depth < ·) = inner.map Prod.fst := by
  have below : ∀ place ∈ inner.map Prod.fst, decide (depth < place) = true := by
    intro place member
    obtain ⟨item, among, rfl⟩ := List.mem_map.mp member
    exact decide_eq_true (deep item among)
  rw [List.map_append, List.takeWhile_append_of_pos below]
  cases rest with
  | nil => rw [outlineAll_nil, List.map_nil, List.takeWhile_nil, List.append_nil]
  | cons node rest =>
    rw [outlineAll_cons, List.map_cons, List.takeWhile_cons_of_neg, List.append_nil]
    simp

/-- The rows below two rows are told apart from those behind them by their depths. -/
theorem beside_split {inner outer : List (Nat × Node)} {rest others : List Node}
    (deep : ∀ item ∈ inner, depth < item.1) (deeper : ∀ item ∈ outer, depth < item.1)
    (beside : List.Forall₂ Beside (inner ++ outlineAll depth rest)
      (outer ++ outlineAll depth others)) :
    List.Forall₂ Beside inner outer ∧
      List.Forall₂ Beside (outlineAll depth rest) (outlineAll depth others) := by
  have depths : (inner ++ outlineAll depth rest).map Prod.fst =
      (outer ++ outlineAll depth others).map Prod.fst := by
    rw [← List.forall₂_eq_eq_eq, List.forall₂_map_left_iff, List.forall₂_map_right_iff]
    exact beside.imp fun _ _ => Beside.depth
  have lengths : inner.length = outer.length := by
    have places := congrArg (List.takeWhile (depth < ·)) depths
    rw [takeWhile_deeper deep, takeWhile_deeper deeper] at places
    simpa using congrArg List.length places
  have front := List.forall₂_take inner.length beside
  have behind := List.forall₂_drop inner.length beside
  rw [List.take_left, lengths, List.take_left] at front
  rw [List.drop_left, lengths, List.drop_left] at behind
  exact ⟨front, behind⟩

/-- Forests with the same outline are alike. -/
theorem alike_of_beside {left right : List Node}
    (beside : List.Forall₂ Beside (outlineAll depth left) (outlineAll depth right)) :
    List.Forall₂ Alike left right := by
  induction left using induct_forest generalizing depth right with
  | nil =>
    cases right with
    | nil => exact .nil
    | cons other more =>
      rw [outlineAll_nil, outlineAll_cons] at beside
      cases beside
  | cons node rest below behind =>
    cases right with
    | nil =>
      rw [outlineAll_nil, outlineAll_cons] at beside
      cases beside
    | cons other more =>
      rw [outlineAll_cons, outlineAll_cons] at beside
      cases beside with
      | cons here following =>
        obtain ⟨inside, later⟩ := beside_split le_of_mem_outlineAll le_of_mem_outlineAll following
        exact .cons (.node here.instruction (below inside) here.index) (behind later)

private theorem unbroken_row {item : Nat × Node} {line : Text} (unbroken : lineFeed ∉ unit)
    (written : row unit item = .ok line) : lineFeed ∉ line := by
  simp only [row, bind_eq_ok, pure_eq_ok] at written
  obtain ⟨shown, reads, rfl⟩ := written
  have own := Instruction.unbroken_text reads
  have number : lineFeed ∉ decimal item.2.index := not_mem_decimal (by decide) (by decide) _
  simp only [Row.under, labelled, List.mem_append, not_or]
  exact ⟨not_mem_times unbroken item.1, ⟨⟨by decide, number⟩, by decide⟩, own⟩

private theorem unbroken_rows {items : List (Nat × Node)} (unbroken : lineFeed ∉ unit)
    (written : items.mapM (row unit) = .ok rows) : ∀ line ∈ rows, lineFeed ∉ line := by
  rw [mapM_eq_ok] at written
  induction written with
  | nil => exact nofun
  | cons here _ ih => exact List.forall_mem_cons.mpr ⟨unbroken_row unbroken here, ih⟩

/-- The lines of a dump are its rows. -/
theorem rows_of_dumpForest (unbroken : lineFeed ∉ unit) (present : forest ≠ [])
    (dumped : dumpForest unit forest = .ok text) :
    (outlineAll 0 forest).mapM (row unit) = .ok (lines text) := by
  rw [dumpForest_eq, dumpAll_eq] at dumped
  cases made : (outlineAll 0 forest).mapM (row unit) with
  | error fault =>
    rw [made] at dumped
    cases dumped
  | ok rows =>
    rw [made] at dumped
    obtain rfl : unlines rows = text := Except.ok.inj dumped
    have filled : rows ≠ [] := by
      obtain ⟨node, rest, rfl⟩ := List.exists_cons_of_ne_nil present
      rw [mapM_eq_ok, outlineAll_cons, List.forall₂_cons_left_iff] at made
      obtain ⟨line, others, _, _, rfl⟩ := made
      exact List.cons_ne_nil line others
    rw [lines_unlines filled (unbroken_rows unbroken made)]

/-- Only the empty forest has an empty dump. -/
theorem eq_nil_of_dumpForest (unbroken : lineFeed ∉ unit)
    (dumped : dumpForest unit forest = .ok []) : forest = [] := by
  by_contra present
  have rows := rows_of_dumpForest unbroken present dumped
  obtain ⟨node, rest, rfl⟩ := List.exists_cons_of_ne_nil present
  rw [mapM_eq_ok, outlineAll_cons] at rows
  cases rows with
  | cons here behind =>
    simp only [row, bind_eq_ok, pure_eq_ok] at here
    obtain ⟨shown, _, same⟩ := here
    exact absurd same (by simp [Row.under, labelled, ofString, ofChars])

/-- Forests with the same dump are alike, if indents can be seen and are neither taken for the end of
a line nor for the bracket before an index. -/
theorem alike_of_dumpForest {left right : List Node} (present : unit ≠ [])
    (plain : Symbol.char '[' ∉ unit) (unbroken : lineFeed ∉ unit)
    (dumped : dumpForest unit left = .ok text) (also : dumpForest unit right = .ok text) :
    List.Forall₂ Alike left right := by
  by_cases empty : left = []
  · subst left
    obtain rfl : [] = text := Except.ok.inj dumped
    rw [eq_nil_of_dumpForest unbroken also]
    exact .nil
  · have filled : right ≠ [] := by
      intro missing
      subst right
      obtain rfl : [] = text := Except.ok.inj also
      exact empty (eq_nil_of_dumpForest unbroken dumped)
    apply alike_of_beside
    apply beside_of_rows present plain
    · exact rows_of_dumpForest unbroken empty dumped
    · exact rows_of_dumpForest unbroken filled also

private theorem length_lines_dump {node : Node} (unbroken : lineFeed ∉ unit)
    (dumped : node.dump unit = .ok text) : (lines text).length = node.size := by
  rw [← dumpForest_singleton] at dumped
  have rows := mapM_eq_ok.mp (rows_of_dumpForest unbroken (List.cons_ne_nil node []) dumped)
  rw [← rows.length_eq, outlineAll_length, sizeAll, sizeAll, Nat.add_zero]

/-- Under an indent of blanks, the dump of a tree that can be written has a line for each node,
and forests with the same dump have the same shape, with the same opcodes and the same operands
at the same indices. -/
theorem dumpForest_faithful (width : Nat) (wide : 0 < width) :
    (∀ forest : List Node, (∀ inner ∈ preorderAll forest, inner.instruction.Writable) →
      (∃ text, dumpForest (List.replicate width space) forest = .ok text) ∧
      ∀ node ∈ forest, ∃ text, node.dump (List.replicate width space) = .ok text) ∧
    (∀ (node : Node) (text : Text), node.dump (List.replicate width space) = .ok text →
      (lines text).length = node.size) ∧
    ∀ (left right : List Node) (text : Text),
      dumpForest (List.replicate width space) left = .ok text →
      dumpForest (List.replicate width space) right = .ok text →
      List.Forall₂ Alike left right := by
  have blank {symbol : Symbol} (other : symbol ≠ space) : symbol ∉ List.replicate width space :=
    fun member => other (List.eq_of_mem_replicate member)
  have unbroken : lineFeed ∉ List.replicate width space := blank (by decide)
  have present : List.replicate width space ≠ [] :=
    List.length_pos_iff.mp (List.length_replicate ▸ wide)
  refine ⟨?_, fun node text => length_lines_dump unbroken, ?_⟩
  · intro forest writable
    have each : ∀ inner ∈ preorderAll forest, ∃ shown, inner.instruction.text = .ok shown :=
      fun inner inside => (writable inner inside).exists_text
    refine ⟨exists_dumpForest _ each, ?_⟩
    intro node member
    rw [← dumpForest_singleton]
    apply exists_dumpForest
    intro inner inside
    rw [preorderAll_singleton] at inside
    exact each inner (mem_preorderAll.mpr ⟨node, member, inside⟩)
  · intro left right text
    exact alike_of_dumpForest present (blank (by decide)) unbroken

/-- Two negated sums whose words differ in bits that no operand is read from. -/
theorem dumpForest_faithful_of_unread_bits :
    let unit := List.replicate 2 space
    let left : Node := ⟨⟨31, {}⟩, [⟨⟨23, {}⟩, [], 0⟩], 1⟩
    let right : Node := ⟨⟨95, {}⟩, [⟨⟨151, {}⟩, [], 0⟩], 1⟩
    ∃ text, (left.dump unit = .ok text ∧ (lines text).length = left.size) ∧
      dumpForest unit [left] = .ok text ∧ dumpForest unit [right] = .ok text ∧
      List.Forall₂ Alike [left] [right] := by
  have faithful := dumpForest_faithful 2 (by decide)
  have shown : dumpForest (List.replicate 2 space) [⟨⟨31, {}⟩, [⟨⟨23, {}⟩, [], 0⟩], 1⟩] =
      .ok (ofString "[1] NOT()\n  [0] ADD()") := by decide
  have shows : dumpForest (List.replicate 2 space) [⟨⟨95, {}⟩, [⟨⟨151, {}⟩, [], 0⟩], 1⟩] =
      .ok (ofString "[1] NOT()\n  [0] ADD()") := by decide
  have alone := (dumpForest_singleton _ _).symm.trans shown
  exact ⟨_, ⟨alone, faithful.2.1 _ _ alone⟩, shown, shows, faithful.2.2 _ _ _ shown shows⟩

end Node

end LuaLift
