import LuaLift.Proofs.Source.Faults

/-! The indent of a text is a choice of layout. Under any two indents without line feeds a function
is refused for the same fault, or its two texts have the same rows at the same depths. -/
namespace LuaLift

open Text

/-- Two layouts under indents of their own, at the same level and with the same rows so far. -/
inductive Drafts (first second : Text) : Nat → Layout → Layout → Prop where
  | empty : Drafts first second 0 { unit := first } { unit := second }
  | written {level : Nat} {lines others : Array Text} (blankDue : Bool)
      (present : lines.toList ≠ []) (also : others.toList ≠ [])
      (laid : Laid first second false true (unlines lines.toList) (unlines others.toList)) :
      Drafts first second level ⟨first, level, lines, blankDue, true⟩
        ⟨second, level, others, blankDue, true⟩

namespace Drafts

variable {first second : Text} {level : Nat} {layout filled : Layout}

/-- A line that comes to the same rows on both sides, once it is indented. -/
theorem addLine (drafts : Drafts first second level layout filled) {line other : Text}
    (blank : line = [] ↔ other = [])
    (laid : line ≠ [] → Laid first second layout.started true (times level first ++ line)
      (times level second ++ other)) :
    Drafts first second level (layout.addLine line) (filled.addLine other) := by
  by_cases empty : line = []
  · obtain rfl := empty
    obtain rfl := blank.mp rfl
    cases drafts with
    | empty => exact .empty
    | written blankDue present also before =>
      exact .written (blankDue || true) present also before
  · have behind := laid empty
    have stays : ¬ line.isEmpty = true := by rwa [List.isEmpty_iff]
    have alsoStays : ¬ other.isEmpty = true := by rwa [List.isEmpty_iff, ← blank]
    cases drafts with
    | empty =>
      rw [Layout.addLine, Layout.addLine, if_neg stays, if_neg alsoStays]
      refine .written false (List.cons_ne_nil _ _) (List.cons_ne_nil _ _) ?_
      simpa [unlines, join, List.intercalate, List.intersperse] using behind
    | @written level lines others blankDue present also before =>
      rw [Layout.addLine, Layout.addLine, if_neg stays, if_neg alsoStays]
      cases blankDue with
      | false =>
        refine .written false (by simp) (by simp) ?_
        simp only [Bool.false_eq_true, ↓reduceIte, Array.toList_push]
        rw [unlines_append present, unlines_append also]
        exact before.above behind
      | true =>
        have row : Row.Fits true ⟨0, []⟩ := ⟨List.not_mem_nil, fun deep => absurd rfl deep⟩
        have more (pieces : List Text) : pieces ++ [[]] ≠ [] := List.concat_ne_nil [] pieces
        refine .written false (by simp) (by simp) ?_
        simp only [↓reduceIte, Array.toList_push]
        rw [unlines_append (more _), unlines_append (more _), unlines_append present,
          unlines_append also]
        exact (before.above (.last ⟨0, []⟩ row)).above behind

/-- Nothing is indented before there is something to indent it behind. -/
theorem started_of_deep (drafts : Drafts first second level layout filled) (deep : level ≠ 0) :
    layout.started = true := by
  cases drafts with
  | empty => exact absurd rfl deep
  | written => rfl

/-- A line of its own, with whatever line feeds it has. -/
theorem addText (drafts : Drafts first second level layout filled) {text other : Text}
    (laid : Laid first second false ended text other) (begun : text.Begun) :
    Drafts first second level (layout.addLine text) (filled.addLine other) := by
  have present := begun.ne_nil
  have also : other ≠ [] := by
    intro empty
    have same := laid.head
    rw [empty, List.head?_nil, List.head?_eq_none_iff] at same
    exact present same
  refine drafts.addLine (iff_of_false present also) fun _ => ?_
  cases drafts with
  | empty =>
    obtain rfl := laid.ended_of_filled begun
    exact laid
  | written => exact laid.deeper begun level

/-- One row of a text that was laid out before, now deeper. -/
theorem addRow (drafts : Drafts first second level layout filled) {row : Row}
    (fits : row.Fits begun) (kept : begun = true → layout.started = true) :
    Drafts first second level (layout.addLine (row.under first))
      (filled.addLine (row.under second)) := by
  have blank := (fits.under_eq_nil_iff first).trans (fits.under_eq_nil_iff second).symm
  refine drafts.addLine blank fun present => ?_
  have filled : row.text ≠ [] := mt (fits.under_eq_nil_iff first).mpr present
  have deeper : Row.Fits layout.started ⟨level + row.depth, row.text⟩ := by
    refine ⟨fits.unbroken, fun deep => ⟨?_, filled⟩⟩
    by_cases inside : level = 0
    · exact kept (fits.indented (by simpa [inside] using deep)).1
    · exact drafts.started_of_deep inside
  have laid : Laid first second layout.started _ _ _ := .last _ deeper
  simp only [Row.under, times_add, List.append_assoc] at laid
  have reaches : Row.reached layout.started ⟨level + row.depth, row.text⟩ = true := by
    rw [Row.reached, List.isEmpty_eq_false_iff.mpr filled, Bool.not_false, Bool.or_true]
  rw [reaches] at laid
  exact laid

/-- All rows of a text. -/
theorem addBlock (laid : Laid first second begun ended left right) (unbroken : lineFeed ∉ first)
    (also : lineFeed ∉ second) (drafts : Drafts first second level layout filled)
    (kept : begun = true → layout.started = true) :
    Drafts first second level (layout.addBlock left) (filled.addBlock right) := by
  induction laid generalizing layout filled with
  | last row fits =>
    rw [Layout.addBlock, Layout.addBlock, lines_of_unbroken (fits.unbroken_under unbroken),
      lines_of_unbroken (fits.unbroken_under also)]
    exact drafts.addRow fits kept
  | more row fits rest ih =>
    rw [Layout.addBlock, Layout.addBlock, lines_append (fits.unbroken_under unbroken),
      lines_append (fits.unbroken_under also)]
    refine ih (drafts.addRow fits kept) fun reached => ?_
    rw [Row.reached, Bool.or_eq_true] at reached
    rw [Layout.started_addLine, Bool.or_eq_true]
    refine reached.imp kept fun present => ?_
    rw [Bool.not_eq_true', List.isEmpty_eq_false_iff] at present ⊢
    exact mt (fits.under_eq_nil_iff first).mp present

private theorem indent (drafts : Drafts first second level layout filled)
    (started : layout.started = true) :
    Drafts first second (level + 1) layout.indent filled.indent := by
  cases drafts with
  | empty => cases started
  | written blankDue present also laid => exact .written blankDue present also laid

private theorem dedent (drafts : Drafts first second (level + 1) layout filled) :
    ∃ outer outside, layout.dedent = .ok outer ∧ filled.dedent = .ok outside ∧
      Drafts first second level outer outside := by
  cases drafts with
  | written blankDue present also laid =>
    exact ⟨_, _, rfl, rfl, .written blankDue present also laid⟩

/-- The texts of two layouts have the same rows. -/
theorem text (drafts : Drafts first second level layout filled) :
    ∃ ended, Laid first second false ended layout.text filled.text := by
  cases drafts with
  | empty => exact Laid.same first second []
  | written blankDue present also laid => exact ⟨true, laid⟩

end Drafts

/-- The same steps under two indents. -/
def indents {first second : Text} (unbroken : lineFeed ∉ first) (also : lineFeed ∉ second) :
    Comparison where
  toCoupling := (checking fun _ => True).toCoupling
  texts left right := ∃ ended, Laid first second false ended left right
  layouts := Drafts first second
  same := Laid.same first second
  append := by
    rintro left right other another ⟨_, laid⟩ ⟨_, next⟩
    exact laid.append next
  head := by
    rintro text other ⟨_, laid⟩
    exact laid.head
  line := by
    rintro layout filled text other drafts ⟨_, laid⟩ begun
    exact drafts.addText laid begun
  block := by
    rintro level layout filled text other drafts ⟨_, laid⟩
    exact Drafts.addBlock laid unbroken also drafts nofun
  indent := Drafts.indent
  dedent := Drafts.dedent
  text := Drafts.text

section Statements

variable {first second : Text} {unbroken : lineFeed ∉ first} {also : lineFeed ∉ second}

private theorem Drafts.addShown {level : Nat} {layout filled : Layout} (node : Node)
    {text other : Option Text} (drafts : Drafts first second level layout filled)
    (alike : Option.Rel (indents unbroken also).texts text other) :
    (indents unbroken also).runs (Drafts first second level) (layout.addShown node text)
      (filled.addShown node other) := by
  cases alike with
  | none =>
    refine Comparison.bind_lift (c := indents unbroken also) (fun _ _ => trivial) fun shown _ => ?_
    obtain ⟨_, laid⟩ := Laid.same first second
      ("-- " ++ ("unsupported: " ++ shown ++ " at " ++ Text.decimal node.index))
    exact Checked.pure (drafts.addText laid ⟨.char '-', _, rfl, by decide⟩)
  | @some text other alike =>
    have same := (indents unbroken also).head alike
    cases text with
    | nil =>
      obtain rfl := List.head?_eq_none_iff.mp same.symm
      exact Checked.pure drafts
    | cons symbol rest =>
      cases other with
      | nil => cases same
      | cons opening others => exact Checked.pure ((indents unbroken also).block drafts alike)

/-- What comes of a statement that is refused does not depend on the indent. -/
theorem Scope.spare_indents {scope other : Scope}
    (same : scope.options.strict = other.options.strict) (fault : Fault) :
    Checked (fun _ => True) (Option.Rel (indents unbroken also).texts) (scope.spare fault)
      (other.spare fault) := by
  cases strict : scope.options.strict with
  | true =>
    rw [spare_of_strict strict, spare_of_strict (same ▸ strict)]
    exact .throw trivial
  | false =>
    cases fault with
    | unsupported opcode children index =>
      rw [spare_of_lenient strict, spare_of_lenient (same ▸ strict)]
      exact .ok rfl rfl .none
    | _ => exact .throw trivial

/-- One statement under two indents. -/
theorem Scope.addStatement_indents {scope other : Scope}
    (same : scope.options.strict = other.options.strict) {level : Nat} {layout filled : Layout}
    (drafts : Drafts first second level layout filled) {part item : Part}
    (parts : (indents unbroken also).Parts part item) :
    (indents unbroken also).runs (Drafts first second level) (scope.addStatement layout part)
      (other.addStatement filled item) := by
  have found : Checked (fun _ => True) (Option.Rel (indents unbroken also).texts)
      (some <$> part.text) (some <$> item.text) := by
    rw [map_eq_pure_bind, map_eq_pure_bind]
    exact Checked.bind parts.text fun alike => .pure (.some alike)
  rw [addStatement_eq_bind, addStatement_eq_bind, ← parts.node]
  refine Checked.bind (found.tryCatch fun fault _ => ?_) fun alike => drafts.addShown _ alike
  exact spare_indents same fault

end Statements

namespace Prototype

private theorem builds_indents {first second : Text} (unbroken : lineFeed ∉ first)
    (also : lineFeed ∉ second) (detailed : Bool) (prototype : Prototype) :
    (indents unbroken also).Builds detailed prototype := by
  let watch : Watch := ⟨some prototype.functions.length, detailed⟩
  cases built : (Forest.build watch 0 prototype.code).outcome with
  | ok forest => exact .ok built built ⟨rfl, Comparison.admitsAll (fun _ => trivial) forest⟩
  | error fault => exact .error built built trivial

/-- Under two indents a function is refused for the same fault, or the lines of its texts are the
same rows, of which only those with something in them are indented. -/
theorem bodyText_indent (options : Options) {first second : Text} (unbroken : lineFeed ∉ first)
    (also : lineFeed ∉ second) (detailed : Bool) (prototype : Prototype) (upvalues : List Text) :
    let under (indent : Text) :=
      (prototype.bodyText { options with indent } detailed upvalues).outcome
    (∃ fault, under first = .error fault ∧ under second = .error fault) ∨
      ∃ text other, under first = .ok text ∧ under second = .ok other ∧
        ∃ rows : List Row, (∀ row ∈ rows, row.text = [] → row.depth = 0) ∧
          text.lines = rows.map (Row.under first) ∧
          other.lines = rows.map (Row.under second) := by
  intro under
  have settings : (indents unbroken also).Settings { options with indent := first }
      { options with indent := second } := by
    refine ⟨fun _ _ => Laid.same first second _, Laid.same first second _, .empty, ?_⟩
    intro scope another left right level layout filled part item drafts parts
    refine Scope.addStatement_indents ?_ drafts parts
    rw [left, right]
  have captured : List.Forall₂ (indents unbroken also).texts upvalues upvalues :=
    List.forall₂_same.mpr fun text _ => Laid.same first second text
  have builds (part : Prototype) (_ : part ∈ prototype.all) :=
    builds_indents unbroken also detailed part
  have compared := Comparison.bodyText settings builds captured
  cases compared with
  | error left right => exact .inl ⟨_, left, right⟩
  | ok left right alike =>
    obtain ⟨_, laid⟩ := alike
    exact .inr ⟨_, _, left, right, laid.exists_rows unbroken also⟩

/-- A function that is passed on inside a condition, with tabs and with four spaces. -/
theorem bodyText_indent_of_callback :
    let inner : Prototype := { (default : Prototype) with
      strings := ["x"]
      code := [⟨2147483654, {}⟩, ⟨19, {}⟩, ⟨0, {}⟩] }
    let outer : Prototype := { (default : Prototype) with
      strings := ["run"]
      functions := [inner]
      code := [⟨11, {}⟩, ⟨2147483815, {}⟩, ⟨12, {}⟩, ⟨48, {}⟩, ⟨32770, {}⟩, ⟨0, {}⟩] }
    let tab : Text := "\t"
    let spaces : Text := "    "
    lineFeed ∉ tab ∧ lineFeed ∉ spaces ∧
      ∃ text other, (outer.bodyText { indent := tab } false []).outcome = .ok text ∧
        (outer.bodyText { indent := spaces } false []).outcome = .ok other ∧
        text = "if (local_0) then\n\trun(function()\n\t\tx = 1\n\tend)\nend" ∧
        ∃ rows : List Row, (∀ row ∈ rows, row.text = [] → row.depth = 0) ∧
          text.lines = rows.map (Row.under tab) ∧ other.lines = rows.map (Row.under spaces) := by
  intro inner outer tab spaces
  have unbroken : lineFeed ∉ tab := by decide
  have also : lineFeed ∉ spaces := by decide
  have written : (outer.bodyText { indent := tab } false []).outcome =
      .ok "if (local_0) then\n\trun(function()\n\t\tx = 1\n\tend)\nend" := by cbv
  rcases bodyText_indent {} unbroken also false outer [] with
    ⟨fault, refused, _⟩ | ⟨text, other, left, right, laid⟩
  · cases written.symm.trans refused
  · exact ⟨unbroken, also, text, other, left, right, Except.ok.inj (left.symm.trans written), laid⟩

end Prototype

end LuaLift
