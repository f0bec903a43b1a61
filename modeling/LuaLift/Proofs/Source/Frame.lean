import LuaLift.Proofs.Forest.Positions
import LuaLift.Proofs.Layout
import LuaLift.Proofs.Source.Comparison

/-! The text of a node around the texts of its operands. What stands before the first operand and
behind each of them is known from the instruction, the number of operands and, for a condition, the
text below it. The operands stand in the order in which they were pushed, each of them once. -/
namespace LuaLift

/-- The text before the first operand, and the text behind each operand. -/
structure TextFrame where
  front : Text
  behind : List Text
deriving DecidableEq, Repr

namespace TextFrame

/-- The frame with a text for each operand in it. -/
def fill (frame : TextFrame) (texts : List Text) : Text :=
  frame.front ++ (List.zipWith (· ++ ·) texts frame.behind).flatten

/-- A text without operands. -/
def leaf (text : Text) : TextFrame := ⟨text, []⟩

/-- Some number of operands with a separator between neighbours. -/
def list (front separator back : Text) : Nat → TextFrame
  | 0 => leaf (front ++ back)
  | count + 1 => ⟨front, List.replicate count separator ++ [back]⟩

/-- An operand in front of another frame. -/
def before (frame : TextFrame) : TextFrame := ⟨[], frame.front :: frame.behind⟩

variable {front text separator back : Text} {behind texts : List Text}

@[simp] theorem fill_leaf : (leaf text).fill [] = text := by
  simp [fill, leaf]

@[simp] theorem fill_nil : (⟨front, []⟩ : TextFrame).fill [] = front := by
  simp [fill]

@[simp] theorem fill_cons (next : Text) :
    (⟨front, next :: behind⟩ : TextFrame).fill (text :: texts) =
      front ++ text ++ (⟨next, behind⟩ : TextFrame).fill texts := by
  simp [fill]

private theorem fill_before (frame : TextFrame) :
    frame.before.fill (text :: texts) = text ++ frame.fill texts := fill_cons _

private theorem length_list (count : Nat) :
    (list front separator back count).behind.length = count := by
  cases count with
  | zero => rfl
  | succ count => rw [list, List.length_append, List.length_replicate, List.length_singleton]

private theorem fill_list (texts : List Text) :
    (list front separator back texts.length).fill texts =
      front ++ Text.join separator texts ++ back := by
  cases texts with
  | nil => simp [list, Text.join, List.intercalate]
  | cons text rest =>
    rw [List.length_cons, list]
    induction rest generalizing front text with
    | nil => simp [Text.join_singleton]
    | cons next others ih =>
      rw [List.length_cons, List.replicate_succ, List.cons_append, fill_cons, ih,
        Text.join_cons_cons]
      simp only [List.append_assoc]

end TextFrame

namespace Scope

/-- What stands around so many operands of an instruction, with some text below a condition. -/
def frame? (scope : Scope) (instruction : Instruction) (count : Nat) (under : Text) :
    Opcode → Option TextFrame
  | .endCode => some (.leaf [])
  | .returnValues =>
    if count = 0 then some (.leaf "return") else some (.list "return " ", " [] count)
  | .call =>
    if count = 0 then none else some (TextFrame.list "(" ", " ")" (count - 1)).before
  | .pushNil => do
    some (.leaf (Text.join ", " (List.replicate (← instruction.u.toOption).toNat "nil")))
  | .pop => some (.list [] [Text.lineFeed] [] count)
  | .pushInt => do some (.leaf (Text.decimal (← instruction.s.toOption)))
  | .pushString => do
    some (.leaf (Source.quoted (← itemAt? scope.strings (← instruction.u.toOption))))
  | .pushNumber => do
    some (.leaf (← itemAt? scope.numbers (← instruction.u.toOption)).general)
  | .pushNegativeNumber => do
    some (.leaf (← itemAt? scope.numbers (← instruction.u.toOption)).neg.general)
  | .pushUpvalue => do
    some (.leaf (← (scope.upvalueName (← instruction.u.toOption)).toOption))
  | .getLocal => do some (.leaf (← (scope.localName (← instruction.u.toOption)).toOption))
  | .getGlobal => do some (.leaf (← itemAt? scope.strings (← instruction.u.toOption)))
  | .getTable => some ⟨[], ["[", "]"]⟩
  | .getDotted => do
    some ⟨[], ["." ++ (← itemAt? scope.strings (← instruction.u.toOption))]⟩
  | .getIndexed => do
    some ⟨[], ["[" ++ (← (scope.localName (← instruction.u.toOption)).toOption) ++ "]"]⟩
  | .pushSelf => do
    some ⟨[], [":" ++ (← itemAt? scope.strings (← instruction.u.toOption))]⟩
  | .createTable => some (.leaf "\x7b\x7d")
  | .setLocal => do
    some ⟨(← (scope.localName (← instruction.u.toOption)).toOption) ++ " = ", [[]]⟩
  | .setGlobal => do
    some ⟨(← itemAt? scope.strings (← instruction.u.toOption)) ++ " = ", [[]]⟩
  | .setTable => some ⟨[], ["[", "] = ", []]⟩
  | .addInt => do
    let amount ← instruction.s.toOption
    if amount < 0 then some ⟨[], [" - " ++ Text.decimal (-amount)]⟩
    else some ⟨[], [" + " ++ Text.decimal amount]⟩
  | .concat => some (.list [] " .. " [] count)
  | .minus => some ⟨"-", [[]]⟩
  | .not => some ⟨"not ", [[]]⟩
  | .jumpIfTrue => some ⟨"if (not ", [") then" ++ Text.lineFeed :: under]⟩
  | .jumpIfFalse => some ⟨"if (", [") then" ++ Text.lineFeed :: under]⟩
  | opcode =>
    match opcode.binaryOperator?, opcode.oppositeComparison? with
    | some operator, _ => some ⟨[], [" " ++ operator ++ " ", []]⟩
    | _, some operator =>
      some ⟨"if (", [" " ++ operator ++ " ", ") then" ++ Text.lineFeed :: under]⟩
    | none, none => none

end Scope

/-! ### The text below a condition -/

private theorem Traced.map_bind (view : β → γ) (first : Traced α) (next : α → Traced β) :
    view <$> (first >>= next) = first >>= fun value => view <$> next value := by
  simp only [map_eq_pure_bind, bind_assoc]

namespace Layout

variable (front : Array Text) (layout : Layout)

private theorem addShown_below (node : Node) (text : Option Text) :
    (layout.below front).addShown node text = below front <$> layout.addShown node text := by
  cases text with
  | none =>
    simp only [addShown, addComment, addLine_below, Traced.map_bind, map_pure]
  | some text =>
    cases text with
    | nil => simp only [addShown, map_pure]
    | cons symbol rest => simp only [addShown, addBlock_below, map_pure]

private theorem dedent_below : (layout.below front).dedent = below front <$> layout.dedent := by
  obtain ⟨unit, level, lines, blankDue, started⟩ := layout
  cases level <;> rfl

/-- What is written one level deeper does not see the lines in front either. -/
theorem inside_below {write : Layout → Traced Layout}
    (blind : ∀ inner : Layout, write (inner.below front) = below front <$> write inner) :
    (layout.below front).inside write = below front <$> layout.inside write := by
  have lifted (inner : Layout) : (liftM (below front <$> inner.dedent) : Traced Layout) =
      below front <$> (liftM inner.dedent : Traced Layout) := by
    cases inner.dedent <;> rfl
  change (write (layout.indent.below front) >>= fun inner => liftM inner.dedent) = _
  rw [blind, bind_map_left, inside, Traced.map_bind]
  exact bind_congr fun inner => by rw [dedent_below, lifted]

/-- The text of a layout with something in it, below a first line. -/
theorem text_below {line : Text} (present : layout.lines ≠ #[]) :
    (layout.below #[line]).text = line ++ Text.lineFeed :: layout.text := by
  have filled : layout.lines.toList ≠ [] := by simpa using present
  rw [text, below, Array.toList_append]
  exact Text.unlines_cons filled line

end Layout

namespace Scope

private theorem addStatement_below (scope : Scope) (front : Array Text) (layout : Layout)
    (part : Part) :
    scope.addStatement (layout.below front) part =
      Layout.below front <$> scope.addStatement layout part := by
  rw [addStatement_eq_bind, addStatement_eq_bind, Traced.map_bind]
  exact bind_congr fun text => Layout.addShown_below front layout part.node text

private theorem addStatements_below (scope : Scope) (front : Array Text) (layout : Layout)
    (parts : List Part) :
    scope.addStatements (layout.below front) parts =
      Layout.below front <$> scope.addStatements layout parts := by
  simp only [addStatements]
  induction parts generalizing layout with
  | nil => simp
  | cons part rest ih =>
    rw [List.foldlM_cons, List.foldlM_cons, addStatement_below, bind_map_left, Traced.map_bind]
    exact bind_congr ih

/-- The text below the first line of a condition, which depends on nothing but the statements. -/
def under (scope : Scope) (body : List Part) : Traced Text := do
  let filled ← scope.emptyLayout.resumed.inside fun layout => scope.addStatements layout body
  pure (filled.addLine "end").text

/-- The lines of a condition stand below its first one, which they do not depend on. -/
theorem conditional_eq_bind (scope : Scope) (site : Site) (condition : Text) :
    scope.conditional site condition = (do
      let body ← site.body
      let under ← scope.under body
      pure ("if (" ++ condition ++ ") then" ++ Text.lineFeed :: under)) := by
  let first : Text := "if (" ++ condition ++ ") then"
  have opened : scope.emptyLayout.addLine first = scope.emptyLayout.resumed.below #[first] :=
    Layout.addLine_of_ne_nil _ (by simp [first, Text.ofString, Text.ofChars])
  have closed (layout : Layout) : ((layout.below #[first]).addLine "end").text =
      first ++ Text.lineFeed :: (layout.addLine "end").text := by
    rw [Layout.addLine_below, Layout.text_below]
    rw [Layout.addLine_of_ne_nil layout (by decide)]
    simp [Layout.below]
  rw [conditional]
  refine bind_congr fun body => ?_
  -- only that a line was written shows in the layout that the statements are added to
  have inside : (scope.emptyLayout.resumed.below #[first]).inside
      (fun layout => scope.addStatements layout body) = _ :=
    Layout.inside_below _ _ fun inner => addStatements_below scope #[first] inner body
  dsimp only
  rw [opened, inside, bind_map_left, under, bind_assoc]
  refine bind_congr fun layout => ?_
  rw [closed, pure_bind]

end Scope

/-! ### Operands in their frame -/

/-- The instructions whose text rests on their operands alone, without statements below them and
without a sign to keep apart. -/
def Opcode.isPlain (opcode : Opcode) : Bool := !opcode.isCondition && opcode ≠ .minus

/-- The part stands in a text as its own text, or as that text in parentheses. -/
def Part.Stands (part : Part) (piece : Text) : Prop :=
  ∃ text, part.text.outcome = .ok text ∧ (piece = text ∨ piece = "(" ++ text ++ ")")

private theorem Part.stands_of_text {part : Part} {piece : Text}
    (written : part.text.outcome = .ok piece) : part.Stands piece :=
  ⟨piece, written, .inl rfl⟩

private theorem Part.stands_of_wrapped {part : Part} {piece : Text}
    (written : part.wrapped.outcome = .ok piece) : part.Stands piece := by
  simp only [wrapped, Traced.bind_ok] at written
  obtain ⟨text, found, opcode, _, chosen⟩ := written
  split at chosen
  · exact ⟨text, found, .inr (Traced.pure_ok.mp chosen).symm⟩
  · exact ⟨text, found, .inl (Traced.pure_ok.mp chosen).symm⟩

/-- What begins with a sign has no parentheses of its own. -/
theorem Part.stands_of_sign {part : Part} {piece : Text}
    (written : part.wrapped.outcome = .ok piece) (signed : piece.head? = some (.char '-')) :
    part.Stands ("(" ++ piece ++ ")") := by
  simp only [wrapped, Traced.bind_ok] at written
  obtain ⟨text, found, opcode, _, chosen⟩ := written
  split at chosen
  · obtain rfl := Traced.pure_ok.mp chosen
    cases signed
  · obtain rfl := Traced.pure_ok.mp chosen
    exact ⟨text, found, .inr rfl⟩

namespace Site

variable {site : Site} {operands body : List Part} {operand latest later earlier : Part}

section Separated

variable (separated : site.separate.outcome = .ok (operands, body))
include separated

private theorem operands_of_separated : site.operands.outcome = .ok operands := by
  rw [Site.operands, Traced.outcome_bind_of_ok _ separated]
  rfl

private theorem body_of_separated : site.body.outcome = .ok body := by
  rw [Site.body, Traced.outcome_bind_of_ok _ separated]
  rfl

private theorem operands_eq (also : site.separate.outcome = .ok (items, others)) :
    operands = items :=
  (Prod.mk.inj (Except.ok.inj (separated.symm.trans also))).1

private theorem eq_of_one (single : site.one.outcome = .ok operand) : operands = [operand] := by
  obtain ⟨others, also⟩ := separate_of_one single
  exact operands_eq separated also

private theorem eq_of_two (pair : site.two.outcome = .ok (later, earlier)) :
    operands = [later, earlier] := by
  obtain ⟨others, also⟩ := separate_of_two pair
  exact operands_eq separated also

private theorem eq_of_three (triple : site.three.outcome = .ok (latest, later, earlier)) :
    operands = [latest, later, earlier] := by
  obtain ⟨others, also⟩ := separate_of_three triple
  exact operands_eq separated also

private theorem stand_of_texts (written : site.texts.outcome = .ok values) :
    List.Forall₂ Part.Stands operands.reverse values.reverse := by
  rw [texts, Traced.outcome_bind_of_ok _ (operands_of_separated separated)] at written
  exact List.forall₂_reverse_iff.mpr
    ((Traced.mapM_ok.mp written).imp fun _ _ => Part.stands_of_text)

end Separated

/-- The text of a site: its operands, earliest first, each in its place of a frame. -/
structure Framed (scope : Scope) (site : Site) (operands body : List Part) (text : Text)
    (pieces : List Text) (under : Text) (frame : TextFrame) : Prop where
  stand : List.Forall₂ Part.Stands operands.reverse pieces
  below : site.opcode.isCondition = true → (scope.under body).outcome = .ok under
  known : scope.frame? site.instruction operands.length under site.opcode = some frame
  places : frame.behind.length = operands.length
  /-- Behind a minus sign there is no other one. -/
  signless : site.opcode = .minus → ∀ piece ∈ pieces, piece.head? ≠ some (.char '-')
  filled : text = frame.fill pieces

def IsFramed (scope : Scope) (site : Site) (operands body : List Part) (text : Text) : Prop :=
  ∃ pieces under frame, site.Framed scope operands body text pieces under frame

end Site

namespace Scope

variable {scope : Scope} {site : Site} {operands body : List Part} {text : Text}
  {operand later earlier : Part}

private theorem stringAt_ok (found : (scope.stringAt site).outcome = .ok text) :
    ∃ number, site.instruction.u = .ok number ∧ itemAt? scope.strings number = some text := by
  obtain ⟨number, reads, chosen⟩ := Traced.bind_ok.mp found
  exact ⟨number, reads, constant_ok.mp chosen⟩

private theorem numberAt_ok {number : Double} (found : (scope.numberAt site).outcome = .ok number) :
    ∃ place, site.instruction.u = .ok place ∧ itemAt? scope.numbers place = some number := by
  obtain ⟨place, reads, chosen⟩ := Traced.bind_ok.mp found
  exact ⟨place, reads, constant_ok.mp chosen⟩

private theorem localAt_ok (found : (scope.localAt site).outcome = .ok text) :
    ∃ slot, site.instruction.u = .ok slot ∧ scope.localName slot = .ok text :=
  Traced.bind_ok.mp found

private theorem framed_of_pieces {pieces : List Text} {frame : TextFrame}
    (stand : List.Forall₂ Part.Stands operands.reverse pieces)
    (known : scope.frame? site.instruction operands.length [] site.opcode = some frame)
    (places : frame.behind.length = operands.length) (filled : text = frame.fill pieces)
    (plain : site.opcode.isPlain = true) :
    site.IsFramed scope operands body text := by
  refine ⟨pieces, [], frame, stand, fun asks => ?_, known, places, fun minus => ?_, filled⟩
  · rw [Opcode.isPlain, asks] at plain
    cases plain
  · rw [minus] at plain
    cases plain

private theorem framed_of_leaf (bare : operands = [])
    (known : scope.frame? site.instruction 0 [] site.opcode = some (.leaf text))
    (plain : site.opcode.isPlain = true) :
    site.IsFramed scope operands body text := by
  subst bare
  exact framed_of_pieces .nil known rfl TextFrame.fill_leaf.symm plain

private theorem framed_of_one {piece front back : Text}
    (separated : site.separate.outcome = .ok (operands, body))
    (single : site.one.outcome = .ok operand) (stands : operand.Stands piece)
    (known : scope.frame? site.instruction 1 [] site.opcode = some ⟨front, [back]⟩)
    (filled : front ++ piece ++ back = text)
    (plain : site.opcode.isPlain = true) :
    site.IsFramed scope operands body text := by
  obtain rfl := Site.eq_of_one separated single
  refine framed_of_pieces (.cons stands .nil) known rfl ?_ plain
  rw [TextFrame.fill_cons, TextFrame.fill_nil, filled]

private theorem framed_of_two {left right front between back : Text}
    (separated : site.separate.outcome = .ok (operands, body))
    (pair : site.two.outcome = .ok (later, earlier)) (first : earlier.Stands left)
    (second : later.Stands right)
    (known : scope.frame? site.instruction 2 [] site.opcode = some ⟨front, [between, back]⟩)
    (filled : front ++ left ++ (between ++ right ++ back) = text)
    (plain : site.opcode.isPlain = true) :
    site.IsFramed scope operands body text := by
  obtain rfl := Site.eq_of_two separated pair
  refine framed_of_pieces (.cons first (.cons second .nil)) known rfl ?_ plain
  rw [TextFrame.fill_cons, TextFrame.fill_cons, TextFrame.fill_nil, filled]

private theorem framed_of_list {pieces : List Text} {front separator back : Text}
    (stand : List.Forall₂ Part.Stands operands.reverse pieces)
    (known : scope.frame? site.instruction operands.length [] site.opcode =
      some (.list front separator back operands.length))
    (filled : front ++ Text.join separator pieces ++ back = text)
    (plain : site.opcode.isPlain = true) :
    site.IsFramed scope operands body text := by
  have length : operands.length = pieces.length := by
    rw [← stand.length_eq, List.length_reverse]
  refine framed_of_pieces stand known (TextFrame.length_list _) ?_ plain
  rw [length, TextFrame.fill_list, filled]

private theorem framed_of_condition {pieces : List Text} {frame : Text → TextFrame}
    (separated : site.separate.outcome = .ok (operands, body))
    (stand : List.Forall₂ Part.Stands operands.reverse pieces)
    (known : ∀ under,
      scope.frame? site.instruction operands.length under site.opcode = some (frame under))
    (places : ∀ under, (frame under).behind.length = operands.length)
    (filled : ∀ under,
      "if (" ++ condition ++ ") then" ++ Text.lineFeed :: under = (frame under).fill pieces)
    (asks : site.opcode.isCondition = true)
    (written : (scope.conditional site condition).outcome = .ok text) :
    site.IsFramed scope operands body text := by
  simp only [conditional_eq_bind, Traced.bind_ok, Traced.pure_ok] at written
  obtain ⟨statements, taken, under, below, rfl⟩ := written
  obtain rfl := Except.ok.inj ((Site.body_of_separated separated).symm.trans taken)
  refine ⟨pieces, under, frame under, stand, fun _ => below, known under, places under,
    fun minus => ?_, filled under⟩
  rw [minus] at asks
  cases asks

private theorem binary_framed (separated : site.separate.outcome = .ok (operands, body))
    (known : scope.frame? site.instruction 2 [] site.opcode =
      some ⟨[], [" " ++ operator ++ " ", []]⟩)
    (plain : site.opcode.isPlain = true)
    (written : (binary site operator).outcome = .ok text) :
    site.IsFramed scope operands body text := by
  simp only [binary, Traced.bind_ok, Traced.pure_ok] at written
  obtain ⟨⟨later, earlier⟩, pair, left, first, right, second, rfl⟩ := written
  exact framed_of_two separated pair (Part.stands_of_wrapped first)
    (Part.stands_of_wrapped second) known (by simp) plain

private theorem comparison_framed (separated : site.separate.outcome = .ok (operands, body))
    (known : ∀ under, scope.frame? site.instruction 2 under site.opcode =
      some ⟨"if (", [" " ++ operator ++ " ", ") then" ++ Text.lineFeed :: under]⟩)
    (asks : site.opcode.isCondition = true)
    (written : (scope.comparison site operator).outcome = .ok text) :
    site.IsFramed scope operands body text := by
  obtain ⟨_, guarded⟩ := Site.ahead_of_guarded written
  simp only [Traced.bind_ok] at guarded
  obtain ⟨⟨later, earlier⟩, pair, right, second, left, first, condition⟩ := guarded
  obtain rfl := Site.eq_of_two separated pair
  refine framed_of_condition separated (.cons (Part.stands_of_text first)
    (.cons (Part.stands_of_text second) .nil)) known (fun _ => rfl) ?_ asks condition
  intro under
  simp only [TextFrame.fill_cons, TextFrame.fill_nil, List.append_assoc]

private theorem truthTest_framed (separated : site.separate.outcome = .ok (operands, body))
    (known : ∀ under, scope.frame? site.instruction 1 under site.opcode =
      some ⟨if negated then "if (not " else "if (", [") then" ++ Text.lineFeed :: under]⟩)
    (asks : site.opcode.isCondition = true)
    (written : (scope.truthTest site negated).outcome = .ok text) :
    site.IsFramed scope operands body text := by
  obtain ⟨_, guarded⟩ := Site.ahead_of_guarded written
  obtain ⟨operand, single, asked⟩ := Traced.bind_ok.mp guarded
  obtain rfl := Site.eq_of_one separated single
  cases negated with
  | false =>
    obtain ⟨piece, shown, condition⟩ := Traced.bind_ok.mp asked
    refine framed_of_condition separated (.cons (Part.stands_of_text shown) .nil) known
      (fun _ => rfl) ?_ asks condition
    intro under
    simp [List.append_assoc]
  | true =>
    simp only [↓reduceIte, pure_bind, Traced.bind_ok] at asked
    obtain ⟨piece, shown, condition⟩ := asked
    refine framed_of_condition separated (.cons (Part.stands_of_wrapped shown) .nil) known
      (fun _ => rfl) ?_ asks condition
    intro under
    simp [List.append_assoc, Text.ofString, Text.ofChars]

/-- A second minus sign goes into parentheses, and an operator is in them already. -/
theorem negation_framed (separated : site.separate.outcome = .ok (operands, body))
    (minus : site.opcode = .minus) (written : (negation site).outcome = .ok text) :
    site.IsFramed scope operands body text := by
  simp only [negation, Traced.bind_ok] at written
  obtain ⟨operand, single, shown, wrapped, chosen⟩ := written
  obtain rfl := Site.eq_of_one separated single
  have known : scope.frame? site.instruction 1 [] site.opcode = some ⟨"-", [[]]⟩ := by
    rw [minus]
    rfl
  have framed (piece : Text) (stands : operand.Stands piece)
      (unsigned : piece.head? ≠ some (.char '-')) :
      site.Framed scope [operand] body ("-" ++ piece) [piece] [] ⟨"-", [[]]⟩ := by
    refine ⟨.cons stands .nil, fun asks => ?_, known, rfl, ?_, by simp⟩
    · rw [minus] at asks
      cases asks
    · exact fun _ => List.forall_mem_singleton.mpr unsigned
  by_cases signed : shown.head? = some (.char '-')
  · rw [if_pos signed] at chosen
    have stands := Part.stands_of_sign wrapped signed
    obtain rfl : "-" ++ ("(" ++ shown ++ ")") = text := Traced.pure_ok.mp chosen
    have opened : List.head? ("(" ++ shown ++ ")" : Text) = some (.char '(') := rfl
    exact ⟨_, _, _, framed _ stands (by rw [opened]; decide)⟩
  · rw [if_neg signed] at chosen
    obtain rfl := Traced.pure_ok.mp chosen
    exact ⟨_, _, _, framed shown (Part.stands_of_wrapped wrapped) signed⟩

/-- An instruction that pops nothing is shown on its own. -/
theorem siteText_of_bare (bare : site.opcode.pops = .fixed 0)
    (written : (scope.siteText site).outcome = .ok text) :
    scope.frame? site.instruction 0 [] site.opcode = some (.leaf text) := by
  obtain ⟨instruction, opcode, parts, index⟩ := site
  cases opcode
  case endCode | createTable =>
    obtain rfl := Traced.pure_ok.mp written
    rfl
  case pushNil | pushInt =>
    simp only [siteText, Traced.bind_ok, Traced.outcome_ofExcept, Traced.pure_ok] at written
    obtain ⟨value, reads, rfl⟩ := written
    simp [frame?, toOption_eq_some.mpr reads]
  case pushUpvalue =>
    simp only [siteText, Traced.bind_ok, Traced.outcome_ofExcept] at written
    obtain ⟨slot, reads, named⟩ := written
    simp [frame?, toOption_eq_some.mpr reads, toOption_eq_some.mpr named]
  case getLocal =>
    obtain ⟨slot, reads, named⟩ := localAt_ok written
    simp [frame?, toOption_eq_some.mpr reads, toOption_eq_some.mpr named]
  case getGlobal =>
    obtain ⟨number, reads, found⟩ := stringAt_ok written
    simp [frame?, toOption_eq_some.mpr reads, found]
  case pushString =>
    simp only [siteText, Traced.bind_ok, Traced.pure_ok] at written
    obtain ⟨string, named, rfl⟩ := written
    obtain ⟨number, reads, found⟩ := stringAt_ok named
    simp [frame?, toOption_eq_some.mpr reads, found]
  case pushNumber | pushNegativeNumber =>
    simp only [siteText, Traced.bind_ok, Traced.pure_ok] at written
    obtain ⟨number, named, rfl⟩ := written
    obtain ⟨place, reads, found⟩ := numberAt_ok named
    simp [frame?, toOption_eq_some.mpr reads, found]
  all_goals first | cases written | cases bare

private theorem returned_framed (separated : site.separate.outcome = .ok (operands, body))
    (returns : site.opcode = .returnValues) (written : (scope.siteText site).outcome = .ok text) :
    site.IsFramed scope operands body text := by
  obtain ⟨instruction, opcode, parts, index⟩ := site
  obtain rfl := returns
  obtain ⟨values, texts, chosen⟩ := Traced.bind_ok.mp written
  have stand := Site.stand_of_texts separated texts
  have length : operands.length = values.length := by simpa using stand.length_eq
  cases values with
  | nil =>
    obtain rfl := Traced.pure_ok.mp chosen
    exact framed_of_leaf (List.length_eq_zero_iff.mp length) rfl rfl
  | cons value rest =>
    have known : scope.frame? instruction operands.length [] .returnValues =
        some (.list "return " ", " [] operands.length) := by
      rw [frame?, if_neg (by simp [length])]
    refine framed_of_list stand known ?_ rfl
    rw [List.append_nil, Traced.pure_ok.mp chosen]

/-- The callee comes first, and the arguments behind it. -/
theorem call_framed (separated : site.separate.outcome = .ok (operands, body))
    (calls : site.opcode = .call) (written : (scope.siteText site).outcome = .ok text) :
    site.IsFramed scope operands body text := by
  obtain ⟨instruction, opcode, parts, index⟩ := site
  obtain rfl := calls
  obtain ⟨values, texts, chosen⟩ := Traced.bind_ok.mp written
  have stand := Site.stand_of_texts separated texts
  have length : operands.length = values.reverse.length := by simpa using stand.length_eq
  generalize values.reverse = pieces at chosen stand length
  cases pieces with
  | nil => cases chosen
  | cons callee arguments =>
    rw [List.length_cons] at length
    have known : scope.frame? instruction operands.length [] .call =
        some (TextFrame.list "(" ", " ")" arguments.length).before := by
      rw [frame?, if_neg (by omega), length, Nat.add_sub_cancel]
    refine framed_of_pieces stand known ?_ ?_ rfl
    · rw [length, TextFrame.before, List.length_cons, TextFrame.length_list]
    · rw [TextFrame.fill_before, TextFrame.fill_list, ← Traced.pure_ok.mp chosen]
      simp

/-- The text of a site has its operands in a frame, unless it is a closure. -/
theorem siteText_framed (separated : site.separate.outcome = .ok (operands, body))
    (bare : site.opcode.pops = .fixed 0 → operands = []) (closure : site.opcode ≠ .closure)
    (written : (scope.siteText site).outcome = .ok text) :
    site.IsFramed scope operands body text := by
  obtain ⟨instruction, opcode, parts, index⟩ := site
  -- the cases stand together by how they ask for their operands
  cases opcode
  case endCode | pushNil | pushInt | pushString | pushNumber | pushNegativeNumber | pushUpvalue
    | getLocal | getGlobal | createTable =>
    exact framed_of_leaf (bare rfl) (siteText_of_bare rfl written) rfl
  case getDotted =>
    simp only [siteText, Traced.bind_ok, Traced.pure_ok] at written
    obtain ⟨operand, single, table, shown, name, named, rfl⟩ := written
    obtain ⟨number, reads, found⟩ := stringAt_ok named
    have known : scope.frame? instruction 1 [] .getDotted = some ⟨[], ["." ++ name]⟩ := by
      simp [frame?, toOption_eq_some.mpr reads, found]
    exact framed_of_one separated single (Part.stands_of_text shown) known (by simp) rfl
  case pushSelf =>
    simp only [siteText, Traced.bind_ok, Traced.pure_ok] at written
    obtain ⟨operand, single, table, shown, name, named, rfl⟩ := written
    obtain ⟨number, reads, found⟩ := stringAt_ok named
    have known : scope.frame? instruction 1 [] .pushSelf = some ⟨[], [":" ++ name]⟩ := by
      simp [frame?, toOption_eq_some.mpr reads, found]
    exact framed_of_one separated single (Part.stands_of_text shown) known (by simp) rfl
  case getIndexed =>
    simp only [siteText, Traced.bind_ok, Traced.pure_ok] at written
    obtain ⟨operand, single, table, shown, name, named, rfl⟩ := written
    obtain ⟨slot, reads, found⟩ := localAt_ok named
    have known : scope.frame? instruction 1 [] .getIndexed = some ⟨[], ["[" ++ name ++ "]"]⟩ := by
      simp [frame?, toOption_eq_some.mpr reads, toOption_eq_some.mpr found]
    exact framed_of_one separated single (Part.stands_of_text shown) known (by simp) rfl
  case setLocal =>
    simp only [siteText, Traced.bind_ok, Traced.pure_ok] at written
    obtain ⟨operand, single, value, shown, name, named, rfl⟩ := written
    obtain ⟨slot, reads, found⟩ := localAt_ok named
    have known : scope.frame? instruction 1 [] .setLocal = some ⟨name ++ " = ", [[]]⟩ := by
      simp [frame?, toOption_eq_some.mpr reads, toOption_eq_some.mpr found]
    exact framed_of_one separated single (Part.stands_of_text shown) known (by simp) rfl
  case setGlobal =>
    simp only [siteText, Traced.bind_ok, Traced.pure_ok] at written
    obtain ⟨operand, single, value, shown, name, named, rfl⟩ := written
    obtain ⟨number, reads, found⟩ := stringAt_ok named
    have known : scope.frame? instruction 1 [] .setGlobal = some ⟨name ++ " = ", [[]]⟩ := by
      simp [frame?, toOption_eq_some.mpr reads, found]
    exact framed_of_one separated single (Part.stands_of_text shown) known (by simp) rfl
  case not =>
    simp only [siteText, Traced.bind_ok, Traced.pure_ok] at written
    obtain ⟨operand, single, piece, shown, rfl⟩ := written
    have known : scope.frame? instruction 1 [] .not = some ⟨"not ", [[]]⟩ := rfl
    exact framed_of_one separated single (Part.stands_of_wrapped shown) known (by simp) rfl
  case minus => exact negation_framed separated rfl written
  case addInt =>
    simp only [siteText, sumWithLiteral, Traced.bind_ok, Traced.outcome_ofExcept] at written
    obtain ⟨operand, single, amount, reads, piece, shown, chosen⟩ := written
    have stands := Part.stands_of_wrapped shown
    have known : scope.frame? instruction 1 [] .addInt = if amount < 0
        then some ⟨[], [" - " ++ Text.decimal (-amount)]⟩
        else some ⟨[], [" + " ++ Text.decimal amount]⟩ := by
      rw [frame?, toOption_eq_some.mpr reads]
      rfl
    by_cases negative : amount < 0
    · rw [if_pos negative] at known chosen
      refine framed_of_one separated single stands known ?_ rfl
      simpa using Traced.pure_ok.mp chosen
    · rw [if_neg negative] at known chosen
      refine framed_of_one separated single stands known ?_ rfl
      simpa using Traced.pure_ok.mp chosen
  case getTable =>
    simp only [siteText, Traced.bind_ok, Traced.pure_ok] at written
    obtain ⟨⟨later, earlier⟩, pair, key, second, table, first, rfl⟩ := written
    have known : scope.frame? instruction 2 [] .getTable = some ⟨[], ["[", "]"]⟩ := rfl
    exact framed_of_two separated pair (Part.stands_of_text first) (Part.stands_of_text second)
      known (by simp) rfl
  case setTable =>
    simp only [siteText, Traced.bind_ok, Traced.pure_ok] at written
    obtain ⟨⟨latest, later, earlier⟩, triple, value, third, key, second, table, first, rfl⟩ :=
      written
    obtain rfl := Site.eq_of_three separated triple
    refine framed_of_pieces (.cons (Part.stands_of_text first) (.cons (Part.stands_of_text second)
      (.cons (Part.stands_of_text third) .nil))) rfl rfl ?_ rfl
    simp
  case add | subtract | multiply | divide | power =>
    exact binary_framed separated rfl rfl written
  case jumpNotEqual | jumpEqual | jumpLessThan | jumpLessThanEqual | jumpGreaterThan
    | jumpGreaterThanEqual =>
    exact comparison_framed separated (fun _ => rfl) rfl written
  case jumpIfTrue | jumpIfFalse =>
    exact truthTest_framed separated (fun _ => rfl) rfl written
  case returnValues => exact returned_framed separated rfl written
  case call => exact call_framed separated rfl written
  case pop =>
    simp only [siteText, Traced.bind_ok, Traced.pure_ok] at written
    obtain ⟨values, texts, rfl⟩ := written
    exact framed_of_list (Site.stand_of_texts separated texts) rfl (by simp [Text.unlines]) rfl
  case concat =>
    simp only [siteText, Traced.bind_ok, Traced.pure_ok] at written
    obtain ⟨taken, split, values, texts, rfl⟩ := written
    obtain rfl := Except.ok.inj ((Site.operands_of_separated separated).symm.trans split)
    have stand := (Traced.mapM_ok.mp texts).imp fun _ _ => Part.stands_of_wrapped
    exact framed_of_list (List.forall₂_reverse_iff.mpr stand) rfl (by simp) rfl
  case closure => exact absurd rfl closure
  all_goals cases written

/-! ### Nodes of a forest -/

variable {node : Node} {opcode : Opcode}

/-- A tree's node is framed as its site is. -/
theorem nodeText_framed_of_separate (separated : node.separate = .ok (node.operands, node.body))
    (known : node.instruction.opcode = .ok opcode) (closure : opcode ≠ .closure)
    (written : (scope.nodeText node).outcome = .ok text) :
    (scope.site node opcode).IsFramed scope (node.operands.map scope.part)
      (node.body.map scope.part) text := by
  rw [nodeText_eq, Traced.outcome_bind_of_ok _ known] at written
  refine siteText_framed (separate_site scope separated opcode) (fun fixed => ?_) closure written
  rw [operands_of_fixed_pops separated known fixed]
  rfl

/-- Only a condition has a frame and may skip something. -/
theorem isCondition_of_frame? {instruction : Instruction} {under : Text} {frame : TextFrame}
    (known : scope.frame? instruction count under opcode = some frame)
    (jumps : opcode.isJump = true) : opcode.isCondition = true := by
  cases opcode <;> first | rfl | exact absurd jumps (by decide) | cases known

/-- A frame does not depend on the functions inside. -/
theorem frame?_without_functions (scope : Scope) (instruction : Instruction) (count : Nat)
    (under : Text) (opcode : Opcode) :
    ({ scope with functions := [] } : Scope).frame? instruction count under opcode =
      scope.frame? instruction count under opcode := by
  cases opcode <;> rfl

/-- What the text of a node is put together from: a frame, and the operands in the order in which
they were pushed. The frame is known from the instruction, the number of operands, the names,
constants and captured texts, the options and, for a condition, the text below it. -/
structure Composed (scope : Scope) (node : Node) (opcode : Opcode) (text : Text) : Prop where
  separated : node.separate = .ok (node.operands, node.body)
  pushed : node.operands.reverse.Pairwise fun earlier later => earlier.index < later.index
  bodiless : opcode.isCondition = true ∨ node.body = []
  framed : ∃ pieces under frame,
    List.Forall₂ (fun operand piece => ∃ shown, (scope.nodeText operand).outcome = .ok shown ∧
      (piece = shown ∨ piece = "(" ++ shown ++ ")")) node.operands.reverse pieces ∧
    (opcode.isCondition = true → (scope.under (node.body.map scope.part)).outcome = .ok under) ∧
    ({ scope with functions := [] } : Scope).frame? node.instruction node.operands.length under
      opcode = some frame ∧
    frame.behind.length = node.operands.length ∧ text = frame.fill pieces

/-- Every node of a forest that is written, a closure apart, shows each of its operands once, in the
order in which they were pushed. -/
theorem composed_of_nodeText (built : (Forest.build watch base code).outcome = .ok forest)
    (member : node ∈ Node.preorderAll forest) (known : node.instruction.opcode = .ok opcode)
    (closure : opcode ≠ .closure) (written : (scope.nodeText node).outcome = .ok text) :
    scope.Composed node opcode text := by
  have ordered := ((Forest.build_sound built).sequence (.nil base)).ordered node member
  obtain ⟨offset, splits⟩ := (Forest.build_owns built node member).splits
  obtain ⟨pieces, under, frame, framed⟩ :=
    nodeText_framed_of_separate ordered.separated known closure written
  obtain ⟨stand, below, named, places, _, filled⟩ := framed
  rw [List.length_map] at named places
  refine ⟨ordered.separated, List.pairwise_reverse.mpr ordered.decreasing, ?_,
    pieces, under, frame, ?_, below, ?_, places, filled⟩
  · obtain ⟨ahead, decided⟩ := splits.decided
    cases ahead with
    | false => exact .inr (splits.other decided)
    | true =>
      obtain ⟨jump, _⟩ := Instruction.skipsAhead_eq_true.mp decided
      obtain ⟨other, also, jumps⟩ := Instruction.isJump_eq_ok.mp jump
      obtain rfl := Except.ok.inj (known.symm.trans also)
      exact .inl (isCondition_of_frame? named jumps)
  · rw [← List.map_reverse] at stand
    exact List.forall₂_map_left_iff.mp stand
  · rw [frame?_without_functions]
    exact named

/-- A difference as the subtrahend of another one. -/
theorem composed_of_differences :
    let x : Node := ⟨⟨12, {}⟩, [], 0⟩
    let inner : Node := ⟨⟨25, {}⟩, [⟨⟨2147483654, {}⟩, [], 2⟩, ⟨⟨76, {}⟩, [], 1⟩], 3⟩
    let outer : Node := ⟨⟨25, {}⟩, [inner, x], 4⟩
    let code : List Instruction :=
      [⟨12, {}⟩, ⟨76, {}⟩, ⟨2147483654, {}⟩, ⟨25, {}⟩, ⟨25, {}⟩, ⟨19, {}⟩, ⟨0, {}⟩]
    let forest : List Node := [⟨⟨19, {}⟩, [outer], 5⟩, ⟨⟨0, {}⟩, [], 6⟩]
    let scope : Scope := ⟨{}, [], ["x", "y"], [], [], []⟩
    (Forest.build {} 0 code).outcome = .ok forest ∧ outer ∈ Node.preorderAll forest ∧
      (scope.nodeText outer).outcome = .ok "x - (y - 1)" ∧
      scope.Composed outer .subtract "x - (y - 1)" := by
  intro x inner outer code forest scope
  have written : (scope.nodeText outer).outcome = .ok "x - (y - 1)" := by cbv
  have built : (Forest.build {} 0 code).outcome = .ok forest := by cbv
  have member : outer ∈ Node.preorderAll forest := by
    refine Node.mem_preorderAll.mpr ⟨_, List.mem_cons_self, ?_⟩
    rw [Node.preorder_eq]
    exact List.mem_cons_of_mem _ (Node.mem_preorderAll.mpr
      ⟨outer, List.mem_cons_self, outer.mem_preorder_self⟩)
  exact ⟨built, member, written, composed_of_nodeText built member (by cbv) (by decide) written⟩

end Scope

end LuaLift
