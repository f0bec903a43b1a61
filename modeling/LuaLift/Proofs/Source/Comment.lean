import LuaLift.Proofs.Number.Notation
import LuaLift.Proofs.Prototype.Induction
import LuaLift.Proofs.Source.Capture
import LuaLift.Proofs.Source.Frame
import LuaLift.Proofs.Text.Neighbours
import LuaLift.Proofs.Text.Numeral

/-! No comment begins in a strict text. Minus signs come from numerals, exponents, differences and
negations, but what stands around an operand keeps it apart from them, if there is no minus sign in
the names, the strings and the options. -/
namespace LuaLift

open Text

/-! ### Numerals and literals -/

namespace Text

private theorem minus_not_mem_decimal {value : Int} (positive : ¬ value < 0) :
    minus ∉ decimal value := by
  rw [decimal_of_nonneg positive]
  exact minus_not_mem_digits _

private theorem commentless_decimal (value : Int) : (decimal value).Commentless := by
  by_cases negative : value < 0
  · rw [decimal_of_neg negative]
    exact commentless_cons minus (minus_not_mem_digits _)
  · exact commentless_of_not_mem (minus_not_mem_decimal negative)

private theorem commentless_join {separator : Text} {pieces : List Text}
    (absent : minus ∉ separator)
    (filled : separator ≠ []) (each : ∀ piece ∈ pieces, piece.Commentless) :
    (join separator pieces).Commentless := by
  induction pieces with
  | nil => exact commentless_of_not_mem (by simp [join, List.intercalate])
  | cons piece rest ih =>
    obtain ⟨own, others⟩ := List.forall_mem_cons.mp each
    cases rest with
    | nil => rwa [join_singleton]
    | cons next more =>
      rw [join_cons_cons, List.append_assoc]
      exact (trails_append absent filled (ih others)).append own

private theorem commentless_unlines {pieces : List Text}
    (each : ∀ piece ∈ pieces, piece.Commentless) :
    (unlines pieces).Commentless :=
  commentless_join (by decide) (by decide) each

private theorem within_of_mem_lines {text line : Text} (member : line ∈ lines text) :
    line <:+: text := by
  obtain ⟨above, beneath, same⟩ := List.append_of_mem member
  obtain ⟨front, back, around⟩ := unlines_around above beneath
  refine ⟨front, back, ?_⟩
  rw [← around line, ← same, unlines_lines]

end Text

namespace Decimal

variable {number : Decimal} (absent : '-' ∉ number.digits)
include absent

/-- The sign of an exponent stands between a letter and a digit. -/
theorem trails_scientific : (ofChars number.scientific).Trails := by
  have mantissa := not_mem_mantissa (by decide) absent
  let written := Nat.toDigits 10 number.exponent.natAbs
  let places := List.replicate (2 - written.length) '0' ++ written
  let sign := if number.exponent < 0 then '-' else '+'
  have behind : '-' ∉ places := by
    have figures : '-' ∉ written := not_mem_toDigits (by decide) _
    simp [places, figures, List.mem_replicate]
  have signed : (ofChars (sign :: places)).Commentless :=
    commentless_cons (.char sign) (mt minus_mem_ofChars.mp behind)
  have whole : ofChars number.scientific =
      ofChars (withPoint (number.digits.take 1) (number.digits.drop 1) ++ ['e']) ++
        ofChars (sign :: places) := by
    rw [← ofChars_append, List.append_assoc]
    rfl
  rw [whole]
  refine trails_append (mt minus_mem_ofChars.mp ?_) (by simp [ofChars]) signed
  rw [List.mem_append, not_or]
  exact ⟨mantissa, by decide⟩

private theorem trails_written : (ofChars number.written).Trails := by
  rw [written]
  split
  · have whole := not_mem_positional (by decide) (by decide) absent
    exact trails_of_not_mem (mt minus_mem_ofChars.mp whole)
  · exact trails_scientific absent

end Decimal

private theorem Double.commentless_general (number : Double) : number.general.Commentless := by
  have mark : number.signMark.Commentless := by
    rw [signMark]
    split <;> exact commentless_iff.mpr (by decide)
  rw [general, written]
  split
  · exact commentless_iff.mpr (by decide)
  · split
    · exact (trails_of_not_mem (by decide)).append mark
    · refine (Decimal.trails_written ?_).append mark
      split
      · decide
      · exact Decimal.not_mem_round (by decide) _ _

/-- Only a minus sign is written with one. -/
theorem Source.eq_minus_of_mem_escaped {symbol : Symbol} (member : minus ∈ escaped symbol) :
    symbol = minus := by
  cases symbol with
  | stray byte => exact (List.mem_singleton.mp member).symm
  | char value =>
    rw [escaped] at member
    repeat' split at member
    all_goals first | exact (List.mem_singleton.mp member).symm | exact absurd member (by decide)

private theorem Source.minus_not_mem_quoted {text : Text} (absent : minus ∉ text) :
    minus ∉ quoted text := by
  have inside : minus ∉ text.flatMap escaped := by
    intro member
    obtain ⟨symbol, among, shown⟩ := List.mem_flatMap.mp member
    obtain rfl := eq_minus_of_mem_escaped shown
    exact absent among
  have quote : minus ∉ [Symbol.char doubleQuote] := by decide
  rw [quoted, List.mem_append, List.mem_cons, not_or, not_or]
  exact ⟨⟨by decide, inside⟩, quote⟩

/-! ### Frames -/

namespace TextFrame

/-- What stands in a frame keeps apart the minus signs of what it stands between. -/
inductive Guarded : TextFrame → Prop where
  | leaf {front : Text} (whole : front.Commentless) : Guarded ⟨front, []⟩
  | last {front back : Text} (before : front.Leads) (after : back.Trails) : Guarded ⟨front, [back]⟩
  | next {front next : Text} {behind : List Text} (before : front.Leads) (between : next.Trails)
      (filled : next ≠ []) (rest : Guarded ⟨next, behind⟩) : Guarded ⟨front, next :: behind⟩

/-- Operands without comments make a text without comments. -/
theorem Guarded.fill {frame : TextFrame} (guarded : frame.Guarded) {texts : List Text}
    (places : texts.length = frame.behind.length) (each : ∀ text ∈ texts, text.Commentless) :
    (frame.fill texts).Commentless := by
  induction guarded generalizing texts with
  | leaf whole =>
    rw [List.length_eq_zero_iff.mp places, fill_nil]
    exact whole
  | last before after =>
    obtain ⟨text, rfl⟩ := List.length_eq_one_iff.mp places
    rw [fill_cons, fill_nil]
    exact after.append (before.append (each text List.mem_cons_self))
  | @next front next behind before between filled rest ih =>
    cases texts with
    | nil => cases places
    | cons text others =>
      obtain ⟨own, follow⟩ := List.forall_mem_cons.mp each
      have whole := ih (Nat.succ.inj places) follow
      -- an operand never meets the next one, as the text between them is not empty
      have apart : ((⟨next, behind⟩ : TextFrame).fill others).head? ≠ some minus := by
        rw [TextFrame.fill, List.head?_append_of_ne_nil next filled]
        exact between.opened
      rw [fill_cons]
      exact Trails.append ⟨whole, apart⟩ (before.append own)

private theorem guarded_list {front separator back : Text} (before : front.Leads)
    (absent : minus ∉ separator) (filled : separator ≠ []) (after : back.Trails) (count : Nat) :
    (list front separator back count).Guarded := by
  cases count with
  | zero => exact .leaf (before.append after.whole)
  | succ count =>
    rw [list]
    induction count generalizing front with
    | zero => exact .last before after
    | succ count ih =>
      rw [List.replicate_succ]
      exact .next before (trails_of_not_mem absent) filled (ih (leads_of_not_mem absent))

end TextFrame

private theorem trails_under {under : Text} (whole : under.Commentless) :
    Trails (") then" ++ lineFeed :: under) := by
  rw [List.append_cons]
  exact trails_append (by decide) (by decide) whole

/-! ### Names and constants -/

/-- The options write no minus sign of their own. -/
structure Options.Unsigned (options : Options) : Prop where
  indent : minus ∉ options.indent
  localPrefix : minus ∉ options.localPrefix
  upvaluePrefix : minus ∉ options.upvaluePrefix

/-- No name and no string that the scope may show has a minus sign in it, and no text that it was
given has a comment. -/
structure Scope.Commentless (scope : Scope) : Prop where
  strict : scope.options.strict = true
  options : scope.options.Unsigned
  names : ∀ name ∈ scope.localNames, minus ∉ name
  strings : ∀ string ∈ scope.strings, minus ∉ string
  functions : ∀ function ∈ scope.functions, ∀ captured text,
    (∀ value ∈ captured, value.Commentless) → (function captured).outcome = .ok text →
      text.Commentless
  upvalues : ∀ value ∈ scope.upvalues, value.Commentless

private theorem Options.Unsigned.commentless_localName {options : Options}
    (unsigned : options.Unsigned)
    {given : Option Text} (each : ∀ name ∈ given, minus ∉ name) (slot : Int) :
    (options.localName given slot).Commentless := by
  unfold localName
  split
  · exact commentless_of_not_mem (each _ rfl)
  · exact (leads_of_not_mem unsigned.localPrefix).append (commentless_decimal slot)

namespace Scope

variable {scope : Scope} (silent : scope.Commentless)
include silent

private theorem commentless_localName {slot : Int} {text : Text}
    (named : (scope.localName slot).toOption = some text) : text.Commentless := by
  obtain ⟨given, found, shown⟩ := bind_eq_ok.mp (toOption_eq_some.mp named)
  obtain rfl := Except.ok.inj shown
  refine silent.options.commentless_localName (fun name here => ?_) slot
  subst here
  exact silent.names name (mem_of_itemAt? ((findItem_some .list).mp found))

private theorem commentless_upvalueName {slot : Int} {text : Text}
    (named : (scope.upvalueName slot).toOption = some text) : text.Commentless := by
  obtain ⟨captured, found, shown⟩ := bind_eq_ok.mp (toOption_eq_some.mp named)
  obtain rfl := Except.ok.inj shown
  refine (leads_of_not_mem (by decide)).append ?_
  cases captured with
  | some value => exact silent.upvalues value (mem_of_itemAt? ((findItem_some .tuple).mp found))
  | none => exact (leads_of_not_mem silent.options.upvaluePrefix).append (commentless_decimal slot)

private theorem minus_not_mem_string {number : Int} {string : Text}
    (found : itemAt? scope.strings number = some string) : minus ∉ string :=
  silent.strings string (mem_of_itemAt? found)

private theorem guarded_of_bare {instruction : Instruction} {under : Text} {opcode : Opcode}
    {frame : TextFrame} (bare : opcode.pops = .fixed 0)
    (known : scope.frame? instruction count under opcode = some frame) : frame.Guarded := by
  cases opcode
  case endCode | createTable =>
    obtain rfl := Option.some.inj known
    exact .leaf (commentless_of_not_mem (by decide))
  case pushNil =>
    simp only [frame?, Option.bind_eq_bind, Option.bind_eq_some_iff, Option.some.injEq] at known
    obtain ⟨number, _, rfl⟩ := known
    refine .leaf (commentless_join (by decide) (by decide) fun piece member => ?_)
    rw [List.eq_of_mem_replicate member]
    exact commentless_of_not_mem (by decide)
  case pushInt =>
    simp only [frame?, Option.bind_eq_bind, Option.bind_eq_some_iff, Option.some.injEq] at known
    obtain ⟨number, _, rfl⟩ := known
    exact .leaf (commentless_decimal number)
  case pushString =>
    simp only [frame?, Option.bind_eq_bind, Option.bind_eq_some_iff, Option.some.injEq] at known
    obtain ⟨number, _, string, found, rfl⟩ := known
    have absent := minus_not_mem_string silent found
    exact .leaf (commentless_of_not_mem (Source.minus_not_mem_quoted absent))
  case pushNumber | pushNegativeNumber =>
    simp only [frame?, Option.bind_eq_bind, Option.bind_eq_some_iff, Option.some.injEq] at known
    obtain ⟨place, _, number, _, rfl⟩ := known
    exact .leaf (Double.commentless_general _)
  case pushUpvalue =>
    simp only [frame?, Option.bind_eq_bind, Option.bind_eq_some_iff, Option.some.injEq] at known
    obtain ⟨slot, _, name, named, rfl⟩ := known
    exact .leaf (commentless_upvalueName silent named)
  case getLocal =>
    simp only [frame?, Option.bind_eq_bind, Option.bind_eq_some_iff, Option.some.injEq] at known
    obtain ⟨slot, _, name, named, rfl⟩ := known
    exact .leaf (commentless_localName silent named)
  case getGlobal =>
    simp only [frame?, Option.bind_eq_bind, Option.bind_eq_some_iff, Option.some.injEq] at known
    obtain ⟨number, _, name, found, rfl⟩ := known
    exact .leaf (commentless_of_not_mem (minus_not_mem_string silent found))
  all_goals first | exact absurd bare (by decide) | cases known

/-- No frame of a node lets two minus signs meet, but that of a minus sign itself. -/
theorem guarded_of_frame? {instruction : Instruction} {under : Text} {opcode : Opcode}
    {frame : TextFrame} (below : opcode.isCondition = true → under.Commentless)
    (other : opcode ≠ .minus)
    (known : scope.frame? instruction count under opcode = some frame) : frame.Guarded := by
  have nothing : Leads [] := leads_of_not_mem (by decide)
  have ending : Trails [] := trails_of_not_mem (by decide)
  cases opcode
  case minus => exact absurd rfl other
  case endCode | createTable | pushNil | pushInt | pushString | pushNumber | pushNegativeNumber
    | pushUpvalue | getLocal | getGlobal =>
    exact guarded_of_bare silent rfl known
  case returnValues =>
    rw [frame?] at known
    split at known
    · obtain rfl := Option.some.inj known
      exact .leaf (commentless_of_not_mem (by decide))
    · obtain rfl := Option.some.inj known
      exact TextFrame.guarded_list (leads_of_not_mem (by decide)) (by decide) (by decide) ending _
  case call =>
    rw [frame?] at known
    split at known
    · cases known
    · obtain rfl := Option.some.inj known
      have arguments : (TextFrame.list "(" ", " ")" (count - 1)).Guarded :=
        TextFrame.guarded_list (leads_of_not_mem (by decide)) (by decide) (by decide)
          (trails_of_not_mem (by decide)) _
      have opened : (TextFrame.list "(" ", " ")" (count - 1)).front.Trails ∧
          (TextFrame.list "(" ", " ")" (count - 1)).front ≠ [] := by
        cases count - 1 with
        | zero => exact ⟨trails_of_not_mem (by decide), by decide⟩
        | succ rest =>
          change Trails "(" ∧ ofString "(" ≠ []
          exact ⟨trails_of_not_mem (by decide), by decide⟩
      exact .next nothing opened.1 opened.2 arguments
  case getTable =>
    obtain rfl := Option.some.inj known
    exact .next nothing (trails_of_not_mem (by decide)) (by decide)
      (.last (leads_of_not_mem (by decide)) (trails_of_not_mem (by decide)))
  case setTable =>
    obtain rfl := Option.some.inj known
    exact .next nothing (trails_of_not_mem (by decide)) (by decide)
      (.next (leads_of_not_mem (by decide)) (trails_of_not_mem (by decide)) (by decide)
        (.last (leads_of_not_mem (by decide)) ending))
  case getDotted | pushSelf =>
    simp only [frame?, Option.bind_eq_bind, Option.bind_eq_some_iff, Option.some.injEq] at known
    obtain ⟨number, _, name, found, rfl⟩ := known
    have absent := minus_not_mem_string silent found
    refine .last nothing (trails_of_not_mem ?_)
    rw [List.mem_append, not_or]
    exact ⟨by decide, absent⟩
  case getIndexed =>
    simp only [frame?, Option.bind_eq_bind, Option.bind_eq_some_iff, Option.some.injEq] at known
    obtain ⟨slot, _, name, named, rfl⟩ := known
    have inside : (name ++ "]").Commentless :=
      (trails_of_not_mem (by decide)).append (commentless_localName silent named)
    refine .last nothing ?_
    rw [List.append_assoc]
    exact trails_append (by decide) (by decide) inside
  case setLocal =>
    simp only [frame?, Option.bind_eq_bind, Option.bind_eq_some_iff, Option.some.injEq] at known
    obtain ⟨slot, _, name, named, rfl⟩ := known
    exact .last (leads_append (commentless_localName silent named) (by decide) (by decide)) ending
  case setGlobal =>
    simp only [frame?, Option.bind_eq_bind, Option.bind_eq_some_iff, Option.some.injEq] at known
    obtain ⟨number, _, name, found, rfl⟩ := known
    have whole := commentless_of_not_mem (minus_not_mem_string silent found)
    exact .last (leads_append whole (by decide) (by decide)) ending
  case not =>
    obtain rfl := Option.some.inj known
    exact .last (leads_of_not_mem (by decide)) ending
  case addInt =>
    simp only [frame?, Option.bind_eq_bind, Option.bind_eq_some_iff] at known
    obtain ⟨amount, _, chosen⟩ := known
    split at chosen
    · obtain rfl := Option.some.inj chosen
      have absent : minus ∉ decimal (-amount) := minus_not_mem_decimal (by omega)
      have whole : (" - " ++ decimal (-amount)).Commentless :=
        (trails_of_not_mem absent).append (commentless_iff.mpr (by decide))
      have opened : List.head? (" - " ++ decimal (-amount) : Text) = some space := rfl
      exact .last nothing ⟨whole, by rw [opened]; decide⟩
    · obtain rfl := Option.some.inj chosen
      have absent : minus ∉ decimal amount := minus_not_mem_decimal (by assumption)
      refine .last nothing (trails_append (by decide) (by decide) (commentless_of_not_mem absent))
  case add | subtract | multiply | divide | power =>
    obtain rfl := Option.some.inj known
    exact .next nothing ⟨commentless_iff.mpr (by decide), by decide⟩ (by decide)
      (.last ⟨commentless_iff.mpr (by decide), by decide⟩ ending)
  case pop | concat =>
    obtain rfl := Option.some.inj known
    exact TextFrame.guarded_list nothing (by decide) (by decide) ending _
  case jumpIfTrue | jumpIfFalse =>
    obtain rfl := Option.some.inj known
    exact .last (leads_of_not_mem (by decide)) (trails_under (below rfl))
  case jumpNotEqual | jumpEqual | jumpLessThan | jumpLessThanEqual | jumpGreaterThan
    | jumpGreaterThanEqual =>
    obtain rfl := Option.some.inj known
    exact .next (leads_of_not_mem (by decide)) (trails_of_not_mem (by decide)) (by decide)
      (.last (leads_of_not_mem (by decide)) (trails_under (below rfl)))
  all_goals cases known

end Scope

/-! ### Layouts -/

namespace Layout

/-- No line has a comment, and lines are indented without minus signs. -/
structure Commentless (layout : Layout) : Prop where
  unit : minus ∉ layout.unit
  lines : ∀ line ∈ layout.lines.toList, line.Commentless

private theorem commentless_push {lines : Array Text} {line : Text}
    (each : ∀ other ∈ lines.toList, other.Commentless) (own : line.Commentless) :
    ∀ other ∈ (lines.push line).toList, other.Commentless := by
  rw [Array.toList_push]
  exact List.forall_mem_append.mpr ⟨each, List.forall_mem_singleton.mpr own⟩

namespace Commentless

variable {layout next : Layout} (silent : layout.Commentless)
include silent

private theorem addLine {text : Text} (whole : text.Commentless) :
    (layout.addLine text).Commentless := by
  rw [Layout.addLine]
  split
  · exact ⟨silent.unit, silent.lines⟩
  · have line : (times layout.level layout.unit ++ text).Commentless :=
      (leads_of_not_mem (not_mem_times silent.unit _)).append whole
    refine ⟨silent.unit, commentless_push ?_ line⟩
    split
    · exact commentless_push silent.lines (commentless_of_not_mem (by decide))
    · exact silent.lines

private theorem addBlock {text : Text} (whole : text.Commentless) :
    (layout.addBlock text).Commentless := by
  have each : ∀ line ∈ Text.lines text, line.Commentless := fun line member =>
    whole.within (within_of_mem_lines member)
  rw [Layout.addBlock]
  generalize Text.lines text = pieces at each
  induction pieces generalizing layout with
  | nil => exact silent
  | cons line rest ih =>
    obtain ⟨own, others⟩ := List.forall_mem_cons.mp each
    exact ih (silent.addLine own) others

private theorem text : layout.text.Commentless :=
  commentless_unlines silent.lines

private theorem dedent (done : layout.dedent = .ok next) : next.Commentless := by
  rw [Layout.dedent] at done
  split at done
  · cases done
  · obtain rfl := Except.ok.inj done
    exact ⟨silent.unit, silent.lines⟩

private theorem inside {write : Layout → Traced Layout}
    (keeps : ∀ {inner filled : Layout}, inner.Commentless → (write inner).outcome = .ok filled →
      filled.Commentless)
    (done : (layout.inside write).outcome = .ok next) : next.Commentless := by
  simp only [Layout.inside, Traced.bind_ok, Traced.outcome_ofExcept] at done
  obtain ⟨filled, written, outside⟩ := done
  have deeper : layout.indent.Commentless := ⟨silent.unit, silent.lines⟩
  exact (keeps deeper written).dedent outside

end Commentless

end Layout

/-! ### Statements, nodes and functions -/

/-- The part has no text with a comment. -/
def Part.Commentless (part : Part) : Prop :=
  ∀ text, part.text.outcome = .ok text → text.Commentless

private theorem Part.Stands.commentless {part : Part} {piece : Text} (stands : part.Stands piece)
    (silent : part.Commentless) : piece.Commentless := by
  obtain ⟨text, written, rfl | rfl⟩ := stands
  · exact silent _ written
  · have opened : ("(" ++ text).Commentless :=
      (leads_of_not_mem (by decide)).append (silent text written)
    exact (trails_of_not_mem (by decide)).append opened

namespace Scope

variable {scope : Scope} (silent : scope.Commentless)
include silent

private theorem commentless_emptyLayout : scope.emptyLayout.Commentless :=
  ⟨silent.options.indent, List.forall_mem_nil _⟩

private theorem commentless_addStatement {layout next : Layout} {part : Part}
    (before : layout.Commentless)
    (own : part.Commentless) (added : (scope.addStatement layout part).outcome = .ok next) :
    next.Commentless := by
  obtain ⟨text, written⟩ := writes_of_addStatement silent.strict added
  have found : (some <$> part.text).outcome = .ok (some text) := by
    rw [map_eq_pure_bind, Traced.outcome_bind_of_ok _ written]
    rfl
  rw [addStatement_eq_bind, Traced.tryCatch_of_ok found, Traced.outcome_bind_of_ok _ found] at added
  cases text with
  | nil =>
    obtain rfl := Traced.pure_ok.mp added
    exact before
  | cons symbol rest =>
    obtain rfl := Traced.pure_ok.mp added
    exact before.addBlock (own _ written)

private theorem commentless_addStatements {layout next : Layout} {parts : List Part}
    (before : layout.Commentless) (each : ∀ part ∈ parts, part.Commentless)
    (added : (scope.addStatements layout parts).outcome = .ok next) : next.Commentless := by
  rw [addStatements] at added
  induction parts generalizing layout with
  | nil =>
    obtain rfl := Traced.pure_ok.mp added
    exact before
  | cons part rest ih =>
    obtain ⟨own, others⟩ := List.forall_mem_cons.mp each
    rw [List.foldlM_cons] at added
    obtain ⟨middle, first, later⟩ := Traced.bind_ok.mp added
    exact ih (commentless_addStatement silent before own first) others later

private theorem commentless_under {body : List Part} {text : Text}
    (each : ∀ part ∈ body, part.Commentless) (written : (scope.under body).outcome = .ok text) :
    text.Commentless := by
  simp only [under, Traced.bind_ok, Traced.pure_ok] at written
  obtain ⟨filled, inside, rfl⟩ := written
  have start : scope.emptyLayout.resumed.Commentless :=
    ⟨silent.options.indent, List.forall_mem_nil _⟩
  have whole := start.inside
    (fun before added => commentless_addStatements silent before each added) inside
  exact (whole.addLine (commentless_of_not_mem (by decide))).text

/-- A frame in which minus signs do not meet, or a minus sign before what begins with no other. -/
theorem commentless_of_framed {site : Site} {operands body : List Part} {pieces : List Text}
    {text under : Text} {frame : TextFrame}
    (framed : site.Framed scope operands body text pieces under frame)
    (own : ∀ operand ∈ operands, operand.Commentless)
    (inner : ∀ statement ∈ body, statement.Commentless) : text.Commentless := by
  obtain ⟨stand, below, known, places, signless, rfl⟩ := framed
  have each : ∀ piece ∈ pieces, piece.Commentless := by
    intro piece member
    obtain ⟨operand, among, stands⟩ := exists_of_forall₂ stand member
    exact stands.commentless (own operand (List.mem_reverse.mp among))
  have length : pieces.length = frame.behind.length := by
    rw [places, ← stand.length_eq, List.length_reverse]
  by_cases minus : site.opcode = .minus
  · rw [minus] at known
    obtain rfl := Option.some.inj known
    obtain ⟨piece, rfl⟩ := List.length_eq_one_iff.mp length
    have trails : piece.Trails :=
      ⟨each piece List.mem_cons_self, signless minus piece List.mem_cons_self⟩
    rw [TextFrame.fill_cons, TextFrame.fill_nil, List.append_nil]
    exact trails.append (commentless_iff.mpr (by decide))
  · have guarded := guarded_of_frame? silent
      (fun asks => commentless_under silent inner (below asks)) minus known
    exact guarded.fill length each

private theorem commentless_nodeText {node : Node} {text : Text} (tidy : node.Tidy)
    (written : (scope.nodeText node).outcome = .ok text) : text.Commentless := by
  induction tidy generalizing text with
  | @node node separated bodiless operandsTidy bodyTidy ihOperands ihBody =>
    obtain ⟨opcode, known⟩ : ∃ opcode, node.instruction.opcode = .ok opcode := by
      rw [nodeText_eq] at written
      obtain ⟨opcode, known, _⟩ := Traced.bind_ok.mp written
      exact ⟨opcode, known⟩
    by_cases closure : opcode = .closure
    · subst opcode
      obtain ⟨number, function, captured, _, found, texts, called⟩ :=
        nodeText_closure known separated written
      refine silent.functions function (mem_of_itemAt? found) captured text ?_ called
      intro value member
      obtain ⟨operand, among, shown⟩ := exists_of_forall₂ texts member
      exact ihOperands operand (List.mem_reverse.mp among) shown
    · obtain ⟨pieces, under, frame, framed⟩ :=
        nodeText_framed_of_separate separated known closure written
      refine commentless_of_framed silent framed ?_ ?_
      · refine List.forall_mem_map.mpr fun operand member shown rendered => ?_
        exact ihOperands operand member rendered
      · refine List.forall_mem_map.mpr fun statement member shown rendered => ?_
        exact ihBody statement member rendered

private theorem commentless_forestText {forest : List Node} {text : Text}
    (tidy : ∀ node ∈ forest, node.Tidy) (written : (scope.forestText forest).outcome = .ok text) :
    text.Commentless := by
  simp only [forestText, parts_eq_map, Traced.bind_ok, Traced.pure_ok] at written
  obtain ⟨layout, added, rfl⟩ := written
  have each : ∀ part ∈ forest.map scope.part, part.Commentless :=
    List.forall_mem_map.mpr fun node member text rendered =>
      commentless_nodeText silent (tidy node member) rendered
  exact (commentless_addStatements silent (commentless_emptyLayout silent) each added).text

end Scope

private theorem Options.Unsigned.commentless_functionText {options : Options}
    {parameters : List Text} {body text : Text} (unsigned : options.Unsigned)
    (each : ∀ parameter ∈ parameters, parameter.Commentless) (whole : body.Commentless)
    (written : (options.functionText parameters body).outcome = .ok text) : text.Commentless := by
  have start : Layout.Commentless { unit := options.indent } :=
    ⟨unsigned.indent, List.forall_mem_nil _⟩
  have inside : (join ", " parameters).Commentless := commentless_join (by decide) (by decide) each
  have opened : ("function(" ++ join ", " parameters ++ ")").Commentless :=
    (trails_of_not_mem (by decide)).append ((leads_of_not_mem (by decide)).append inside)
  simp only [functionText, Traced.bind_ok, Traced.pure_ok] at written
  obtain ⟨filled, block, rfl⟩ := written
  have closed : filled.Commentless := by
    refine (start.addLine opened).inside (fun {inner filled} before done => ?_) block
    obtain rfl := Traced.pure_ok.mp done
    split
    · exact before
    · exact before.addBlock whole
  exact (closed.addLine (commentless_of_not_mem (by decide))).text

namespace Prototype

/-- The prototype has no minus sign in its strings and in the names of its locals. -/
structure Unsigned (prototype : Prototype) : Prop where
  names : ∀ item ∈ prototype.locals, minus ∉ item.name
  strings : ∀ string ∈ prototype.strings, minus ∉ string

variable {options : Options} {prototype : Prototype} {text : Text} {upvalues : List Text}

private theorem commentless_parameters (unsigned : options.Unsigned) (own : prototype.Unsigned) :
    ∀ parameter ∈ prototype.parameters options, parameter.Commentless := by
  have names : ∀ name ∈ prototype.locals.map Local.name, minus ∉ name :=
    List.forall_mem_map.mpr own.names
  refine List.forall_mem_append.mpr ⟨List.forall_mem_map.mpr fun slot _ => ?_, ?_⟩
  · exact unsigned.commentless_localName (fun name given =>
      names name (List.mem_of_getElem? given)) slot
  · split
    · exact List.forall_mem_singleton.mpr (commentless_of_not_mem (by decide))
    · exact List.forall_mem_nil _

/-- Captured values have no comment in them, so neither has the function that captures them. -/
theorem commentless_of_captured (strict : options.strict = true) (unsigned : options.Unsigned)
    (parts : ∀ part ∈ prototype.all, part.Unsigned) (given : ∀ value ∈ upvalues, value.Commentless)
    (written : (prototype.bodyText options detailed upvalues).outcome = .ok text) :
    text.Commentless := by
  induction prototype using Prototype.induct generalizing upvalues text with
  | step prototype ih =>
    obtain ⟨own, inner⟩ := forall_mem_all_iff.mp parts
    obtain ⟨forest, built, shown⟩ := bodyText_eq_ok.mp written
    -- a closure hands over texts of its operands, so the induction is over all captured texts
    have silent : (prototype.scope options detailed upvalues).Commentless := by
      refine ⟨strict, unsigned, List.forall_mem_map.mpr own.names, own.strings, ?_, given⟩
      change ∀ function ∈ closureTexts options detailed prototype.functions, _
      rw [closureTexts_eq_map]
      refine List.forall_mem_map.mpr fun function member captured text each called => ?_
      obtain ⟨body, inside, whole⟩ := Traced.bind_ok.mp called
      have silent := ih function member (inner function member) each inside
      have names := (forall_mem_all_iff.mp (inner function member)).1
      exact unsigned.commentless_functionText (commentless_parameters unsigned names) silent whole
    exact Scope.commentless_forestText silent ((Forest.build_sound built).tidy (by simp)) shown

/-- Whatever minus signs the code asks for, a strict text has no two of them side by side, if there
is none in the strings, the names of locals and the options. -/
theorem commentless_bodyText (strict : options.strict = true) (unsigned : options.Unsigned)
    (parts : ∀ part ∈ prototype.all, part.Unsigned)
    (written : (prototype.bodyText options detailed []).outcome = .ok text) :
    ¬ ofString "--" <:+: text :=
  commentless_iff.mp
    (commentless_of_captured strict unsigned parts (List.forall_mem_nil _) written)

/-- A negative number is negated, another one taken away, and a negative literal added. -/
theorem commentless_of_negatives :
    let prototype : Prototype := { (default : Prototype) with
      strings := ["x"]
      code := [⟨2147483526, {}⟩, ⟨30, {}⟩, ⟨2147483526, {}⟩, ⟨25, {}⟩, ⟨2147483480, {}⟩, ⟨19, {}⟩,
        ⟨0, {}⟩] }
    (prototype.bodyText {} false []).outcome = .ok "x = ((-(-1)) - -1) - 2" ∧
      ¬ ofString "--" <:+: ofString "x = ((-(-1)) - -1) - 2" := by
  intro prototype
  have written : (prototype.bodyText {} false []).outcome = .ok "x = ((-(-1)) - -1) - 2" := by cbv
  have unsigned : ({} : Options).Unsigned := ⟨by decide, by decide, by decide⟩
  have parts : ∀ part ∈ prototype.all, part.Unsigned := by
    rw [all_eq]
    exact List.forall_mem_singleton.mpr
      ⟨List.forall_mem_nil _, List.forall_mem_singleton.mpr (by decide)⟩
  exact ⟨written, commentless_bodyText rfl unsigned parts written⟩

end Prototype

end LuaLift
