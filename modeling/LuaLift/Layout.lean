import LuaLift.Fault

/-! Laying out lines. Lines are indented by the current level; blank lines next to each other
become one, and none is written before the first line or after the last. -/
namespace LuaLift

structure Layout where
  unit : Text := "  "
  level : Nat := 0
  lines : Array Text := #[]
  blankDue : Bool := false
  started : Bool := false
deriving DecidableEq, Repr, Inhabited

namespace Layout

/-- A line at the current level. An empty one is only written once another line follows. -/
def addLine (layout : Layout) (text : Text) : Layout :=
  if text.isEmpty then { layout with blankDue := layout.blankDue || layout.started }
  else
    let lines := if layout.blankDue then layout.lines.push [] else layout.lines
    { layout with
      lines := lines.push (Text.times layout.level layout.unit ++ text)
      blankDue := false
      started := true }

/-- Every line of a text, one after another. -/
def addBlock (layout : Layout) (text : Text) : Layout :=
  text.lines.foldl addLine layout

def addComment (layout : Layout) (text : Text) : Layout :=
  layout.addLine (if text.isEmpty then "--" else Text.ofString "-- " ++ text)

def indent (layout : Layout) : Layout := { layout with level := layout.level + 1 }

/-- Back to the level outside; there is none outside level zero. -/
def dedent (layout : Layout) : Except Fault Layout :=
  match layout.level with
  | 0 => .error .indentUnderflow
  | level + 1 => .ok { layout with level := level }

/-- All lines so far as one text. -/
def text (layout : Layout) : Text := Text.unlines layout.lines.toList

/-- One use of a layout. -/
inductive Step where
  | line (text : Text)
  | block (text : Text)
  | comment (text : Text)
  | indent
  | dedent
  | indented (steps : List Step)
deriving Repr, Inhabited

/-- What a step came to: the fault, if it failed, and the layout after it. -/
structure Report where
  fault : Option Fault
  layout : Layout
deriving Repr

/-- A step back that leaves the layout as it is where there is nothing outside. -/
def tryDedent (layout : Layout) : Report :=
  match layout.dedent with
  | .ok next => ⟨none, next⟩
  | .error fault => ⟨some fault, layout⟩

mutual
/-- The reports of a step: its own comes last, those of the steps inside it before. -/
def Step.run (layout : Layout) : Step → List Report × Layout
  | .line text => ([⟨none, layout.addLine text⟩], layout.addLine text)
  | .block text => ([⟨none, layout.addBlock text⟩], layout.addBlock text)
  | .comment text => ([⟨none, layout.addComment text⟩], layout.addComment text)
  | .indent => ([⟨none, layout.indent⟩], layout.indent)
  | .dedent => ([layout.tryDedent], layout.tryDedent.layout)
  | .indented steps =>
    let (reports, inner) := Step.runAll layout.indent steps
    (reports ++ [inner.tryDedent], inner.tryDedent.layout)

/-- Steps in turn; one that fails does not stop the others. -/
def Step.runAll (layout : Layout) : List Step → List Report × Layout
  | [] => ([], layout)
  | step :: rest =>
    let (reports, next) := step.run layout
    let (others, last) := Step.runAll next rest
    (reports ++ others, last)
end

end Layout

end LuaLift
