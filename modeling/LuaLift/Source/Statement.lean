import LuaLift.Layout
import LuaLift.Source.Literal
import LuaLift.Source.Scope

/-! The text of nodes. Every node is written from the texts of its operands, and a jump also
from the statements it may skip. What has no faithful text is refused. -/
namespace LuaLift

namespace Opcode

def binaryOperator? : Opcode → Option Text
  | add => some "+"
  | subtract => some "-"
  | multiply => some "*"
  | divide => some "/"
  | power => some "^"
  | _ => none

/-- A jump skips its statements when its comparison holds, so they run under the opposite. -/
def oppositeComparison? : Opcode → Option Text
  | jumpNotEqual => some "=="
  | jumpEqual => some "~="
  | jumpLessThan => some ">="
  | jumpLessThanEqual => some ">"
  | jumpGreaterThan => some "<="
  | jumpGreaterThanEqual => some "<"
  | _ => none

/-- The operators whose text needs parentheses inside another operator. -/
def isCompound : Opcode → Bool
  | add | subtract | multiply | divide | power | addInt | concat | minus | not => true
  | _ => false

end Opcode

/-- A node below another one, with its own text for those who ask for it. -/
structure Part where
  node : Node
  rendering : Thunk (Traced Text)

/-- A node about to be written: its instruction and the texts below it. -/
structure Site where
  instruction : Instruction
  opcode : Opcode
  parts : List Part
  index : Int

namespace Part

def text (part : Part) : Traced Text := part.rendering.get

/-- The text as an operand of an operator. -/
def wrapped (part : Part) : Traced Text := do
  let text ← part.text
  if (← (liftM part.node.instruction.opcode : Traced Opcode)).isCompound then
    pure ("(" ++ text ++ ")")
  else pure text

end Part

namespace Site

def refuse {α : Type} (site : Site) : Traced α :=
  throw (.unsupported (Text.ofString site.opcode.name) site.parts.length (some site.index))

/-- The operands, and the statements that the node may skip. -/
def separate (site : Site) : Traced (List Part × List Part) := do
  let pops ← site.instruction.pops
  let (operands, body, _) ← (liftM
    (Node.takePushed (·.node.instruction.pushes) pops site.parts) :
      Traced (List Part × List Part × Int))
  pure (operands, body)

def operands (site : Site) : Traced (List Part) := do pure (← site.separate).1

def body (site : Site) : Traced (List Part) := do pure (← site.separate).2

/-- The texts of all operands, latest first. -/
def texts (site : Site) : Traced (List Text) := do (← site.operands).mapM Part.text

/-- The only operand. A producer of several values is refused where one is needed. -/
def one (site : Site) : Traced Part := do
  match ← site.operands with
  | [operand] => pure operand
  | _ => site.refuse

/-- Two operands, the later one first. -/
def two (site : Site) : Traced (Part × Part) := do
  match ← site.operands with
  | [later, earlier] => pure (later, earlier)
  | _ => site.refuse

/-- Three operands, the latest one first. -/
def three (site : Site) : Traced (Part × Part × Part) := do
  match ← site.operands with
  | [latest, later, earlier] => pure (latest, later, earlier)
  | _ => site.refuse

end Site

namespace Layout

/-- Lines written one level deeper. -/
def inside (layout : Layout) (write : Layout → Traced Layout) : Traced Layout := do
  let inner ← write layout.indent
  (liftM inner.dedent : Traced Layout)

end Layout

namespace Scope

/-- One statement in a layout. Unless the options are strict, a comment with the instruction
stands for a statement that is refused. -/
def addStatement (scope : Scope) (layout : Layout) (part : Part) : Traced Layout := do
  let text ← tryCatch (some <$> part.text) fun
    | .unsupported opcode children index =>
      let fault := Fault.unsupported opcode children index
      if scope.options.strict then throw fault
      else do
        Traced.note (.placeholder fault)
        pure none
    | fault => throw fault
  match text with
  | some [] => pure layout
  | some text => pure (layout.addBlock text)
  | none => do
    let shown ← (liftM part.node.instruction.text : Traced Text)
    pure (layout.addComment
      ("unsupported: " ++ shown ++ " at " ++ Text.decimal part.node.index))

def addStatements (scope : Scope) (layout : Layout) (parts : List Part) : Traced Layout :=
  parts.foldlM scope.addStatement layout

def emptyLayout (scope : Scope) : Layout := { unit := scope.options.indent }

/-- A condition and the statements that run under it. -/
def conditional (scope : Scope) (site : Site) (condition : Text) : Traced Text := do
  let body ← site.body
  let opened := scope.emptyLayout.addLine ("if (" ++ condition ++ ") then")
  let filled ← opened.inside fun layout => scope.addStatements layout body
  pure (filled.addLine "end").text

/-- A node that asks whether to skip statements has to skip forward. -/
def comparison (scope : Scope) (site : Site) (operator : Text) : Traced Text := do
  if !(← (liftM site.instruction.skipsAhead : Traced Bool)) then site.refuse
  else
    let (later, earlier) ← site.two
    let right ← later.text
    let left ← earlier.text
    scope.conditional site (left ++ " " ++ operator ++ " " ++ right)

def truthTest (scope : Scope) (site : Site) (negated : Bool) : Traced Text := do
  if !(← (liftM site.instruction.skipsAhead : Traced Bool)) then site.refuse
  else
    let operand ← site.one
    let condition ← if negated then do pure ("not " ++ (← operand.wrapped)) else operand.text
    scope.conditional site condition

def binary (site : Site) (operator : Text) : Traced Text := do
  let (later, earlier) ← site.two
  let left ← earlier.wrapped
  let right ← later.wrapped
  pure (left ++ " " ++ operator ++ " " ++ right)

def stringAt (scope : Scope) (site : Site) : Traced Text := do
  constant .string scope.strings (← site.instruction.u) site.index

def numberAt (scope : Scope) (site : Site) : Traced Double := do
  constant .number scope.numbers (← site.instruction.u) site.index

def localAt (scope : Scope) (site : Site) : Traced Text := do
  scope.localName (← site.instruction.u)

/-- A sum with a literal, written as a difference below zero. -/
def sumWithLiteral (site : Site) : Traced Text := do
  let operand ← site.one
  let amount ← site.instruction.s
  let text ← operand.wrapped
  if amount < 0 then pure (text ++ " - " ++ Text.decimal (-amount))
  else pure (text ++ " + " ++ Text.decimal amount)

/-- A second minus sign would begin a comment, so it goes into parentheses. -/
def negation (site : Site) : Traced Text := do
  let text ← (← site.one).wrapped
  if text.head? = some (.char '-') then pure ("-(" ++ text ++ ")") else pure ("-" ++ text)

/-- A function with the values it captures, in the order they were pushed. -/
def closure (scope : Scope) (site : Site) : Traced Text := do
  let function ← constant .function scope.functions (← site.instruction.a) site.index
  function (← site.texts).reverse

/-- The text of a node. -/
def siteText (scope : Scope) (site : Site) : Traced Text :=
  match site.opcode with
  | .endCode => pure []
  | .returnValues => do
    match ← site.texts with
    | [] => pure "return"
    | values => pure ("return " ++ Text.join ", " values.reverse)
  | .call => do
    match (← site.texts).reverse with
    | [] => throw (.malformed .noCallee (some site.index) none)
    | callee :: arguments => pure (callee ++ "(" ++ Text.join ", " arguments ++ ")")
  | .pushNil => do
    pure (Text.join ", " (List.replicate (← site.instruction.u).toNat "nil"))
  | .pop => do pure (Text.unlines (← site.texts).reverse)
  | .pushInt => do pure (Text.decimal (← site.instruction.s))
  | .pushString => do pure (Source.quoted (← scope.stringAt site))
  | .pushNumber => do pure (← scope.numberAt site).general
  | .pushNegativeNumber => do pure (← scope.numberAt site).neg.general
  | .pushUpvalue => do scope.upvalueName (← site.instruction.u)
  | .getLocal => scope.localAt site
  | .getGlobal => scope.stringAt site
  | .getTable => do
    let (later, earlier) ← site.two
    let key ← later.text
    let table ← earlier.text
    pure (table ++ "[" ++ key ++ "]")
  | .getDotted => do
    let table ← (← site.one).text
    pure (table ++ "." ++ (← scope.stringAt site))
  | .getIndexed => do
    let table ← (← site.one).text
    pure (table ++ "[" ++ (← scope.localAt site) ++ "]")
  | .pushSelf => do
    let table ← (← site.one).text
    pure (table ++ ":" ++ (← scope.stringAt site))
  | .createTable => pure "\x7b\x7d"
  | .setLocal => do
    let value ← (← site.one).text
    pure ((← scope.localAt site) ++ " = " ++ value)
  | .setGlobal => do
    let value ← (← site.one).text
    pure ((← scope.stringAt site) ++ " = " ++ value)
  | .setTable => do
    let (latest, later, earlier) ← site.three
    let value ← latest.text
    let key ← later.text
    let table ← earlier.text
    pure (table ++ "[" ++ key ++ "] = " ++ value)
  | .addInt => sumWithLiteral site
  | .concat => do
    let values ← (← site.operands).mapM Part.wrapped
    pure (Text.join " .. " values.reverse)
  | .minus => negation site
  | .not => do pure ("not " ++ (← (← site.one).wrapped))
  | .jumpIfTrue => scope.truthTest site true
  | .jumpIfFalse => scope.truthTest site false
  | .closure => scope.closure site
  | opcode =>
    match opcode.binaryOperator?, opcode.oppositeComparison? with
    | some operator, _ => binary site operator
    | _, some operator => scope.comparison site operator
    | none, none => site.refuse

mutual
/-- The text of a node, from the texts of the nodes below it. -/
def nodeText (scope : Scope) : Node → Traced Text
  | ⟨instruction, children, index⟩ => do
    let opcode ← (liftM instruction.opcode : Traced Opcode)
    scope.siteText ⟨instruction, opcode, scope.parts children, index⟩

def parts (scope : Scope) : List Node → List Part
  | [] => []
  | node :: rest => ⟨node, ⟨fun _ => scope.nodeText node⟩⟩ :: scope.parts rest
end

/-- The statements of a forest, a line or more for each. -/
def forestText (scope : Scope) (forest : List Node) : Traced Text := do
  pure (← scope.addStatements scope.emptyLayout (scope.parts forest)).text

end Scope

end LuaLift
