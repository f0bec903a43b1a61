import LuaLift.Text.Basic

/-! Expressions of the source language, and reading them from text symbol by symbol. A word is as long
as it can be, an operator takes its operands by the priorities of the language, and a call and an item
of a table take the operand in front of them before any operator does. -/
namespace LuaLift

inductive BinaryOperator where
  | concat
  | add
  | subtract
  | multiply
  | divide
  | power
deriving DecidableEq, Repr

inductive UnaryOperator where
  | minus
  | not
deriving DecidableEq, Repr

/-- A call takes its arguments one by one. -/
inductive Term where
  | name (text : Text)
  | number (value : Nat)
  | unary (operator : UnaryOperator) (operand : Term)
  | binary (operator : BinaryOperator) (left right : Term)
  | call (function : Term)
  | passed (call argument : Term)
  | index (table key : Term)
  | member (table : Term) (field : Text)
deriving DecidableEq, Repr

namespace BinaryOperator

/-- How strongly an operator draws the operand before it. -/
def leftPriority : BinaryOperator → Nat
  | concat => 4
  | add | subtract => 5
  | multiply | divide => 6
  | power => 9

/-- How strongly an operator holds the operand behind it, which is less than it draws the one before
it where it associates to the right. -/
def rightPriority : BinaryOperator → Nat
  | concat => 3
  | add | subtract => 5
  | multiply | divide => 6
  | power => 8

def mark : BinaryOperator → Text
  | concat => ".."
  | add => "+"
  | subtract => "-"
  | multiply => "*"
  | divide => "/"
  | power => "^"

end BinaryOperator

/-- How strongly a sign or a negation holds its operand. -/
def UnaryOperator.priority (_ : UnaryOperator) : Nat := 7

/-- Symbols between words. A single dot is in front of the name of a member, and two of them are the
mark of a concatenation. -/
inductive Sign where
  | opening
  | closing
  | bracket
  | unbracket
  | comma
  | dot
  | mark (operator : BinaryOperator)
deriving DecidableEq, Repr

namespace Symbol

/-- Letters are those of names. Which symbols outside ASCII are letters is left to the machine that
reads them, so all of them are. -/
def isLetter : Symbol → Bool
  | char value => value.isAlpha || value = '_' || 0x80 ≤ value.toNat
  | stray _ => true

def isDigit : Symbol → Bool
  | char value => value.isDigit
  | stray _ => false

def isSpacing : Symbol → Bool
  | char value => value.isWhitespace
  | stray _ => false

def signs : List (Symbol × Sign) :=
  [(.char '(', .opening), (.char ')', .closing), (.char '[', .bracket), (.char ']', .unbracket),
    (.char ',', .comma), (.char '.', .dot), (.char '+', .mark .add), (.char '-', .mark .subtract),
    (.char '*', .mark .multiply), (.char '/', .mark .divide), (.char '^', .mark .power)]

def sign? (symbol : Symbol) : Option Sign := signs.lookup symbol

def isWord (symbol : Symbol) : Bool := symbol.isLetter || symbol.isDigit

end Symbol

namespace Text

/-- A letter, and letters and digits behind it. -/
def isIdentifier : Text → Bool
  | [] => false
  | first :: rest => first.isLetter && rest.all fun symbol => symbol.isLetter || symbol.isDigit

end Text

namespace Term

/-- The call of a function with all its arguments. -/
def applied (function : Term) (arguments : List Term) : Term :=
  arguments.foldl passed (call function)

/-- Operands of a row of concatenations, which nest to the right. -/
def chain (first : Term) : List Term → Term
  | [] => first
  | next :: rest => .binary .concat first (chain next rest)

/-- What is open to the left of an operand. -/
inductive Frame where
  | parenthesis
  | unary (operator : UnaryOperator)
  | binary (operator : BinaryOperator) (left : Term)
  | arguments (before : Term)
  | key (table : Term)
deriving DecidableEq, Repr

/-- What has been read behind the last open frame. A dash right behind another one would begin a
comment. -/
inductive Focus where
  | start (dash : Bool)
  | word (text : Text)
  | operand (term : Term)
  | dot (table : Term)
  | member (table : Term) (field : Text)
deriving DecidableEq, Repr

/-- An operand is taken by the operators before it, as long as these hold it at least as strongly as
it is drawn from behind. How strongly a sign or a negation holds its operand is left open. -/
def settle (grip priority : Nat) (operand : Term) : List Frame → Term × List Frame
  | .unary operator :: frames =>
    if priority ≤ grip then settle grip priority (.unary operator operand) frames
    else (operand, .unary operator :: frames)
  | .binary operator left :: frames =>
    if priority ≤ operator.rightPriority then
      settle grip priority (.binary operator left operand) frames
    else (operand, .binary operator left :: frames)
  | frames => (operand, frames)

/-- How far the reading of an expression has come. -/
structure Reading where
  frames : List Frame := []
  focus : Focus := .start false
deriving DecidableEq, Repr

namespace Reading

/-- A word that is over stands for a negation, a name or a number. -/
def close (reading : Reading) : Option Reading :=
  match reading.focus with
  | .word text =>
    if text = Text.ofString "not" then some ⟨.unary .not :: reading.frames, .start false⟩
    else if text.isIdentifier then some ⟨reading.frames, .operand (.name text)⟩
    else if text.all Symbol.isDigit then
      some ⟨reading.frames,
        .operand (.number (Nat.ofDigitChars 10 (text.filterMap Symbol.char?) 0))⟩
    else none
  | .member table field => some ⟨reading.frames, .operand (.member table field)⟩
  | _ => some reading

/-- A letter or a digit begins a word or goes on with one. -/
def spell (reading : Reading) (symbol : Symbol) : Option Reading :=
  match reading.focus with
  | .start _ => some ⟨reading.frames, .word [symbol]⟩
  | .word text => some ⟨reading.frames, .word (text ++ [symbol])⟩
  | .dot table =>
    if symbol.isLetter then some ⟨reading.frames, .member table [symbol]⟩ else none
  | .member table field => some ⟨reading.frames, .member table (field ++ [symbol])⟩
  | .operand _ => none

def pause (reading : Reading) : Option Reading :=
  match reading.focus with
  | .start _ => some ⟨reading.frames, .start false⟩
  | .operand _ => some reading
  | _ => none

/-- An operator draws the operand in front of it. -/
def draw (grip : Nat) (operator : BinaryOperator) (operand : Term) (frames : List Frame) :
    Reading :=
  let (left, frames) := settle grip operator.leftPriority operand frames
  ⟨.binary operator left :: frames, .start (operator = .subtract)⟩

def meet (grip : Nat) (reading : Reading) (sign : Sign) : Option Reading :=
  match reading.focus, sign with
  | .start _, .opening => some ⟨.parenthesis :: reading.frames, .start false⟩
  | .start false, .mark .subtract => some ⟨.unary .minus :: reading.frames, .start true⟩
  | .start _, .closing =>
    match reading.frames with
    | .arguments (.call function) :: frames => some ⟨frames, .operand (.call function)⟩
    | _ => none
  | .operand term, .opening => some ⟨.arguments (.call term) :: reading.frames, .start false⟩
  | .operand term, .bracket => some ⟨.key term :: reading.frames, .start false⟩
  | .operand term, .dot => some ⟨reading.frames, .dot term⟩
  | .operand term, .mark operator => some (draw grip operator term reading.frames)
  | .dot term, .dot => some (draw grip .concat term reading.frames)
  | .operand term, .closing =>
    match settle grip 0 term reading.frames with
    | (whole, .parenthesis :: frames) => some ⟨frames, .operand whole⟩
    | (whole, .arguments before :: frames) => some ⟨frames, .operand (.passed before whole)⟩
    | _ => none
  | .operand term, .comma =>
    match settle grip 0 term reading.frames with
    | (whole, .arguments before :: frames) =>
      some ⟨.arguments (.passed before whole) :: frames, .start false⟩
    | _ => none
  | .operand term, .unbracket =>
    match settle grip 0 term reading.frames with
    | (whole, .key table :: frames) => some ⟨frames, .operand (.index table whole)⟩
    | _ => none
  | _, _ => none

def step (grip : Nat) (reading : Reading) (symbol : Symbol) : Option Reading :=
  if symbol.isWord then reading.spell symbol
  else do
    let closed ← reading.close
    if symbol.isSpacing then closed.pause
    else closed.meet grip (← symbol.sign?)

def finish (grip : Nat) (reading : Reading) : Option Term := do
  let closed ← reading.close
  match closed.focus with
  | .operand term =>
    match settle grip 0 term closed.frames with
    | (whole, []) => some whole
    | _ => none
  | _ => none

def readFrom (grip : Nat) (reading : Reading) (text : Text) : Option Term :=
  text.foldlM (step grip) reading >>= finish grip

end Reading

/-- The term that a text is, where signs and negations hold their operands with some strength. A dot
right behind a numeral is read as it is behind a name. -/
def read? (grip : Nat) (text : Text) : Option Term := Reading.readFrom grip {} text

example : read? 7 "-f(a + b, 2)[i].x ^ 2 .. not t[j]()" =
    some (.binary .concat (.unary .minus (.binary .power (.member (.index (applied (.name "f")
      [.binary .add (.name "a") (.name "b"), .number 2]) (.name "i")) "x") (.number 2)))
      (.unary .not (applied (.index (.name "t") (.name "j")) []))) := by
  decide

example : read? 7 "-2 ^ x" ≠ read? 9 "-2 ^ x" := by decide

end Term

end LuaLift
