/-! The instruction set of the Lua 4.0 stack machine: number, names, operand shape, and what each
instruction takes from the stack and leaves on it. -/
namespace LuaLift

/-- How the bits above the opcode are read: one unsigned operand, one signed operand, a pair of
unsigned ones, or nothing. -/
inductive Mode where
  | unsigned
  | signed
  | pair
  | plain
deriving DecidableEq, Repr

def Mode.letters : Mode → String
  | unsigned => "U"
  | signed => "S"
  | pair => "AB"
  | plain => ""

/-- The unsigned operand, or the high or the low one of a pair. -/
inductive Field where
  | u
  | a
  | b
deriving DecidableEq, Repr

/-- How many values an instruction pushes or pops: always the same number, or a multiple of an
operand and some more. -/
inductive Effect where
  | fixed (count : Nat)
  | operand (field : Field) (factor extra : Nat)
deriving DecidableEq, Repr

namespace Effect

def isNone (effect : Effect) : Bool := effect = fixed 0

def name : Effect → String
  | fixed 0 => "None"
  | fixed count => "Constant(" ++ count.repr ++ ")"
  | operand _ _ _ => "Delta"

end Effect

/-- The instructions in the order of their numbers. -/
inductive Opcode where
  | endCode
  | returnValues
  | call
  | tailCall
  | pushNil
  | pop
  | pushInt
  | pushString
  | pushNumber
  | pushNegativeNumber
  | pushUpvalue
  | getLocal
  | getGlobal
  | getTable
  | getDotted
  | getIndexed
  | pushSelf
  | createTable
  | setLocal
  | setGlobal
  | setTable
  | setList
  | setMap
  | add
  | addInt
  | subtract
  | multiply
  | divide
  | power
  | concat
  | minus
  | not
  | jumpNotEqual
  | jumpEqual
  | jumpLessThan
  | jumpLessThanEqual
  | jumpGreaterThan
  | jumpGreaterThanEqual
  | jumpIfTrue
  | jumpIfFalse
  | jumpOnTrue
  | jumpOnFalse
  | jump
  | pushNilJump
  | forPrep
  | forLoop
  | lforPrep
  | lforLoop
  | closure
deriving DecidableEq, Repr, Inhabited

namespace Opcode

/-- What the machine's manual says of one instruction. -/
structure Entry where
  number : Nat
  name : String
  mnemonic : String
  mode : Mode
  pushes : Effect
  pops : Effect

def entry : Opcode → Entry
  | endCode => ⟨0, "END", "END", .plain, .fixed 0, .fixed 0⟩
  | returnValues => ⟨1, "RETURN", "RETURN", .unsigned, .fixed 0, .operand .u 1 0⟩
  | call => ⟨2, "CALL", "CALL", .pair, .operand .b 1 0, .operand .a 1 1⟩
  | tailCall => ⟨3, "TAIL_CALL", "TAILCALL", .pair, .fixed 0, .operand .a 1 1⟩
  | pushNil => ⟨4, "PUSH_NIL", "PUSHNIL", .unsigned, .operand .u 1 0, .fixed 0⟩
  | pop => ⟨5, "POP", "POP", .unsigned, .fixed 0, .operand .u 1 0⟩
  | pushInt => ⟨6, "PUSH_INT", "PUSHINT", .signed, .fixed 1, .fixed 0⟩
  | pushString => ⟨7, "PUSH_STRING", "PUSHSTRING", .unsigned, .fixed 1, .fixed 0⟩
  | pushNumber => ⟨8, "PUSH_NUMBER", "PUSHNUM", .unsigned, .fixed 1, .fixed 0⟩
  | pushNegativeNumber =>
    ⟨9, "PUSH_NEGATIVE_NUMBER", "PUSHNEGNUM", .unsigned, .fixed 1, .fixed 0⟩
  | pushUpvalue => ⟨10, "PUSH_UPVALUE", "PUSHUPVALUE", .unsigned, .fixed 1, .fixed 0⟩
  | getLocal => ⟨11, "GET_LOCAL", "GETLOCAL", .unsigned, .fixed 1, .fixed 0⟩
  | getGlobal => ⟨12, "GET_GLOBAL", "GETGLOBAL", .unsigned, .fixed 1, .fixed 0⟩
  | getTable => ⟨13, "GET_TABLE", "GETTABLE", .plain, .fixed 1, .fixed 2⟩
  | getDotted => ⟨14, "GET_DOTTED", "GETDOTTED", .unsigned, .fixed 1, .fixed 1⟩
  | getIndexed => ⟨15, "GET_INDEXED", "GETINDEXED", .unsigned, .fixed 1, .fixed 1⟩
  | pushSelf => ⟨16, "PUSH_SELF", "PUSHSELF", .unsigned, .fixed 2, .fixed 1⟩
  | createTable => ⟨17, "CREATE_TABLE", "CREATETABLE", .unsigned, .fixed 1, .fixed 0⟩
  | setLocal => ⟨18, "SET_LOCAL", "SETLOCAL", .unsigned, .fixed 0, .fixed 1⟩
  | setGlobal => ⟨19, "SET_GLOBAL", "SETGLOBAL", .unsigned, .fixed 0, .fixed 1⟩
  | setTable => ⟨20, "SET_TABLE", "SETTABLE", .pair, .fixed 0, .operand .b 1 0⟩
  | setList => ⟨21, "SET_LIST", "SETLIST", .pair, .fixed 1, .operand .b 1 1⟩
  | setMap => ⟨22, "SET_MAP", "SETMAP", .unsigned, .fixed 1, .operand .u 2 1⟩
  | add => ⟨23, "ADD", "ADD", .plain, .fixed 1, .fixed 2⟩
  | addInt => ⟨24, "ADD_INT", "ADDI", .signed, .fixed 1, .fixed 1⟩
  | subtract => ⟨25, "SUBTRACT", "SUB", .plain, .fixed 1, .fixed 2⟩
  | multiply => ⟨26, "MULTIPLY", "MULT", .plain, .fixed 1, .fixed 2⟩
  | divide => ⟨27, "DIVIDE", "DIV", .plain, .fixed 1, .fixed 2⟩
  | power => ⟨28, "POWER", "POW", .plain, .fixed 1, .fixed 2⟩
  | concat => ⟨29, "CONCAT", "CONCAT", .unsigned, .fixed 1, .operand .u 1 0⟩
  | minus => ⟨30, "MINUS", "MINUS", .plain, .fixed 1, .fixed 1⟩
  | not => ⟨31, "NOT", "NOT", .plain, .fixed 1, .fixed 1⟩
  | jumpNotEqual => ⟨32, "JUMP_NOT_EQUAL", "JMPNE", .signed, .fixed 0, .fixed 2⟩
  | jumpEqual => ⟨33, "JUMP_EQUAL", "JMPEQ", .signed, .fixed 0, .fixed 2⟩
  | jumpLessThan => ⟨34, "JUMP_LESS_THAN", "JMPLT", .signed, .fixed 0, .fixed 2⟩
  | jumpLessThanEqual => ⟨35, "JUMP_LESS_THAN_EQUAL", "JMPLE", .signed, .fixed 0, .fixed 2⟩
  | jumpGreaterThan => ⟨36, "JUMP_GREATER_THAN", "JMPGT", .signed, .fixed 0, .fixed 2⟩
  | jumpGreaterThanEqual =>
    ⟨37, "JUMP_GREATER_THAN_EQUAL", "JMPGE", .signed, .fixed 0, .fixed 2⟩
  | jumpIfTrue => ⟨38, "JUMP_IF_TRUE", "JMPT", .signed, .fixed 0, .fixed 1⟩
  | jumpIfFalse => ⟨39, "JUMP_IF_FALSE", "JMPF", .signed, .fixed 0, .fixed 1⟩
  | jumpOnTrue => ⟨40, "JUMP_ON_TRUE", "JMPONT", .signed, .fixed 0, .fixed 1⟩
  | jumpOnFalse => ⟨41, "JUMP_ON_FALSE", "JMPONF", .signed, .fixed 0, .fixed 1⟩
  | jump => ⟨42, "JUMP", "JMP", .signed, .fixed 0, .fixed 0⟩
  | pushNilJump => ⟨43, "PUSH_NIL_JUMP", "PUSHNILJMP", .plain, .fixed 0, .fixed 0⟩
  | forPrep => ⟨44, "FOR_PREP", "FORPREP", .signed, .fixed 0, .fixed 0⟩
  | forLoop => ⟨45, "FOR_LOOP", "FORLOOP", .signed, .fixed 0, .fixed 3⟩
  | lforPrep => ⟨46, "LFOR_PREP", "LFORPREP", .signed, .fixed 2, .fixed 0⟩
  | lforLoop => ⟨47, "LFOR_LOOP", "LFORLOOP", .signed, .fixed 0, .fixed 3⟩
  | closure => ⟨48, "CLOSURE", "CLOSURE", .pair, .fixed 1, .operand .b 1 0⟩

def number (opcode : Opcode) : Nat := opcode.entry.number

def name (opcode : Opcode) : String := opcode.entry.name

def mnemonic (opcode : Opcode) : String := opcode.entry.mnemonic

def mode (opcode : Opcode) : Mode := opcode.entry.mode

def pushes (opcode : Opcode) : Effect := opcode.entry.pushes

def pops (opcode : Opcode) : Effect := opcode.entry.pops

/-- Every instruction, at the place of its number. -/
def all : List Opcode :=
  [.endCode, .returnValues, .call, .tailCall, .pushNil, .pop, .pushInt, .pushString, .pushNumber,
   .pushNegativeNumber, .pushUpvalue, .getLocal, .getGlobal, .getTable, .getDotted, .getIndexed,
   .pushSelf, .createTable, .setLocal, .setGlobal, .setTable, .setList, .setMap, .add, .addInt,
   .subtract, .multiply, .divide, .power, .concat, .minus, .not, .jumpNotEqual, .jumpEqual,
   .jumpLessThan, .jumpLessThanEqual, .jumpGreaterThan, .jumpGreaterThanEqual, .jumpIfTrue,
   .jumpIfFalse, .jumpOnTrue, .jumpOnFalse, .jump, .pushNilJump, .forPrep, .forLoop, .lforPrep,
   .lforLoop, .closure]

def ofNumber? (number : Int) : Option Opcode :=
  if number < 0 then none else all[number.toNat]?

def ofName? (name : String) : Option Opcode := all.find? (·.name = name)

/-- The instructions that may skip the ones after them. -/
def isJump (opcode : Opcode) : Bool :=
  jumpNotEqual.number ≤ opcode.number && opcode.number ≤ jump.number

/-- The jumps that compare two values. -/
def isComparisonJump (opcode : Opcode) : Bool :=
  jumpNotEqual.number ≤ opcode.number && opcode.number ≤ jumpGreaterThanEqual.number

/-- The instructions of numeric and table loops. -/
def isLoop : Opcode → Bool
  | forPrep | forLoop | lforPrep | lforLoop => true
  | _ => false

@[simp] theorem ofNumber?_number (opcode : Opcode) : ofNumber? opcode.number = some opcode := by
  cases opcode <;> rfl

private theorem number_all : ∀ index : Fin all.length, (all[index]).number = index.val := by
  decide

theorem ofNumber?_eq_some_iff {number : Int} {opcode : Opcode} :
    ofNumber? number = some opcode ↔ number = opcode.number := by
  constructor
  · intro found
    unfold ofNumber? at found
    split at found
    · simp at found
    · rename_i known
      have inside := List.getElem?_eq_some_iff.mp found
      obtain ⟨small, same⟩ := inside
      have here := number_all ⟨number.toNat, small⟩
      simp only [Fin.getElem_fin] at here
      rw [same] at here
      omega
  · rintro rfl
    exact ofNumber?_number opcode

theorem number_lt (opcode : Opcode) : opcode.number < 49 := by
  cases opcode <;> decide

end Opcode

end LuaLift
