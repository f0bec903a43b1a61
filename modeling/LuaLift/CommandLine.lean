import LuaLift.Listing
import LuaLift.Source.Function

/-! A run of the command line as a function of the input file: what it prints, what it writes to
files, and how it ends. -/
namespace LuaLift

structure Command where
  input : String
  out : Option String := none
  listing : Option String := none
  tree : Option String := none
  lenient : Bool := false
  indent : Int := 2
  verbose : Bool := false
deriving DecidableEq, Repr, Inhabited

/-- Everything a run leaves behind; files in the order they were written. -/
structure Output where
  stdout : List UInt8 := []
  messages : List Text := []
  files : List (String × List UInt8) := []
deriving DecidableEq, Repr, Inhabited

/-- Why a run stops early: no input, a fault in the chunk, or a text that a file cannot hold. -/
inductive Stop where
  | missingInput
  | fault (fault : Fault)
  | unencodable
deriving DecidableEq, Repr

/-- How a run ended. -/
structure Outcome where
  output : Output
  stop : Option Stop
deriving DecidableEq, Repr

/-- What the program returns: zero just for a run that came to its end. -/
def Outcome.status (outcome : Outcome) : UInt32 := if outcome.stop.isSome then 1 else 0

/-- Work that may stop, keeping the output it has made. -/
abbrev Session := ExceptT Stop (StateM Output)

namespace Session

variable {α : Type}

def say (text : Text) : Session Unit :=
  modify fun output => { output with messages := output.messages ++ [text] }

def writeFile (name : String) (bytes : List UInt8) : Session Unit :=
  modify fun output => { output with files := output.files ++ [(name, bytes)] }

def ofExcept (outcome : Except Fault α) : Session α :=
  match outcome with
  | .ok value => pure value
  | .error fault => throw (.fault fault)

/-- A traced result with its journal among the messages. -/
def ofTraced (least : Level) (traced : Traced α) : Session α := do
  (Traced.lines least traced.journal).forM say
  ofExcept traced.outcome

end Session

namespace Command

def least (command : Command) : Level := if command.verbose then .debug else .warning

def options (command : Command) : Options where
  indent := List.replicate command.indent.toNat Text.space
  strict := !command.lenient

/-- A message that a file is complete. -/
def sayWritten (what : Text) (name : String) : Session Unit :=
  Session.say (what ++ " written to " ++ name)

/-- A listing is written without stray bytes or not at all. -/
def writeListing (chunk : Chunk) (name : String) : Session Unit := do
  let listing ← Session.ofExcept (chunk.listing none)
  if listing.any Symbol.isStray then
    Session.writeFile name []
    throw .unencodable
  Session.writeFile name listing.encode
  sayWritten "listing" name

/-- The dump of the forest of the main function. -/
def writeTree (command : Command) (chunk : Chunk) (name : String) : Session Unit := do
  let main := chunk.main
  let forest ← Session.ofTraced command.least
    (Forest.build ⟨some main.functions.length, command.verbose⟩ 0 main.code)
  let dump ← Session.ofExcept (Node.dumpForest "  " forest)
  Session.writeFile name (Text.encode dump ++ Text.encode "\n")
  sayWritten "tree" name

def work (command : Command) (bytes : List UInt8) : Session Unit := do
  let chunk ← Session.ofTraced command.least (Chunk.ofBytes bytes)
  if let some name := command.listing then writeListing chunk name
  if let some name := command.tree then command.writeTree chunk name
  let text ← Session.ofTraced command.least
    (chunk.main.bodyText command.options command.verbose [])
  let code := Text.encode text ++ Text.encode "\n"
  match command.out with
  | some name => do
    Session.writeFile name code
    sayWritten "code" name
  | none => modify fun output => { output with stdout := output.stdout ++ code }

/-- The whole run, given the bytes of the input file if there is one. -/
def run (command : Command) : Option (List UInt8) → Outcome
  | none => ⟨{ messages := ["missing input file: " ++ command.input] }, some .missingInput⟩
  | some bytes =>
    match (command.work bytes).run {} with
    | (.ok (), output) => ⟨output, none⟩
    | (.error (.fault fault), output) =>
      ⟨{ output with messages := output.messages ++ ["error: " ++ fault.message] },
        some (.fault fault)⟩
    | (.error stop, output) => ⟨output, some stop⟩

end Command

end LuaLift
