import LuaLift.CommandLine

/-! The program: arguments, files, and the two output streams. -/
namespace LuaLift

namespace Command

/-- An option with its value. -/
def withValue (command : Command) (option value : String) : Option Command :=
  match option with
  | "--out" => some { command with out := some value }
  | "--listing" => some { command with listing := some value }
  | "--tree" => some { command with tree := some value }
  | "--indent" => value.toInt?.map fun indent => { command with indent }
  | _ => none

/-- An argument that stands alone: an option without a value, an option joined to its value by
an equals sign, or the input. -/
def withArgument (command : Command) (argument : String) : Option Command :=
  match argument with
  | "--lenient" => some { command with lenient := true }
  | "-v" | "--verbose" => some { command with verbose := true }
  | _ =>
    if argument.startsWith "-" then
      match argument.splitOn "=" with
      | option :: first :: rest =>
        command.withValue option (String.intercalate "=" (first :: rest))
      | _ => none
    else if command.input.isEmpty then some { command with input := argument }
    else none

/-- Options in any order and one input. An option takes its value from the next argument where
it is not joined to one. -/
def withArguments (command : Command) : List String → Option Command
  | [] => if command.input.isEmpty then none else some command
  | [argument] => do (← command.withArgument argument).withArguments []
  | argument :: value :: rest =>
    match command.withArgument argument with
    | some next => next.withArguments (value :: rest)
    | none => do (← command.withValue argument value).withArguments rest

def ofArguments? (arguments : List String) : Option Command :=
  withArguments { input := "" } arguments

end Command

def usage : String :=
  "usage: input [--out FILE] [--listing FILE] [--tree FILE] [--lenient] [--indent N] [-v]"

/-- The bytes of a file, if it can be read. -/
def readInput (name : String) : IO (Option (List UInt8)) := do
  try
    let bytes ← IO.FS.readBinFile name
    pure (some bytes.toList)
  catch _ => pure none

def writeOutput (output : Output) : IO Unit := do
  for (name, bytes) in output.files do
    IO.FS.writeBinFile name bytes.toByteArray
  for message in output.messages do
    IO.eprintln (String.ofList message.marked)
  let stdout ← IO.getStdout
  stdout.write output.stdout.toByteArray
  stdout.flush

def start (arguments : List String) : IO UInt32 := do
  match Command.ofArguments? arguments with
  | none => do
    IO.eprintln usage
    pure 2
  | some command => do
    let outcome := command.run (← readInput command.input)
    writeOutput outcome.output
    pure outcome.status

end LuaLift

def main (arguments : List String) : IO UInt32 := LuaLift.start arguments
