import OpeningHours.CommandLine.Run

/-! The command line program. It reads what the command may need, runs the command,
and tells how it ended: by status 0, by status 1 when the command failed, by
status 2 when the arguments were no command. -/
namespace OpeningHours.CommandLine

/-- The text of a file, unless it cannot be read. -/
def readFile? (name : String) : IO (Option String) := do
  try
    return some (← IO.FS.readFile name)
  catch _ =>
    return none

/-- The text of the standard input, unless it cannot be read. -/
def readInput? : IO (Option String) := do
  try
    return some (← (← IO.getStdin).readToEnd)
  catch _ =>
    return none

/-- What a command may need to read. -/
def gather (command : Command) : IO Sources := do
  let texts ← command.files.mapM fun name => return (name, ← readFile? name)
  let input ← if command.readsInput then readInput? else pure none
  return ⟨fun name => (texts.lookup name).join, input⟩

end OpeningHours.CommandLine

open OpeningHours.CommandLine

def main (args : List String) : IO UInt32 := do
  let sources ←
    match Command.read? args with
    | some command => gather command
    | none => pure ⟨fun _ => none, none⟩
  match run args sources with
  | .printed text =>
    IO.print text
    return 0
  | .failed failure =>
    IO.eprintln ("Error: " ++ ": ".intercalate failure.chain)
    return 1
  | .misused =>
    IO.eprintln "Usage: timeslots <periods|slots|days|slice> [OPTIONS]"
    return 2
