import ConstraintHandling.CommandLine.Run

/-! The program: it reads the input file that the arguments name, runs the command and prints. -/
namespace ConstraintHandling.CommandLine

/-- The text of a log record, with its level in five columns. -/
def Output.render : Output → String
  | .log record =>
    let name := record.level.name
    "![" ++ name ++ String.ofList (List.replicate (5 - name.length) ' ') ++ "] " ++ record.message
  | .text line => line

def readContent (file : String) : IO (Except FileError ByteArray) := do
  try
    return .ok (← IO.FS.readBinFile file)
  catch
    | .noFileOrDirectory _ code details =>
      return .error (.notFound (details ++ " (os error " ++ toString code ++ ")"))
    | e => return .error (.notReadable (toString e))

/-- The authors as the surroundings list them. -/
def authorsOfBuild : IO String :=
  return (← IO.getEnv "AUTHORS").getD "unknown authors"

def transcript (args : List String) : IO Transcript := do
  match Invocation.read args with
  | .error stop => return stop.transcript
  | .ok invocation =>
    let authors ← authorsOfBuild
    match invocation.command.file? with
    | none => return invocation.run authors (.ok .empty)
    | some file => return invocation.run authors (← readContent file)

end ConstraintHandling.CommandLine

open ConstraintHandling.CommandLine in
/-- Prints the transcript of a run and exits with its status. -/
def main (args : List String) : IO UInt32 := do
  let transcript ← transcript args
  for output in transcript.outputs do
    IO.println output.render
  return transcript.status.toUInt32
