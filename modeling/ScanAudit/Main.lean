import ScanAudit.CommandLine.Program
import ScanAudit.Json.Reader
import ScanAudit.Recording

/-!
# Entry point

The database answers from a recording, which is read from the standard input as JSON; an empty
input is a recording without plans. Events go to the error output, and the report to the standard
output.
-/

namespace ScanAudit.CommandLine

/-- The file under a path, if there is one and its path is a text. -/
def readFile? (path : Path) : IO (Option File) := do
  match path.text? with
  | none => return none
  | some text =>
    try
      return some ⟨← IO.FS.readBinFile text⟩
    catch _ =>
      return none

/-- The files that an audit may look at, as they are now. -/
def readFiles (config : Config) : IO Files := do
  let paths := [config.logPath, config.databasePath] ++ config.schemaPath.toList
  let files ← paths.mapM fun path => return (path, ← readFile? path)
  return fun path => (files.lookup path).join

def readRecording : IO Recording := do
  let text ← (← IO.getStdin).readToEnd
  if text.toList.all Text.isBlank then return {}
  match (Json.read? text).bind Recording.ofJson? with
  | some recording => return recording
  | none => return { connectError := some "the recording cannot be read" }

def Event.line (event : Audit.Event) : String :=
  let fields := event.fields.map fun field => " " ++ field.1 ++ "=" ++ field.2
  event.level.name ++ " " ++ event.message ++ String.join fields

/-- A failure for a reader: what the program was about to do, and a line for each cause. -/
def Failure.report (failure : Failure) : String :=
  "Error: " ++ failure.context ++ "\n" ++ String.join (failure.causes.map fun cause =>
    "Caused by: " ++ cause ++ "\n")

def start (request : Request) : IO Exit :=
  match request with
  | .audit config _ => do
    let recording ← readRecording
    let files ← readFiles config
    return runRequest recording.engine files request
  | _ => return runRequest (Recording.engine {}) (fun _ => none) request

end ScanAudit.CommandLine

open ScanAudit.CommandLine in
def main (arguments : List String) : IO UInt32 := do
  let exit ← start (Request.ofArguments arguments)
  for event in exit.events do
    IO.eprintln (Event.line event)
  IO.print exit.output
  (← IO.getStdout).flush
  IO.eprint exit.errorOutput
  if let some failure := exit.failure then
    IO.eprint failure.report
  return exit.status.toUInt32
