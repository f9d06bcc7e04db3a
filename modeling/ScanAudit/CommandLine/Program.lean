import ScanAudit.Audit.Session
import ScanAudit.CommandLine.Options

/-!
# The program on the command line

* `Failure`, `Failure.causes` — why an audit failed
* `Exit` — what a program leaves behind: its status, its two outputs, its failure and its events
* `runProgram` — the program for given arguments, files and engine
-/

namespace ScanAudit.CommandLine

open Audit

/-- Why an audit failed: what the program was about to do, and the error that came up. -/
structure Failure where
  context : String
  error : AuditError

/-- What lies behind a failure, the nearest first. -/
def Failure.causes (failure : Failure) : List String :=
  failure.error.message :: failure.error.causes

structure Exit where
  status : Nat
  output : String := ""
  errorOutput : String := ""
  failure : Option Failure := none
  events : List Event := []

def versionText : String := "planaudit 0.1.0\n"

def usageLines : List String :=
  ["Usage: planaudit [OPTIONS]",
   "",
   "Options:",
   "  -l, --log FILE       Query log to audit [default: queries.log]",
   "  -d, --database FILE  Reference database [default: test.db]",
   "  -s, --schema FILE    Schema script to use instead of --database",
   "  -k, --keep-going     Skip malformed lines and failing queries instead of stopping",
   "  -v, --verbose        Tell more on the error output",
   "  -h, --help           Print help",
   "  -V, --version        Print version"]

def usageText : String :=
  String.join (usageLines.map (· ++ "\n"))

def exitOfOutcome (config : Config) : Outcome → Exit
  | .unreadable error =>
    { status := 1, failure := some ⟨"Failed to read query log " ++ config.logPath.display, error⟩ }
  | .unopened error =>
    { status := 1, failure := some ⟨"Failed to open reference database", error⟩ }
  | .ran _ run =>
    match run.result with
    | .ok _ => { status := 0, output := run.output, events := run.events }
    | .error error =>
      { status := 1
        output := run.output
        failure := some ⟨"Query log audit aborted", error⟩
        events := run.events }

/-- What the program leaves behind. What was reported before an audit failed stays reported. -/
def runRequest (engine : Engine) (files : Files) : Request → Exit
  | .version => { status := 0, output := versionText }
  | .help => { status := 0, output := usageText }
  | .misuse => { status := 2, errorOutput := "error: invalid arguments\n\n" ++ usageText }
  | .audit config _ => exitOfOutcome config (perform engine files config none)

def runProgram (engine : Engine) (files : Files) (arguments : List String) : Exit :=
  runRequest engine files (Request.ofArguments arguments)

end ScanAudit.CommandLine
