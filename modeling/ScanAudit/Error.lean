import ScanAudit.Log.Entry
import ScanAudit.Path

/-!
# Errors of an audit

An error is its cause. The errors that a single entry can have are a type of their own; an audit
that goes on past errors skips these and no others.

* `DriverError` — why the database refuses to explain a query
* `EntryError` — why one line of the log cannot be checked
* `AuditError` — why an audit cannot go on
* `AuditError.message`, `AuditError.causes` — the wording
* `AuditError.isPerEntry` — whether an error can be skipped
-/

namespace ScanAudit

open Text

inductive DriverError
  /-- A text of the database, and the texts of what lies behind it. -/
  | reported (text : String) (causes : List String)
  /-- A query with another number of parameters than values are given for. -/
  | parameterCount (given needed : Nat)
  deriving DecidableEq

inductive EntryError
  | malformed (line : Log.BadLine)
  | rejected (query : String) (cause : DriverError)
  deriving DecidableEq

inductive ConnectionError
  | openFailed (path : Path) (text : String)
  | schemaFailed (text : String)
  deriving DecidableEq

inductive StreamFault
  | notText
  | full
  deriving DecidableEq

inductive AuditError
  | entry (error : EntryError)
  | connection (error : ConnectionError)
  | missingInput (path : Path)
  | stream (fault : StreamFault)
  deriving DecidableEq

def DriverError.text : DriverError → String
  | .reported text _ => text
  | .parameterCount given needed =>
    "Wrong number of parameters passed to query. Got " ++ String.ofList (Decimal.ofNat given) ++
      ", needed " ++ String.ofList (Decimal.ofNat needed)

/-- All texts of a driver error, the outermost first. -/
def DriverError.texts : DriverError → List String
  | .reported text causes => text :: causes
  | .parameterCount given needed => [(DriverError.parameterCount given needed).text]

def EntryError.message : EntryError → String
  | .malformed line => line.message
  | .rejected query cause => "Database error for query `" ++ query ++ "`: " ++ cause.text

def ConnectionError.text : ConnectionError → String
  | .openFailed path text => "Failed to open SQLite database at '" ++ path.display ++ "': " ++ text
  | .schemaFailed text => "Failed to apply schema: " ++ text

def StreamFault.text : StreamFault → String
  | .notText => "stream did not contain valid UTF-8"
  | .full => "output limit reached"

def AuditError.message : AuditError → String
  | .entry error => error.message
  | .connection error => "Connection error: " ++ error.text
  | .missingInput path => "Input file not found: " ++ path.display
  | .stream fault => "IO error: " ++ fault.text

/-- What lies behind an error, the nearest first. -/
def AuditError.causes : AuditError → List String
  | .entry (.rejected _ cause) => cause.texts
  | .stream fault => [fault.text]
  | _ => []

def AuditError.isMalformedLine : AuditError → Bool
  | .entry (.malformed _) => true
  | _ => false

def AuditError.isDatabase : AuditError → Bool
  | .entry (.rejected _ _) => true
  | _ => false

/-- An error of the log or of a query concerns one entry only, and can be skipped. -/
def AuditError.isPerEntry (error : AuditError) : Bool :=
  error.isMalformedLine || error.isDatabase

/-- Errors of one entry are exactly those that `AuditError.entry` holds: both of its kinds count. -/
theorem AuditError.isPerEntry_entry (error : EntryError) :
    (AuditError.entry error).isPerEntry = true := by
  cases error <;> rfl

end ScanAudit
