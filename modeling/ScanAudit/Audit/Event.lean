import ScanAudit.Audit.Totals
import ScanAudit.Error
import ScanAudit.Plan.Tree

/-!
# Summary and events of an audit

* `Summary` — what an audit counts
* `Event` — what an audit tells about its course, with a level, a message and fields
* `Summary.closing` — the events at the end of an audit that is complete
-/

namespace ScanAudit.Audit

open Text

structure Summary where
  /-- Entries that were checked. -/
  entries : Nat
  /-- Entries whose plan reads a whole table. -/
  flagged : Nat
  /-- Entries that could not be checked and were passed over. -/
  skipped : Nat
  /-- How often flagged queries were run, per table that they read row by row. -/
  scannedTables : Totals

def Summary.zero : Summary := ⟨0, 0, 0, .empty⟩

inductive Event
  | fullScan (lineNumber executions : Nat) (tables : List String)
  | unattributed (lineNumber : Nat) (error : Plan.BuildError)
  | skipping (error : AuditError)
  | complete (entries flagged skipped : Nat)
  | tableTotal (table : String) (executions : UInt64)

inductive Level
  | info | warning | error
  deriving DecidableEq

def Level.name : Level → String
  | .info => "INFO"
  | .warning => "WARN"
  | .error => "ERROR"

def Event.level : Event → Level
  | .unattributed _ _ => .warning
  | .skipping _ => .error
  | _ => .info

def Event.message : Event → String
  | .fullScan _ _ _ => "full scan detected"
  | .unattributed _ _ => "could not attribute scan to a table"
  | .skipping _ => "skipping log entry"
  | .complete _ _ _ => "audit complete"
  | .tableTotal _ _ => "full scans by table"

/-- A name between double quotes, with a backslash before each of its own and before each double
quote. -/
def quoteName (name : String) : String :=
  let escaped := name.toList.flatMap fun c => if c = '"' ∨ c = '\\' then ['\\', c] else [c]
  String.ofList ('"' :: escaped ++ ['"'])

def listNames (names : List String) : String :=
  "[" ++ ", ".intercalate (names.map quoteName) ++ "]"

def Event.fields : Event → List (String × String)
  | .fullScan lineNumber executions tables =>
    [("line", number lineNumber), ("executions", number executions), ("tables", listNames tables)]
  | .unattributed lineNumber error => [("line", number lineNumber), ("error", error.message)]
  | .skipping error => [("error", error.message)]
  | .complete entries flagged skipped =>
    [("entries", number entries), ("flagged", number flagged), ("skipped", number skipped)]
  | .tableTotal table executions =>
    [("table", table), ("executions", number executions.toNat)]
where
  number (n : Nat) : String := String.ofList (Decimal.ofNat n)

def Summary.closing (summary : Summary) : List Event :=
  .complete summary.entries summary.flagged summary.skipped ::
    summary.scannedTables.hottest.map fun t => .tableTotal t.1 t.2

end ScanAudit.Audit
