import ScanAudit.Path

/-!
# Configuration of an audit

* `Policy` — what happens at an entry that cannot be checked
* `Config` — the files of an audit and its policy
-/

namespace ScanAudit

inductive Policy
  /-- The audit ends at the first such entry. -/
  | stop
  /-- The entry is skipped and counted. -/
  | skip
  deriving DecidableEq

def Policy.name : Policy → String
  | .stop => "abort"
  | .skip => "continue"

def Policy.ofName? (name : String) : Option Policy :=
  [Policy.stop, .skip].find? (·.name == name)

structure Config where
  logPath : Path := .ofString "queries.log"
  /-- The database that explains the queries. -/
  databasePath : Path := .ofString "test.db"
  /-- A script for a database in memory, which then takes the place of the one in a file. -/
  schemaPath : Option Path := none
  policy : Policy := .stop
  deriving DecidableEq

/-- No two policies share a name. -/
theorem Policy.ofName?_name (policy : Policy) : Policy.ofName? policy.name = some policy := by
  cases policy <;> decide

end ScanAudit
