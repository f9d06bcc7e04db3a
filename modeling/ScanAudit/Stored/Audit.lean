import ScanAudit.Audit.Event
import ScanAudit.Config
import ScanAudit.Stored.Basic

/-!
# Stored configurations and summaries
-/

namespace ScanAudit

open Json

def Policy.toJson (policy : Policy) : Json :=
  .str policy.name

def Policy.ofJson? (value : Json) : Option Policy :=
  asName? Policy.ofName? value

def Config.fieldNames : List String :=
  ["log_path", "database_path", "schema_path", "error_policy"]

/-- A path is stored as its text. -/
def Path.toJson? (path : Path) : Option Json :=
  path.text?.map .str

def Path.ofJson? (value : Json) : Option Path :=
  (asString? value).map .ofString

/-- A configuration is not stored if one of its paths is no text. -/
def Config.toJson? (config : Config) : Option Json := do
  let logPath ← config.logPath.toJson?
  let databasePath ← config.databasePath.toJson?
  let schemaPath ← config.schemaPath.mapM Path.toJson?
  some (.obj [("log_path", logPath), ("database_path", databasePath),
    ("schema_path", schemaPath.getD .null), ("error_policy", config.policy.toJson)])

def Config.ofJson? (value : Json) : Option Config := do
  let fields ← asRecord? Config.fieldNames value
  let logPath ← required? Path.ofJson? fields "log_path"
  let databasePath ← required? Path.ofJson? fields "database_path"
  let schemaPath ← optional? Path.ofJson? fields "schema_path"
  let policy ← required? Policy.ofJson? fields "error_policy"
  some { logPath, databasePath, schemaPath, policy }

namespace Audit

def Totals.toJson (totals : Totals) : Json :=
  .obj (totals.entries.map fun e => (e.1, ofUInt64 e.2))

/-- The totals with a number set for a table, in the place of one that may be there. -/
def Totals.set (totals : Totals) (table : String) (n : UInt64) : Totals :=
  let others := totals.entries.filter (·.1 != table)
  Totals.add ⟨others, totals.increasing.sublist List.filter_sublist⟩ table n

def Totals.ofJson? (value : Json) : Option Totals := do
  let fields ← asFields? value
  fields.foldlM (fun totals field => (asUInt64? field.2).map (totals.set field.1)) .empty

def Summary.fieldNames : List String := ["entries", "flagged", "skipped", "scanned_tables"]

def Summary.toJson (summary : Summary) : Json :=
  .obj [("entries", ofNat summary.entries), ("flagged", ofNat summary.flagged),
    ("skipped", ofNat summary.skipped), ("scanned_tables", summary.scannedTables.toJson)]

def Summary.ofJson? (value : Json) : Option Summary := do
  let fields ← asRecord? Summary.fieldNames value
  let entries ← required? asNatural? fields "entries"
  let flagged ← required? asNatural? fields "flagged"
  let skipped ← required? asNatural? fields "skipped"
  let scannedTables ← required? Totals.ofJson? fields "scanned_tables"
  some { entries, flagged, skipped, scannedTables }

end Audit

end ScanAudit
