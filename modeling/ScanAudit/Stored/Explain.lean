import ScanAudit.Explain.Row
import ScanAudit.Stored.Basic

/-!
# Stored plan rows and checks

The answer of a stored check is kept as it stands, whatever its rows say.
-/

namespace ScanAudit.Explain

open Json

def Row.fieldNames : List String := ["id", "parent", "notused", "detail"]

def Row.toJson (row : Row) : Json :=
  .obj [("id", ofInt64 row.id), ("parent", ofInt64 row.parent), ("notused", ofInt64 row.notUsed),
    ("detail", .str row.detail)]

def Row.ofJson? (value : Json) : Option Row := do
  let fields ← asRecord? Row.fieldNames value
  let id ← required? asInt64? fields "id"
  let parent ← required? asInt64? fields "parent"
  let notUsed ← required? asInt64? fields "notused"
  let detail ← required? asString? fields "detail"
  some { id, parent, notUsed, detail }

def Check.fieldNames : List String := ["rows", "has_full_scan"]

def Check.toJson (check : Check) : Json :=
  .obj [("rows", .arr (check.rows.map Row.toJson)), ("has_full_scan", .bool check.hasFullScan)]

def Check.ofJson? (value : Json) : Option Check := do
  let fields ← asRecord? Check.fieldNames value
  let items ← required? asArray? fields "rows"
  let rows ← items.mapM Row.ofJson?
  let hasFullScan ← required? asBool? fields "has_full_scan"
  some { rows, hasFullScan }

end ScanAudit.Explain
