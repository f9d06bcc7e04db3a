import ScanAudit.Log.Entry
import ScanAudit.Stored.Basic

/-!
# Stored log entries
-/

namespace ScanAudit.Log

open Json

def Entry.fieldNames : List String := ["line_number", "query_text", "execution_count"]

def Entry.toJson (entry : Entry) : Json :=
  .obj [("line_number", ofNat entry.lineNumber), ("query_text", .str entry.query),
    ("execution_count", ofNat entry.executions)]

def Entry.ofJson? (value : Json) : Option Entry := do
  let fields ← asRecord? Entry.fieldNames value
  let lineNumber ← required? asNatural? fields "line_number"
  let query ← required? asString? fields "query_text"
  let executions ← required? asNatural? fields "execution_count"
  some { lineNumber, query, executions }

end ScanAudit.Log
