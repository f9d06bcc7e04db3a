import ScanAudit.Database
import ScanAudit.Stored.Basic

/-!
# Recorded databases

A recording holds what a database answered to the queries of a log, so that the log can be audited
without it: whether it could be opened, and each query with its plan or with the texts of its
error. A recording is stored as

    {"connect_error": null,
     "plans": [{"query": "SELECT * FROM t", "parameters": 0, "rows": [[2, 0, 0, "SCAN t"]]},
               {"query": "SELEC", "error": ["near \"SELEC\": syntax error"]}]}

* `Recording.engine` — the engine that answers from a recording
* `Recording.ofJson?` — a stored recording
-/

namespace ScanAudit

open Explain Json

structure Recording where
  connectError : Option String := none
  /-- The queries, each with the statement that it was prepared as or with its error. -/
  plans : List (String × Except DriverError Statement) := []

namespace Recording

/-- A statement asks for the plan of a recorded query, or it is rejected. -/
def session (recording : Recording) : Session := fun text =>
  match recording.plans.find? fun plan => Database.explainText plan.1 == text with
  | some (_, prepared) => prepared
  | none => .error (.reported "no plan was recorded for this query" [])

def connect (recording : Recording) : Except String Session :=
  match recording.connectError with
  | some text => .error text
  | none => .ok recording.session

/-- A recording holds what came of the files, so it looks at none. -/
def engine (recording : Recording) : Engine where
  openFile _ _ := recording.connect
  applySchema _ _ := recording.connect
  opens _ _ := []
  applySchema_congr _ _ _ _ := rfl

/-- A row stored as the array of its columns. -/
def rowOfColumns? : Json → Option Row
  | .arr [id, parent, notUsed, detail] => do
    let id ← asInt64? id
    let parent ← asInt64? parent
    let notUsed ← asInt64? notUsed
    let detail ← asString? detail
    some { id, parent, notUsed, detail }
  | _ => none

/-- What was recorded for a query: its error, or the number of values that it needs and its plan,
which is the same for all values. -/
def preparedOfFields? (fields : Fields) : Option (Except DriverError Statement) :=
  match field? fields "error" with
  | some error => do
    let texts ← (← asArray? error).mapM asString?
    match texts with
    | [] => none
    | text :: causes => some (.error (.reported text causes))
  | none => do
    let parameters ← required? asNatural? fields "parameters"
    let rows ← (← required? asArray? fields "rows").mapM rowOfColumns?
    some (.ok ⟨parameters, fun _ => rows.map .ok⟩)

def planOfJson? (value : Json) : Option (String × Except DriverError Statement) := do
  let fields ← asFields? value
  let query ← required? asString? fields "query"
  some (query, ← preparedOfFields? fields)

def ofJson? (value : Json) : Option Recording := do
  let fields ← asFields? value
  let connectError ← optional? asString? fields "connect_error"
  let plans ← required? asArray? fields "plans"
  some { connectError, plans := ← plans.mapM planOfJson? }

end Recording

end ScanAudit
