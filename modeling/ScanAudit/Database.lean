import ScanAudit.Config
import ScanAudit.Error
import ScanAudit.Explain.Row
import ScanAudit.Files
import ScanAudit.Placeholder

/-!
# Reference databases

A reference database has the schema of the application and explains queries, but never runs them.
The engine behind it is a value: what it answers is part of the input.

A query is explained in three steps, each of which can fail. It is prepared as a statement that asks
for its plan, values are bound to the parameters of the statement, and the rows of the plan are
fetched and converted one after the other.

* `Statement`, `Statement.collect` — a prepared statement and its rows
* `Session`, `Engine` — what prepares statements, and what opens a file or applies a script
* `Database.ofFile`, `Database.ofSchema`, `Database.ofConfig` — databases
* `Database.explain`, `Database.check` — the plan of a query
-/

namespace ScanAudit

open Explain

structure Statement where
  /-- How many values the statement needs. -/
  parameters : Nat
  /-- What is fetched for some values: rows, and errors in the place of those that cannot be fetched
  or converted. -/
  rows : List Int64 → List (Except DriverError Row)

/-- All rows, or the first error among them. -/
def allRows : List (Except DriverError Row) → Except DriverError (List Row)
  | [] => .ok []
  | .error cause :: _ => .error cause
  | .ok row :: fetched => (allRows fetched).map (row :: ·)

/-- The rows of a statement for some values. The values are counted up to the first one too many. -/
def Statement.collect (statement : Statement) (bindings : List Int64) :
    Except DriverError (List Row) :=
  if bindings.length = statement.parameters then allRows (statement.rows bindings)
  else
    .error (.parameterCount (min bindings.length (statement.parameters + 1)) statement.parameters)

/-- Prepares the text of a statement. -/
abbrev Session := String → Except DriverError Statement

structure Engine where
  openFile : Files → Path → Except String Session
  /-- A session with what a script makes, or the text of an error. -/
  applySchema : Files → String → Except String Session
  /-- The paths of the files that a script opens, as one with `ATTACH DATABASE` does. -/
  opens : Files → String → List Path
  /-- The files that a script does not open have no part in what it makes. -/
  applySchema_congr : ∀ (script : String) (files files' : Files),
    (∀ path ∈ opens files script, files' path = files path) →
      applySchema files' script = applySchema files script

structure Database where
  /-- The file of the database; none for one that a script made. -/
  path : Option Path
  session : Session

namespace Database

def ofFile (engine : Engine) (files : Files) (path : Path) : Except AuditError Database :=
  match files path with
  | none => .error (.missingInput path)
  | some _ =>
    match engine.openFile files path with
    | .error text => .error (.connection (.openFailed path text))
    | .ok session => .ok ⟨some path, session⟩

def ofSchema (engine : Engine) (files : Files) (script : String) : Except AuditError Database :=
  match engine.applySchema files script with
  | .error text => .error (.connection (.schemaFailed text))
  | .ok session => .ok ⟨none, session⟩

/-- The database of a configuration. A schema script takes the place of the database file, which
is then not looked at. -/
def ofConfig (engine : Engine) (files : Files) (config : Config) : Except AuditError Database :=
  match config.schemaPath with
  | none => ofFile engine files config.databasePath
  | some path =>
    match files.readText path with
    | .error error => .error error
    | .ok script => ofSchema engine files script

/-- The text of the statement that asks for the plan of a query. -/
def explainText (query : String) : String :=
  "EXPLAIN QUERY PLAN " ++ query

/-- The plan of a query with values for its parameters. An error of any step names the query, not
the text that was prepared. -/
def explain (db : Database) (query : String) (bindings : List Int64) :
    Except EntryError (List Row) :=
  match db.session (explainText query) with
  | .error cause => .error (.rejected query cause)
  | .ok statement => (statement.collect bindings).mapError (.rejected query)

/-- The plan of a query with a dummy value for each of its placeholders. -/
def check (db : Database) (query : String) : Except EntryError Check :=
  (db.explain query (Placeholder.dummyBindings query)).map Check.ofRows

end Database

end ScanAudit
