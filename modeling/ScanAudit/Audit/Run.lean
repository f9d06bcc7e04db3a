import ScanAudit.Audit.Event
import ScanAudit.Database
import ScanAudit.Log.Items
import ScanAudit.Report

/-!
# The run of an audit

An audit gives a verdict on each item of a log, in order, and acts on it: it counts, reports,
skips or ends. The verdict hangs on the item and the database alone.

* `Verdict`, `verdict` — the outcome of checking one item
* `State.advance` — what the audit does at a verdict
* `runFrom`, `run` — the audit of the rest of a log, and of a whole log
-/

namespace ScanAudit.Audit

open Explain

inductive Verdict
  | failed (error : EntryError)
  | clean (entry : Log.Entry)
  | flagged (entry : Log.Entry) (rows : List Row)

def verdict (db : Database) : Log.Item → Verdict
  | .error line => .failed (.malformed line)
  | .ok entry =>
    match db.check entry.query with
    | .error error => .failed error
    | .ok check => if check.hasFullScan then .flagged entry check.rows else .clean entry

/-- What an audit has counted, and how many more bytes its output takes; any number if there is
no limit. -/
structure State where
  summary : Summary
  room : Option Nat

/-- What an audit wrote, the events that it told, and the summary or the error that it ended
with. -/
structure Run where
  written : List String
  events : List Event
  result : Except AuditError Summary

def Run.output (run : Run) : String :=
  String.join run.written

inductive Advance
  | continues (state : State) (written : List String) (events : List Event)
  | ends (written : List String) (error : AuditError)

/-- The tables that a flagged plan reads row by row, with the event that tells of them. -/
def attribution (entry : Log.Entry) (rows : List Row) : List String × Event :=
  match Plan.Tree.ofRows rows with
  | .ok tree =>
    let tables := tree.scannedTables
    (tables, .fullScan entry.lineNumber entry.executions tables)
  | .error error => ([], .unattributed entry.lineNumber error)

/-- An error of a single entry is passed over by an audit that skips these. Any other error ends the
audit. -/
def State.recover (policy : Policy) (state : State) (written : List String) (error : AuditError) :
    Advance :=
  if policy = .skip ∧ error.isPerEntry then
    let summary := { state.summary with skipped := state.summary.skipped + 1 }
    .continues { state with summary } written [.skipping error]
  else .ends written error

/-- An entry is counted before its block is written, and flagged once all of it is. -/
def State.advance (policy : Policy) (state : State) : Verdict → Advance
  | .failed error => state.recover policy [] (.entry error)
  | .clean _ =>
    let summary := { state.summary with entries := state.summary.entries + 1 }
    .continues { state with summary } [] []
  | .flagged entry rows =>
    let block := Report.block entry rows
    let summary := { state.summary with entries := state.summary.entries + 1 }
    match Report.deliver state.room block with
    | .cut kept => State.recover policy { summary, room := some 0 } [kept] (.stream .full)
    | .whole room =>
      let (tables, event) := attribution entry rows
      let summary := { summary with
        flagged := summary.flagged + 1
        scannedTables := summary.scannedTables.addAll tables (.ofNat entry.executions) }
      .continues { summary, room } [block] [event]

/-- The run with something written and told before it. -/
def Run.after (run : Run) (written : List String) (events : List Event) : Run :=
  { run with written := written ++ run.written, events := events ++ run.events }

def runFrom (policy : Policy) (state : State) : List Verdict → Run
  | [] => ⟨[], state.summary.closing, .ok state.summary⟩
  | v :: verdicts =>
    match state.advance policy v with
    | .ends written error => ⟨written, [], .error error⟩
    | .continues state written events => (runFrom policy state verdicts).after written events

/-- The audit of a log, with an output that takes the given number of bytes. -/
def run (db : Database) (policy : Policy) (log : String) (limit : Option Nat) : Run :=
  runFrom policy ⟨.zero, limit⟩ ((Log.items log).map (verdict db))

end ScanAudit.Audit
