import ScanAudit.Text.Blank
import ScanAudit.Text.Decimal
import ScanAudit.Text.Lines
import ScanAudit.Text.Search

/-!
# Entries of a query log

A line of a query log says which query the application ran, and how often:

    Query: SELECT * FROM messages WHERE session_id = ? was executed 42 times

* `Entry` — one line that was read
* `Malformed`, `BadLine` — why a line is not an entry, and which line it is
* `readLine` — a line to an entry or to the reason why it is none
* `writeLine` — the line for a query and a count, as the application writes it
-/

namespace ScanAudit.Log

open Text

/-- One line of the log: its number, counted from 1, the text of the query, and how often it was
run. -/
structure Entry where
  lineNumber : Nat
  query : String
  executions : Nat
  deriving DecidableEq

inductive Malformed
  | missingOpening
  | missingClosing
  /-- The separator cuts the line into this many pieces, not into two. -/
  | separatorCount (pieces : Nat)
  /-- The text after the separator, as it stands in the line, is not a count. -/
  | invalidCount (text : String)
  deriving DecidableEq

/-- A line that is no entry, without a carriage return at its end. -/
structure BadLine where
  lineNumber : Nat
  line : String
  reason : Malformed
  deriving DecidableEq

def opening : String := "Query: "

def closing : String := "times"

def separator : String := " was executed "

/-- The largest count that a line can hold. -/
def maxExecutions : Nat := UInt64.size - 1

def Malformed.message : Malformed → String
  | .missingOpening => "missing `Query: ` prefix"
  | .missingClosing => "missing `times` suffix"
  | .separatorCount pieces =>
    "expected one ` was executed ` separator, found " ++
      String.ofList (Decimal.ofNat (pieces - 1))
  | .invalidCount text => "invalid execution count `" ++ text ++ "`"

def BadLine.message (bad : BadLine) : String :=
  "Malformed log line " ++ String.ofList (Decimal.ofNat bad.lineNumber) ++ " (" ++
    bad.reason.message ++ "): " ++ bad.line

/-- The query and the count of a line. The closing word is taken off together with the one
character before it, whatever that is. -/
def readFields (cs : List Char) : Except Malformed (List Char × Nat) :=
  match dropStart? opening.toList cs with
  | none => .error .missingOpening
  | some rest =>
    match dropEnd? closing.toList rest with
    | none => .error .missingClosing
    | some body =>
      match splitOn separator.toList body.dropLast with
      | [query, count] =>
        match Decimal.unsigned? maxExecutions (trim count) with
        | none => .error (.invalidCount (String.ofList count))
        | some executions => .ok (query, executions)
      | pieces => .error (.separatorCount pieces.length)

/-- A line to an entry; one carriage return at its end does not belong to it. -/
def readLine (lineNumber : Nat) (line : String) : Except BadLine Entry :=
  let cs := dropReturn line.toList
  match readFields cs with
  | .error reason => .error ⟨lineNumber, String.ofList cs, reason⟩
  | .ok (query, executions) => .ok ⟨lineNumber, String.ofList query, executions⟩

def writeLine (query : String) (executions : Nat) : String :=
  opening ++ query ++ separator ++ String.ofList (Decimal.ofNat executions) ++ " " ++ closing

end ScanAudit.Log
