import ScanAudit.Explain.Row
import ScanAudit.Log.Entry

/-!
# Report blocks

An entry whose plan reads a whole table gets a block of three lines, the last of them empty:

    Query with SCAN: SELECT * FROM messages WHERE session_id = ? is executed times: 42
    42 [(2, 0, 0, 'SCAN messages')]

* `Report.block` — the block of an entry and its plan rows
* `Report.deliver` — what becomes of a text at an output that takes so many bytes
-/

namespace ScanAudit.Report

open Text

def block (entry : Log.Entry) (rows : List Explain.Row) : String :=
  let executions := String.ofList (Decimal.ofNat entry.executions)
  "Query with SCAN: " ++ entry.query ++ " is executed times: " ++ executions ++ "\n" ++
    executions ++ " " ++ Explain.renderRows rows ++ "\n" ++ "\n"

/-- The longest beginning of a text that has at most so many bytes. -/
def fit : Nat → List Char → List Char
  | _, [] => []
  | room, c :: cs => if c.utf8Size ≤ room then c :: fit (room - c.utf8Size) cs else []

inductive Delivery
  /-- All of the text was taken, and so many more bytes will be; any number if there is no
  limit. -/
  | whole (room : Option Nat)
  /-- The output is full with this part of the text. -/
  | cut (kept : String)

def deliver (room : Option Nat) (text : String) : Delivery :=
  match room with
  | none => .whole none
  | some room =>
    if text.utf8ByteSize ≤ room then .whole (some (room - text.utf8ByteSize))
    else .cut (String.ofList (fit room text.toList))

end ScanAudit.Report
