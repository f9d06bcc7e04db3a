import ScanAudit.Text.Decimal
import ScanAudit.Text.Quoted
import ScanAudit.Text.Search

/-!
# Plan rows

The database explains a query as rows: each is a step of the plan, with its number, the number of
the step it belongs to, a column without a meaning, and a description.

* `Row`, `Row.render`, `renderRows` — the rows and their text in a report
* `Row.isFullScan`, `hasFullScan` — whether a step reads a whole table, by its description
* `Check` — all rows of a plan with the answer to that question
-/

namespace ScanAudit.Explain

open Text

structure Row where
  id : Int64
  /-- The number of the step that this one belongs to; zero at the top level. -/
  parent : Int64
  notUsed : Int64
  detail : String
  deriving DecidableEq

/-- What a step's description contains, in these letters, if the step reads a whole table. -/
def fullScanMarker : String := "SCAN"

def Row.isFullScan (row : Row) : Bool :=
  contains fullScanMarker.toList row.detail.toList

def hasFullScan (rows : List Row) : Bool :=
  rows.any Row.isFullScan

def renderInt (n : Int64) : String :=
  String.ofList (Decimal.ofInt n.toInt)

def Row.render (row : Row) : String :=
  "(" ++ renderInt row.id ++ ", " ++ renderInt row.parent ++ ", " ++ renderInt row.notUsed ++
    ", " ++ String.ofList (Quoted.encode row.detail.toList) ++ ")"

def renderRows (rows : List Row) : String :=
  "[" ++ ", ".intercalate (rows.map Row.render) ++ "]"

/-- The outcome of checking one query. -/
structure Check where
  rows : List Row
  hasFullScan : Bool
  deriving DecidableEq

def Check.ofRows (rows : List Row) : Check :=
  ⟨rows, Explain.hasFullScan rows⟩

end ScanAudit.Explain
