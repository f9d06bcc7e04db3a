import ScanAudit.Log.Entry

/-!
# The items of a query log

Every line that is not blank is an item: an entry, or a line that is none. Lines are numbered
before the blank ones are left out, so an item carries its place in the file.
-/

namespace ScanAudit.Log

open Text

abbrev Item := Except BadLine Entry

/-- The lines of a text with their numbers, without the blank ones. -/
def numberedLines (text : String) : List (List Char × Nat) :=
  ((lines text.toList).zipIdx 1).filter fun l => !l.1.all isBlank

def items (text : String) : List Item :=
  (numberedLines text).map fun l => readLine l.2 (String.ofList l.1)

/-- The log that the application writes for a list of queries and counts. -/
def write (records : List (String × Nat)) : String :=
  String.join (records.map fun r => writeLine r.1 r.2 ++ "\n")

end ScanAudit.Log
