/-!
# Physical lines

A line ends in a line feed, and one carriage return just before the line feed belongs to the line
end. The last line needs no end; a text that ends in a line feed has no further, empty line.

* `lines` — the lines of a text
* `dropReturn` — a line without one carriage return at its end
-/

namespace ScanAudit.Text

def dropReturn (cs : List Char) : List Char :=
  if cs.getLast? = some '\r' then cs.dropLast else cs

/-- The lines that a line feed ends, and what follows the last line feed if that is not empty. -/
def lines (cs : List Char) : List (List Char) :=
  let pieces := cs.splitOn '\n'
  pieces.dropLast.map dropReturn ++ pieces.getLast?.toList.filter (!·.isEmpty)

/-- One carriage return at the end is taken off, whatever stands before it. -/
theorem dropReturn_append_return (cs : List Char) : dropReturn (cs ++ ['\r']) = cs := by
  simp [dropReturn]

theorem lines_nil : lines [] = [] := rfl

end ScanAudit.Text
