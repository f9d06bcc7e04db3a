/-!
# Placeholders

A logged query still has its positional markers, and a database refuses to explain it without a
value for each. The values that the application used are not in the log, so every marker gets a
neutral zero. A marker counts wherever it stands, also inside a string or a comment.
-/

namespace ScanAudit.Placeholder

def marker : Char := '?'

def count (query : String) : Nat :=
  query.toList.count marker

def dummyBindings (query : String) : List Int64 :=
  List.replicate (count query) 0

theorem length_dummyBindings (query : String) : (dummyBindings query).length = count query :=
  List.length_replicate

end ScanAudit.Placeholder
