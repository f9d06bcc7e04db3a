import ScanAudit.Plan.Step
import ScanAudit.Text.Blank
import ScanAudit.Text.Keyword
import ScanAudit.Text.Search

/-!
# Reading a step's description

The database describes a step in a line such as

    SEARCH messages USING INDEX message_session_id (session_id=?)

The keyword at its start, in any letter case, tells the form of the description; the form tells
where the names stand.

* `Form` — the forms, and the keywords that begin them
* `Form.ofDetail` — the form of a description
* `readDetail` — the step that a description is about
-/

namespace ScanAudit.Plan

open Text

inductive Form
  | scan | search | tempTree | compound | listSubquery | subquery | coroutine | materialize
  | unionAll | setOperation | merge | leftPart | rightPart | bloomFilter | other
  deriving DecidableEq

/-- The keywords that begin a description, the first match counts: `UNION ALL` comes before
`UNION`. -/
def Form.keywords : List (String × Form) :=
  [("SCAN", .scan), ("SEARCH", .search),
   ("USE TEMP B-TREE", .tempTree), ("USING TEMP B-TREE", .tempTree),
   ("COMPOUND QUERY", .compound), ("COMPOUND SUBQUERIES", .compound),
   ("LIST SUBQUERY", .listSubquery),
   ("CORRELATED", .subquery), ("SCALAR SUBQUERY", .subquery),
   ("CO-ROUTINE", .coroutine), ("MATERIALIZE", .materialize),
   ("UNION ALL", .unionAll),
   ("UNION", .setOperation), ("INTERSECT", .setOperation), ("EXCEPT", .setOperation),
   ("MERGE", .merge), ("LEFT", .leftPart), ("RIGHT", .rightPart),
   ("BLOOM FILTER", .bloomFilter)]

def Form.ofDetail (cs : List Char) : Form :=
  match Form.keywords.find? fun k => Keyword.startsWith k.1.toList cs with
  | some (_, form) => form
  | none => .other

/-- Whether a description has a keyword anywhere. -/
def mentions (cs : List Char) (keyword : String) : Bool :=
  Keyword.occurs keyword.toList cs

def nonEmpty? (cs : List Char) : Option String :=
  if cs.isEmpty then none else some (String.ofList cs)

/-- The table that a description names after its first keyword, where the word `TABLE` may stand
in between. `CONSTANT` and `SUBQUERY` are no tables. -/
def tableAfter? (keyword : String) (cs : List Char) : Option String :=
  let rest := dropBlanks (cs.drop keyword.length)
  let rest := if Keyword.startsWith "TABLE ".toList rest then rest.drop 6 else rest
  let word := firstWord rest
  if upper word = "CONSTANT".toList ∨ upper word = "SUBQUERY".toList then none
  else nonEmpty? word

/-- The word after the first occurrence of a keyword, up to an opening parenthesis. -/
def indexAfter? (keyword : String) (cs : List Char) : Option String := do
  let rest ← Keyword.after? keyword.toList cs
  nonEmpty? ((firstWord rest).takeWhile (· != '('))

def condition? (cs : List Char) : Option String :=
  (betweenOuter? '(' ')' cs).map String.ofList

/-- The second word of a description. -/
def operand? (cs : List Char) : Option String :=
  nonEmpty? (firstWord (afterWord cs))

def flag (name : String) : Json.Fields :=
  [(name, .bool true)]

/-- A table that is read row by row, through an index at most to have its rows in order. -/
def scanStep (cs : List Char) : Step :=
  let (kind, indexName) : Kind × Option String :=
    if mentions cs "USING COVERING INDEX" then (.indexOnlyScan, indexAfter? "COVERING INDEX" cs)
    else if mentions cs "USING INDEX" then (.indexScan, indexAfter? "INDEX" cs)
    else (.seqScan, none)
  let kind : Kind :=
    if mentions cs "CONSTANT ROW" then .valuesScan
    else if mentions cs "SUBQUERY" then .subqueryScan
    else kind
  { kind, indexName, relation := tableAfter? "SCAN" cs }

/-- Rows that are looked up through an index, which may be one made for this query alone. -/
def searchStep (cs : List Char) : Step :=
  let relation := tableAfter? "SEARCH" cs
  let indexCondition := condition? cs
  if mentions cs "AUTOMATIC" || mentions cs "AUTO-INDEX" then
    { kind := .indexOnlyScan, indexName := some "AUTO-INDEX", relation, indexCondition,
      extra := flag "auto_index" }
  else if mentions cs "USING COVERING INDEX" then
    { kind := .indexOnlyScan, indexName := indexAfter? "COVERING INDEX" cs, relation,
      indexCondition }
  else if mentions cs "USING INDEX" then
    { kind := .indexScan, indexName := indexAfter? "INDEX" cs, relation, indexCondition }
  else if mentions cs "PRIMARY KEY" || mentions cs "ROWID" then
    { kind := .indexScan, indexName := some "PRIMARY KEY", relation, indexCondition }
  else
    { kind := .indexScan, relation, indexCondition }

/-- Rows that are collected in a temporary tree, to sort them or to tell them apart. -/
def tempTreeStep (cs : List Char) : Step :=
  let kind : Kind :=
    if mentions cs "DISTINCT" then .unique
    else if mentions cs "GROUP BY" then .hashAggregate
    else .sort
  { kind, extra := flag "using_temp_btree" }

/-- The step of a description in a given form, still without the description itself. -/
def Form.step (cs : List Char) : Form → Step
  | .scan => scanStep cs
  | .search => searchStep cs
  | .tempTree => tempTreeStep cs
  | .compound => { kind := .setOp }
  | .listSubquery => { kind := .subqueryScan, extra := flag "list_subquery" }
  | .subquery =>
    { kind := .subqueryScan,
      extra := if mentions cs "CORRELATED" then flag "correlated" else [] }
  | .coroutine => { kind := .cteScan, relation := operand? cs }
  | .materialize => { kind := .materialize, relation := operand? cs }
  | .unionAll => { kind := .append }
  | .setOperation => { kind := .setOp }
  | .merge => { kind := .mergeAppend }
  | .leftPart => { kind := .nestedLoop, join := some .left }
  | .rightPart => { kind := .nestedLoop, join := some .right }
  | .bloomFilter => { kind := .hash, extra := flag "bloom_filter" }
  | .other => { kind := .unknown }

def readDetail (detail : String) : Step :=
  let cs := trim detail.toList
  { (Form.ofDetail cs).step cs with description := some (String.ofList cs) }

end ScanAudit.Plan
