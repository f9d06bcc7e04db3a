import ScanAudit.Explain.Row
import ScanAudit.Names
import ScanAudit.Plan.Detail
import ScanAudit.Plan.RoseTree

/-!
# Plan trees

A plan is a tree of steps. The database lists it as rows; a row's parent is the nearest earlier row
with the parent's number, or zero for a row at the top.

* `Tree.ofRows` — the tree that a list of rows describes
* `BuildError` — why a list of rows is no tree
* `Tree.nodes` — the steps of a plan in the order of a walk, with the number of their children
* `Tree.scannedTables` — the tables that a plan reads row by row
-/

namespace ScanAudit.Plan

open Explain

abbrev Tree := RoseTree Step

inductive BuildError
  | noRows
  /-- No row before this one has the number that it gives as its parent. -/
  | unknownParent (id parent : Int64)
  deriving DecidableEq

def BuildError.message : BuildError → String
  | .noRows => "Empty EXPLAIN output"
  | .unknownParent id parent =>
    "Invalid plan structure: row " ++ renderInt id ++ " refers to unknown parent " ++
      renderInt parent

/-- A finished subtree and the row at its root, which waits for its parent. -/
structure Waiting where
  row : Row
  tree : Tree

def stepOfRow (row : Row) : Step :=
  { readDetail row.detail with id := some row.id }

def Waiting.isTop (w : Waiting) : Bool :=
  w.row.parent == 0

/-- Whether a subtree belongs below a row that comes before it. -/
def Waiting.belongsTo (row : Row) (w : Waiting) : Bool :=
  !w.isTop && w.row.parent == row.id

/-- A row in front of finished subtrees takes those that wait for its number as its children. As
rows are added from the last to the first, it is the nearest earlier row for each of them. -/
def adopt (row : Row) (later : List Waiting) : List Waiting :=
  let children := (later.filter (·.belongsTo row)).map (·.tree)
  ⟨row, .node (stepOfRow row) children⟩ :: later.filter (!·.belongsTo row)

/-- The subtrees of a list of rows that no row of the list takes, in the order of the rows. -/
def waiting (rows : List Row) : List Waiting :=
  rows.foldr adopt []

/-- One tree is the plan itself, any other number goes under a step that appends their rows. -/
def Tree.ofForest : List Tree → Tree
  | [tree] => tree
  | trees => .node { kind := .append } trees

/-- The plan of a list of rows. Of several rows without a parent the last one is reported. -/
def Tree.ofRows (rows : List Row) : Except BuildError Tree :=
  if rows.isEmpty then .error .noRows
  else
    match (waiting rows).reverse.find? (!·.isTop) with
    | some orphan => .error (.unknownParent orphan.row.id orphan.row.parent)
    | none => .ok (Tree.ofForest ((waiting rows).map (·.tree)))

/-- A step as it stands in a listing of a plan. -/
structure Listed where
  step : Step
  childCount : Nat

def Tree.nodes (tree : Tree) : List Listed :=
  (RoseTree.walk [tree]).map fun t => ⟨t.value, t.children.length⟩

def Step.scannedTable? (step : Step) : Option String :=
  if step.kind = .seqScan then step.relation else none

def Tree.scannedTables (tree : Tree) : List String :=
  Names.sorted (tree.nodes.filterMap (·.step.scannedTable?))

end ScanAudit.Plan
