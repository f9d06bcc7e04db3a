import ScanAudit.Json.Basic

/-!
# Steps of a query plan

A step says what the database does at one point of a plan: the kind of operation, what it reads,
and through which index.

* `Kind`, `Join` — the operations, with their names in stored plans
* `Step` — an operation with what is known about it
-/

namespace ScanAudit.Plan

inductive Kind
  | seqScan | indexScan | indexOnlyScan | subqueryScan | valuesScan | cteScan
  | nestedLoop
  | sort | unique | hashAggregate
  | setOp | append | mergeAppend
  | materialize
  | hash
  | unknown
  deriving DecidableEq

def Kind.all : List Kind :=
  [.seqScan, .indexScan, .indexOnlyScan, .subqueryScan, .valuesScan, .cteScan, .nestedLoop,
   .sort, .unique, .hashAggregate, .setOp, .append, .mergeAppend, .materialize, .hash, .unknown]

def Kind.name : Kind → String
  | .seqScan => "seq_scan"
  | .indexScan => "index_scan"
  | .indexOnlyScan => "index_only_scan"
  | .subqueryScan => "subquery_scan"
  | .valuesScan => "values_scan"
  | .cteScan => "cte_scan"
  | .nestedLoop => "nested_loop"
  | .sort => "sort"
  | .unique => "unique"
  | .hashAggregate => "hash_aggregate"
  | .setOp => "set_op"
  | .append => "append"
  | .mergeAppend => "merge_append"
  | .materialize => "materialize"
  | .hash => "hash"
  | .unknown => "unknown"

def Kind.ofName? (name : String) : Option Kind :=
  Kind.all.find? (·.name == name)

inductive Join
  | inner | left | right
  deriving DecidableEq

def Join.all : List Join := [.inner, .left, .right]

def Join.name : Join → String
  | .inner => "inner"
  | .left => "left"
  | .right => "right"

def Join.ofName? (name : String) : Option Join :=
  Join.all.find? (·.name == name)

structure Step where
  kind : Kind
  /-- The number of the plan row that the step was read from. -/
  id : Option Int64 := none
  description : Option String := none
  /-- The table that the step reads. -/
  relation : Option String := none
  indexName : Option String := none
  indexCondition : Option String := none
  join : Option Join := none
  /-- Properties that have no field of their own. -/
  extra : Json.Fields := []

/-- No two kinds share a name. -/
theorem Kind.ofName?_name (kind : Kind) : Kind.ofName? kind.name = some kind := by
  cases kind <;> decide

/-- No two joins share a name. -/
theorem Join.ofName?_name (join : Join) : Join.ofName? join.name = some join := by
  cases join <;> decide

end ScanAudit.Plan
