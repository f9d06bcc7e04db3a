import ScanAudit.Plan.Tree
import ScanAudit.Stored.Basic

/-!
# Stored plans

A plan is an object with one field, the step at its root; a step is an object with the fields of
the step and the steps below it.

* `Step.toFields`, `Step.ofFields?` — a step without those below it
* `Tree.toJson`, `Tree.ofJson?` — a step with those below it
* `planToJson`, `planOfJson?` — a plan
-/

namespace ScanAudit.Plan

open Json

/-- The fields of a step with those below it, in the order of an array that stands for it. -/
def Step.fieldNames : List String :=
  ["node_type", "id", "description", "relation", "index_name", "index_cond", "join_type",
   "children", "extra"]

def Step.toFields (step : Step) : Json.Fields :=
  [("node_type", .str step.kind.name),
   ("id", ofOption ofInt64 step.id),
   ("description", ofOption .str step.description),
   ("relation", ofOption .str step.relation),
   ("index_name", ofOption .str step.indexName),
   ("index_cond", ofOption .str step.indexCondition),
   ("join_type", ofOption (fun join => .str join.name) step.join),
   ("extra", .obj step.extra)]

def Step.ofFields? (fields : Json.Fields) : Option Step := do
  let kind ← required? (asName? Kind.ofName?) fields "node_type"
  let id ← optional? asInt64? fields "id"
  let description ← optional? asString? fields "description"
  let relation ← optional? asString? fields "relation"
  let indexName ← optional? asString? fields "index_name"
  let indexCondition ← optional? asString? fields "index_cond"
  let join ← optional? (asName? Join.ofName?) fields "join_type"
  let extra ← required? asFields? fields "extra"
  some { kind, id, description, relation, indexName, indexCondition, join, extra }

mutual

def Tree.toJson : RoseTree Step → Json
  | .node step children => .obj (step.toFields ++ [("children", .arr (Tree.listToJson children))])

def Tree.listToJson : List (RoseTree Step) → List Json
  | [] => []
  | tree :: trees => Tree.toJson tree :: Tree.listToJson trees

end

mutual

def Tree.ofJson? : Json → Option (RoseTree Step)
  | .obj fields => do
    let step ← Step.ofFields? fields
    let children ← Tree.childrenOfFields? fields
    some (.node step children)
  | .arr items =>
    if items.length = Step.fieldNames.length then do
      let step ← Step.ofFields? (Step.fieldNames.zip items)
      let children ← Tree.childrenOfItems? Step.fieldNames items
      some (.node step children)
    else none
  | _ => none

/-- The steps in the field that holds those below. -/
def Tree.childrenOfFields? : List (String × Json) → Option (List (RoseTree Step))
  | [] => none
  | (name, value) :: fields =>
    if name = "children" then Tree.childrenOfJson? value else Tree.childrenOfFields? fields

/-- The steps in the item that stands for that field. -/
def Tree.childrenOfItems? : List String → List Json → Option (List (RoseTree Step))
  | name :: names, item :: items =>
    if name = "children" then Tree.childrenOfJson? item else Tree.childrenOfItems? names items
  | _, _ => none

def Tree.childrenOfJson? : Json → Option (List (RoseTree Step))
  | .arr items => Tree.listOfJson? items
  | _ => none

def Tree.listOfJson? : List Json → Option (List (RoseTree Step))
  | [] => some []
  | item :: items => do
    let tree ← Tree.ofJson? item
    let trees ← Tree.listOfJson? items
    some (tree :: trees)

end

def planFieldNames : List String := ["root"]

def planToJson (tree : Tree) : Json :=
  .obj [("root", Tree.toJson tree)]

def planOfJson? (value : Json) : Option Tree := do
  let fields ← asRecord? planFieldNames value
  required? Tree.ofJson? fields "root"

end ScanAudit.Plan
