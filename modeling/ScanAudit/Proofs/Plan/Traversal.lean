import Mathlib.Data.List.Basic
import ScanAudit.Plan.RoseTree

/-!
# Traversal of ordered trees

A plan is listed by a walk that keeps the trees to come on a stack. The stack, read from its top,
is the list of the trees that are still to be listed, so the walk is the recursive listing of all
subtrees. Everything else about a listing is then an induction over the tree.

* `map` — a tree with other values at the same places
* `values`, `valuesAll` — the values of a tree, or of several, in the order of the listing
* `walk_eq_subtreesAll` — the walk is the recursive listing
* `values_map`, `length_values` — the listing of a tree with other values, and how long it is
-/

namespace ScanAudit.Plan.RoseTree

variable {α β : Type}

/-! ## Induction with a hypothesis for every child

The recursor of the nested type speaks of lists of trees as well; here the list is only a means
to reach each of its members. -/

/-- What holds of a node when it holds of its children holds of every tree. -/
theorem children_induction {motive : RoseTree α → Prop}
    (hnode : ∀ v ts, (∀ t ∈ ts, motive t) → motive (node v ts)) (t : RoseTree α) : motive t := by
  refine @RoseTree.rec α motive (fun ts => ∀ t ∈ ts, motive t) hnode ?_ ?_ t
  · -- no trees
    intro t ht
    exact absurd ht List.not_mem_nil
  · -- the first tree, and those behind it
    intro head tail hhead htail t ht
    rcases List.mem_cons.mp ht with rfl | ht
    · exact hhead
    · exact htail t ht

/-! ## Trees with other values -/

mutual

def map (f : α → β) : RoseTree α → RoseTree β
  | node v ts => node (f v) (mapAll f ts)

def mapAll (f : α → β) : List (RoseTree α) → List (RoseTree β)
  | [] => []
  | t :: ts => map f t :: mapAll f ts

end

theorem mapAll_eq_map (f : α → β) (ts : List (RoseTree α)) : mapAll f ts = ts.map (map f) := by
  induction ts with
  | nil => rfl
  | cons t ts ih => rw [mapAll, ih, List.map_cons]

theorem map_node (f : α → β) (v : α) (ts : List (RoseTree α)) :
    map f (node v ts) = node (f v) (ts.map (map f)) := by
  rw [map, mapAll_eq_map]

/-! ## The recursive listing -/

theorem subtreesAll_eq_flatMap (ts : List (RoseTree α)) : subtreesAll ts = ts.flatMap subtrees := by
  induction ts with
  | nil => rfl
  | cons t ts ih => rw [subtreesAll, ih, List.flatMap_cons]

theorem subtreesAll_append (ts us : List (RoseTree α)) :
    subtreesAll (ts ++ us) = subtreesAll ts ++ subtreesAll us := by
  rw [subtreesAll_eq_flatMap, List.flatMap_append, ← subtreesAll_eq_flatMap,
    ← subtreesAll_eq_flatMap]

theorem subtrees_eq_cons (t : RoseTree α) : subtrees t = t :: subtreesAll t.children := by
  cases t; rw [subtrees, children]

theorem mem_subtreesAll {t : RoseTree α} {ts : List (RoseTree α)} :
    t ∈ subtreesAll ts ↔ ∃ u ∈ ts, t ∈ subtrees u := by
  rw [subtreesAll_eq_flatMap, List.mem_flatMap]

/-- The walk lists what the recursion lists. The induction is on the walk itself: the children of
the top tree come before the rest of the stack in both. -/
theorem walk_eq_subtreesAll (stack : List (RoseTree α)) : walk stack = subtreesAll stack := by
  induction stack using walk.induct with
  | case1 stack hdone =>
    -- nothing is left on the stack
    obtain rfl := next?_eq_none_iff.mp hdone
    rw [walk_nil, subtreesAll]
  | case2 stack t rest hnext ih =>
    -- the top tree is taken, and its children come to the top
    obtain ⟨later, rfl, rfl⟩ := next?_eq_some_iff.mp hnext
    rw [walk_cons, ih, subtreesAll_append, subtreesAll, subtrees_eq_cons, List.cons_append]

/-- The values of a tree, each before those below it. -/
def values (t : RoseTree α) : List α :=
  (subtrees t).map value

/-- The values of several trees, one tree after the other. -/
def valuesAll (ts : List (RoseTree α)) : List α :=
  (subtreesAll ts).map value

theorem values_node (v : α) (ts : List (RoseTree α)) :
    values (node v ts) = v :: valuesAll ts := by
  rw [values, subtrees, List.map_cons, value, valuesAll]

theorem valuesAll_nil : valuesAll ([] : List (RoseTree α)) = [] := rfl

theorem valuesAll_cons (t : RoseTree α) (ts : List (RoseTree α)) :
    valuesAll (t :: ts) = values t ++ valuesAll ts := by
  rw [valuesAll, subtreesAll, List.map_append, values, valuesAll]

theorem valuesAll_append (ts us : List (RoseTree α)) :
    valuesAll (ts ++ us) = valuesAll ts ++ valuesAll us := by
  rw [valuesAll, subtreesAll_append, List.map_append, valuesAll, valuesAll]

theorem valuesAll_eq_flatMap (ts : List (RoseTree α)) : valuesAll ts = ts.flatMap values := by
  rw [valuesAll, subtreesAll_eq_flatMap, List.map_flatMap]
  rfl

theorem valuesAll_singleton (t : RoseTree α) : valuesAll [t] = values t := by
  rw [valuesAll_cons, valuesAll_nil, List.append_nil]

/-- The listing of a tree with other values is the listing with other values. -/
theorem values_map (f : α → β) (t : RoseTree α) : values (map f t) = (values t).map f := by
  induction t using children_induction with
  | hnode v ts ih =>
    rw [map_node, values_node, values_node, List.map_cons, valuesAll_eq_flatMap,
      valuesAll_eq_flatMap, List.flatMap_map, List.map_flatMap]
    congr 1
    exact List.flatMap_congr ih

/-- The listing of several trees with other values is the listing with other values. -/
theorem valuesAll_map (f : α → β) (ts : List (RoseTree α)) :
    valuesAll (ts.map (map f)) = (valuesAll ts).map f := by
  rw [valuesAll_eq_flatMap, valuesAll_eq_flatMap, List.flatMap_map, List.map_flatMap]
  exact List.flatMap_congr fun t _ => values_map f t

/-- A tree has as many values as nodes. -/
theorem length_values (t : RoseTree α) : (values t).length = size t := by
  induction t using children_induction with
  | hnode v ts ih =>
    rw [values_node, List.length_cons, size, Nat.add_comm]
    congr 1
    -- the sizes of the children add up as the lengths of their listings do
    induction ts with
    | nil => rfl
    | cons t ts ihts =>
      have hhead := ih t List.mem_cons_self
      have htail := ihts fun u hu => ih u (List.mem_cons_of_mem t hu)
      rw [valuesAll_cons, List.length_append, sizeAll, hhead, htail]

end ScanAudit.Plan.RoseTree
