import ScanAudit.Proofs.Plan.Shape

/-!
# Listing a plan and reading it back

A forest of operations is listed with each operation before those below it, and every row gives the
number of the operation that it is below. If the numbers tell the operations apart, reading such a
list gives the forest back, and a walk of the plan goes through the rows in their order.

* `Operation` — what a row says of its own step
* `listing`, `listingAll` — the rows of a tree and of a forest
* `foldr_adopt_listing` — a listed tree in front of other subtrees that wait is one of them
* `ofRows_listingAll` — listing and reading back
-/

namespace ScanAudit.Plan

open Explain RoseTree

/-- A row without its parent. -/
structure Operation where
  id : Int64
  notUsed : Int64
  detail : String

namespace Operation

def row (operation : Operation) (parent : Int64) : Row :=
  ⟨operation.id, parent, operation.notUsed, operation.detail⟩

def step (operation : Operation) : Step :=
  { readDetail operation.detail with id := some operation.id }

/-- The step of a row does not hang on the parent. -/
theorem stepOfRow_row (operation : Operation) (parent : Int64) :
    stepOfRow (operation.row parent) = operation.step := rfl

end Operation

mutual

/-- The rows of a tree below the operation with a given number. -/
def listing (parent : Int64) : RoseTree Operation → List Row
  | .node operation ts => operation.row parent :: listingAll operation.id ts

def listingAll (parent : Int64) : List (RoseTree Operation) → List Row
  | [] => []
  | t :: ts => listing parent t ++ listingAll parent ts

end

/-- The numbers of a forest's operations, in the order of its listing. -/
def numbers (forest : List (RoseTree Operation)) : List Int64 :=
  (valuesAll forest).map (·.id)

/-- The numbers of the first tree come first. -/
theorem numbers_cons (t : RoseTree Operation) (ts : List (RoseTree Operation)) :
    numbers (t :: ts) = numbers [t] ++ numbers ts := by
  rw [numbers, valuesAll_cons, List.map_append, numbers, valuesAll_singleton, numbers]

/-- The number of an operation comes before those below it. -/
theorem numbers_node (operation : Operation) (ts : List (RoseTree Operation)) :
    numbers [.node operation ts] = operation.id :: numbers ts := by
  rw [numbers, valuesAll_singleton, values_node, List.map_cons, numbers]

/-! ## The rows of a forest are its operations, in order -/

mutual

/-- The rows of a tree have the steps of its operations, in order. By recursion over the tree,
together with the forest below it. -/
theorem map_stepOfRow_listing (parent : Int64) (t : RoseTree Operation) :
    (listing parent t).map stepOfRow = (values t).map Operation.step := by
  match t with
  | .node operation ts =>
    rw [listing, List.map_cons, map_stepOfRow_listingAll operation.id ts, values_node,
      List.map_cons, Operation.stepOfRow_row]

/-- The same for a forest. -/
theorem map_stepOfRow_listingAll (parent : Int64) (ts : List (RoseTree Operation)) :
    (listingAll parent ts).map stepOfRow = (valuesAll ts).map Operation.step := by
  match ts with
  | [] => rfl
  | t :: ts =>
    rw [listingAll, List.map_append, map_stepOfRow_listing parent t,
      map_stepOfRow_listingAll parent ts, valuesAll_cons, List.map_append]

end

/-! ## A listed forest among subtrees that wait

Rows are put together from the last to the first, so the rows of a tree come in front of subtrees
that wait already. None of these is for an operation of the tree: they stay as they are, and the
tree waits in front of them. -/

/-- A tree of operations, ready to be taken by the operation with a given number. -/
def waitingFor (parent : Int64) (t : RoseTree Operation) : Waiting :=
  ⟨t.value.row parent, t.map Operation.step⟩

/-- A subtree that waits for another number is not for this row. -/
theorem belongsTo_eq_false {row : Row} {w : Waiting} (h : w.row.parent ≠ row.id) :
    w.belongsTo row = false := by
  simp [Waiting.belongsTo, h]

/-- A subtree that waits for the number of an operation is for its row. -/
theorem belongsTo_waitingFor {operation : Operation} (h : operation.id ≠ 0) (parent : Int64)
    (t : RoseTree Operation) :
    (waitingFor operation.id t).belongsTo (operation.row parent) = true := by
  simp [Waiting.belongsTo, Waiting.isTop, waitingFor, Operation.row, h]

/-- A row takes the subtrees that are for it, when they come before the others. -/
theorem adopt_append {row : Row} {own others : List Waiting}
    (hown : ∀ w ∈ own, w.belongsTo row = true)
    (hothers : ∀ w ∈ others, w.belongsTo row = false) :
    adopt row (own ++ others) = ⟨row, .node (stepOfRow row) (own.map (·.tree))⟩ :: others := by
  have htaken : (own ++ others).filter (·.belongsTo row) = own := by
    rw [List.filter_append, List.filter_eq_self.mpr hown,
      List.filter_eq_nil_iff.mpr fun w hw => by simp [hothers w hw], List.append_nil]
  have hleft : (own ++ others).filter (!·.belongsTo row) = others := by
    rw [List.filter_append, List.filter_eq_nil_iff.mpr fun w hw => by simp [hown w hw],
      List.filter_eq_self.mpr fun w hw => by simp [hothers w hw], List.nil_append]
  rw [adopt, htaken, hleft]

mutual

/-- The rows of a tree, put in front of others that wait, become that tree. By recursion over the
tree: its forest waits first, then its root takes it. -/
theorem foldr_adopt_listing (parent : Int64) (t : RoseTree Operation) (others : List Waiting)
    (hnodup : (numbers [t]).Nodup) (hzero : 0 ∉ numbers [t])
    (hothers : ∀ w ∈ others, w.row.parent ∉ numbers [t]) :
    (listing parent t).foldr adopt others = waitingFor parent t :: others := by
  match t with
  | .node operation ts =>
    rw [numbers_node] at hnodup hzero hothers
    obtain ⟨hfresh, hnodup⟩ := List.nodup_cons.mp hnodup
    -- the children wait for the operation's own number
    have hchildren := foldr_adopt_listingAll operation.id ts others hnodup
      (fun h => hzero (.tail _ h)) hfresh (fun w hw h => hothers w hw (.tail _ h))
    -- zero would be the number of the top, and belongs to no operation
    have hid : operation.id ≠ 0 := fun h => hzero (h ▸ .head _)
    have hown : ∀ w ∈ ts.map (waitingFor operation.id),
        w.belongsTo (operation.row parent) = true := by
      intro w hw
      obtain ⟨t, _, rfl⟩ := List.mem_map.mp hw
      exact belongsTo_waitingFor hid parent t
    -- what waits already is for no operation of the tree
    have hleft : ∀ w ∈ others, w.belongsTo (operation.row parent) = false :=
      fun w hw => belongsTo_eq_false fun h => hothers w hw (h ▸ .head _)
    rw [listing, List.foldr_cons, hchildren, adopt_append hown hleft, waitingFor, map_node,
      List.map_map]
    rfl

/-- The same for a forest, whose trees then wait one beside the other. -/
theorem foldr_adopt_listingAll (parent : Int64) (ts : List (RoseTree Operation))
    (others : List Waiting) (hnodup : (numbers ts).Nodup) (hzero : 0 ∉ numbers ts)
    (hparent : parent ∉ numbers ts) (hothers : ∀ w ∈ others, w.row.parent ∉ numbers ts) :
    (listingAll parent ts).foldr adopt others = ts.map (waitingFor parent) ++ others := by
  match ts with
  | [] => rfl
  | t :: ts =>
    rw [numbers_cons] at hnodup hzero hparent hothers
    obtain ⟨hnodupHead, hnodupTail, _⟩ := List.nodup_append.mp hnodup
    have hafter := foldr_adopt_listingAll parent ts others hnodupTail
      (fun h => hzero (List.mem_append_right _ h)) (fun h => hparent (List.mem_append_right _ h))
      (fun w hw h => hothers w hw (List.mem_append_right _ h))
    -- the trees after this one wait for the same parent, which is none of its operations
    have hwaiting : ∀ w ∈ ts.map (waitingFor parent) ++ others,
        w.row.parent ∉ numbers [t] := by
      intro w hw h
      rcases List.mem_append.mp hw with hw | hw
      · obtain ⟨u, _, rfl⟩ := List.mem_map.mp hw
        exact hparent (List.mem_append_left _ h)
      · exact hothers w hw (List.mem_append_left _ h)
    rw [listingAll, List.foldr_append, hafter,
      foldr_adopt_listing parent t _ hnodupHead
        (fun h => hzero (List.mem_append_left _ h)) hwaiting,
      List.map_cons, List.cons_append]

end

/-- The subtrees that wait at the end of a listed forest are its trees, all of them at the top. -/
theorem waiting_listingAll {forest : List (RoseTree Operation)} (hnodup : (numbers forest).Nodup)
    (hzero : 0 ∉ numbers forest) :
    waiting (listingAll 0 forest) = forest.map (waitingFor 0) := by
  have h := foldr_adopt_listingAll 0 forest [] hnodup hzero hzero nofun
  rwa [List.append_nil] at h

/-- A forest of operations with numbers of their own, none of them zero, is read back from its
listing: a single tree as the plan itself, two or more under a step that appends them. The walk of
the plan goes through the steps of the rows, in their order, after that step if there is one. -/
theorem ofRows_listingAll {forest : List (RoseTree Operation)} (hne : forest ≠ [])
    (hnodup : ((valuesAll forest).map (·.id)).Nodup)
    (hzero : ∀ operation ∈ valuesAll forest, operation.id ≠ 0) :
    ∃ tree, Tree.ofRows (listingAll 0 forest) = .ok tree ∧
      ((∃ t, forest = [t] ∧ tree = t.map Operation.step) ∨
        2 ≤ forest.length ∧
          tree = .node { kind := .append } (forest.map (·.map Operation.step))) ∧
      tree.nodes.map (·.step) =
        (if forest.length = 1 then [] else [{ kind := .append }]) ++
          (listingAll 0 forest).map stepOfRow := by
  have hnumbers : 0 ∉ numbers forest := fun h => by
    obtain ⟨operation, hmem, hid⟩ := List.mem_map.mp h
    exact hzero operation hmem hid
  have hwaiting := waiting_listingAll hnodup hnumbers
  have htrees : (waiting (listingAll 0 forest)).map (·.tree) =
      forest.map (·.map Operation.step) := by
    rw [hwaiting, List.map_map]; rfl
  have hrows : (listingAll 0 forest).isEmpty = false := by
    -- a tree has a row for its root
    obtain ⟨t, ts, rfl⟩ := List.exists_cons_of_ne_nil hne
    cases t; rfl
  have horphan : (waiting (listingAll 0 forest)).reverse.find? (!·.isTop) = none := by
    -- all that waits in the end is at the top
    rw [hwaiting, List.find?_eq_none]
    simp [waitingFor, Waiting.isTop, Operation.row]
  refine ⟨Tree.ofForest (forest.map (·.map Operation.step)), ?_, ?_, ?_⟩
  · rw [Tree.ofRows, hrows, horphan, htrees]
    rfl
  · exact ofForest_map_cases hne Operation.step
  · rw [map_step_nodes, values_ofForest, wrapper, List.length_map, valuesAll_map,
      map_stepOfRow_listingAll]

/-- Two trees, one of them with three levels. -/
def nestedForest : List (RoseTree Operation) :=
  [.node ⟨7, 0, "CORRELATED SCALAR SUBQUERY 1"⟩
      [.node ⟨11, 0, "MULTI-INDEX OR"⟩ [.node ⟨3, 0, "SCAN a"⟩ [], .node ⟨14, 0, "SCAN b"⟩ []],
        .node ⟨20, 0, "SCAN c"⟩ []],
    .node ⟨5, 0, "USE TEMP B-TREE FOR ORDER BY"⟩ []]

/-- Two trees come back under a step that appends them. -/
theorem ofRows_listingAll_nestedForest :
    nestedForest ≠ [] ∧ ((valuesAll nestedForest).map (·.id)).Nodup ∧
      (∀ operation ∈ valuesAll nestedForest, operation.id ≠ 0) ∧
      ∃ tree, Tree.ofRows (listingAll 0 nestedForest) = .ok tree ∧
        ((∃ t, nestedForest = [t] ∧ tree = t.map Operation.step) ∨
          2 ≤ nestedForest.length ∧
            tree = .node { kind := .append } (nestedForest.map (·.map Operation.step))) ∧
        tree.nodes.map (·.step) =
          (if nestedForest.length = 1 then [] else [{ kind := .append }]) ++
            (listingAll 0 nestedForest).map stepOfRow := by
  have hne : nestedForest ≠ [] := nofun
  have hnodup : ((valuesAll nestedForest).map (·.id)).Nodup := by decide
  have hzero : ∀ operation ∈ valuesAll nestedForest, operation.id ≠ 0 := by decide
  exact ⟨hne, hnodup, hzero, ofRows_listingAll hne hnodup hzero⟩

example : (listingAll 0 nestedForest).map (·.parent) = [0, 7, 11, 11, 7, 0] := by decide

end ScanAudit.Plan
