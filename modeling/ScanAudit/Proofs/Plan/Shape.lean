import ScanAudit.Proofs.Plan.NearestParent

/-!
# The shape of a plan

The tree of a list of rows is the one that the nearest parents give. `Linked` says this of a forest
of places by its links alone: every place once, the rows at the top in front, and below each place
those that it is the nearest parent of. There is exactly one such forest, and the plan is it with
the steps of the rows, under a step that appends them if there are several trees.

* `Linked` — a forest of places has the links of the nearest parents
* `Linked.eq_forestAt` — no other forest has them
* `ofRows_shape` — the plan of a list of rows
-/

namespace ScanAudit.Plan

open Explain RoseTree

/-- The links of a forest of places are the nearest parents. -/
structure Linked (rows : List Row) (forest : List (RoseTree (Fin rows.length))) : Prop where
  /-- Every row has exactly one node. -/
  places : (valuesAll forest).Perm (List.finRange rows.length)
  /-- The roots are the rows at the top, in order. -/
  tops : forest.map value = topPlaces rows
  /-- The children of a node are the rows that it is the nearest parent of, in order. -/
  links : ∀ t ∈ subtreesAll forest, t.children.map value = childrenAt rows t.value

/-! ## Every place occurs once

A row that comes in front of the others becomes the root of some of the trees that wait: no node is
lost, and one is new. -/

theorem perm_waitingPlaces (rows : List Row) (j : Fin rows.length) :
    (childrenAt rows j ++ (waitingPlaces rows (j + 1)).filter (!takes rows j ·)).Perm
      (waitingPlaces rows (j + 1)) := by
  rw [← filter_takes_waitingPlaces]
  exact List.filter_append_perm _ _

theorem finRange_filter_le_eq_cons {n : Nat} (j : Fin n) :
    (List.finRange n).filter ((j : Nat) ≤ ·.val) =
      j :: (List.finRange n).filter ((j : Nat) + 1 ≤ ·.val) := by
  refine filter_eq_cons_of_pairwise (List.pairwise_lt_finRange n) (List.mem_finRange j) ?_ ?_
  · intro i
    rw [decide_eq_true_iff, decide_eq_true_iff]
    omega
  · intro i hi
    rw [decide_eq_true_iff] at hi
    omega

/-- The trees that wait once the rows from place `k` on are together hold these rows, each in one
node. The induction goes from the end of the list to its beginning, as the construction does. -/
theorem perm_valuesAll_waitingPlaces (rows : List Row) {k : Nat} (hk : k ≤ rows.length) :
    (valuesAll ((waitingPlaces rows k).map (treeAt rows))).Perm
      ((List.finRange rows.length).filter (k ≤ ·.val)) := by
  induction hk using Nat.decreasingInduction with
  | self =>
    -- no row has come, and no place is left behind the last one
    have hnone : (List.finRange rows.length).filter (rows.length ≤ ·.val) = [] := by
      simp
    rw [waitingPlaces_length, hnone]
    exact .nil
  | of_succ k hlt ih =>
    let j : Fin rows.length := ⟨k, hlt⟩
    -- the new tree and those that it leaves hold what all trees held before
    have htrees := ((perm_waitingPlaces rows j).map (treeAt rows)).flatMap_right values
    rw [← valuesAll_eq_flatMap, ← valuesAll_eq_flatMap, List.map_append, valuesAll_append] at htrees
    have hwaiting : waitingPlaces rows k =
        j :: (waitingPlaces rows (k + 1)).filter (!takes rows j ·) := waitingPlaces_eq_cons rows j
    have hplaces : (List.finRange rows.length).filter (k ≤ ·.val) =
        j :: (List.finRange rows.length).filter (k + 1 ≤ ·.val) := finRange_filter_le_eq_cons j
    rw [hwaiting, hplaces, List.map_cons, valuesAll_cons, treeAt_eq, values_node]
    exact (htrees.trans ih).cons j

/-- Where the parents are listed, every row has one node in the forest. -/
theorem perm_valuesAll_forestAt {rows : List Row} (h : ParentsListed rows) :
    (valuesAll (forestAt rows)).Perm (List.finRange rows.length) := by
  have hall := perm_valuesAll_waitingPlaces rows (Nat.zero_le _)
  have hplaces : (List.finRange rows.length).filter (0 ≤ ·.val) =
      List.finRange rows.length := by
    simp
  rwa [waitingPlaces_zero h, hplaces] at hall

/-! ## The links of the forest, and no other forest with them -/

theorem value_treeAt (rows : List Row) (j : Fin rows.length) : (treeAt rows j).value = j := by
  rw [treeAt_eq]; rfl

theorem map_value_treeAt (rows : List Row) (places : List (Fin rows.length)) :
    (places.map (treeAt rows)).map value = places := by
  rw [List.map_map, Function.comp_def, List.map_congr_left fun j _ => value_treeAt rows j,
    List.map_id']

/-- The subtrees of a tree of places are trees of places. -/
theorem eq_treeAt_of_mem_subtrees {rows : List Row} {t : RoseTree (Fin rows.length)}
    (j : Fin rows.length) (h : t ∈ subtrees (treeAt rows j)) : t = treeAt rows t.value := by
  induction j using treeAt.induct rows with
  | case1 j ih =>
    rw [treeAt_eq, subtrees, List.mem_cons] at h
    rcases h with rfl | h
    · rw [← treeAt_eq, value_treeAt]
    · -- below one of the children, which are trees of places themselves
      obtain ⟨u, hu, ht⟩ := mem_subtreesAll.mp h
      obtain ⟨i, hi, rfl⟩ := List.mem_map.mp hu
      exact ih ⟨i, hi⟩ ht

theorem linked_forestAt {rows : List Row} (h : ParentsListed rows) :
    Linked rows (forestAt rows) where
  places := perm_valuesAll_forestAt h
  tops := map_value_treeAt rows (topPlaces rows)
  links t ht := by
    obtain ⟨u, hu, ht⟩ := mem_subtreesAll.mp ht
    obtain ⟨j, _, rfl⟩ := List.mem_map.mp hu
    -- a subtree is the tree at some place, whose children are known
    rw [eq_treeAt_of_mem_subtrees j ht, value_treeAt, treeAt_eq]
    exact map_value_treeAt rows _

/-- A tree with the links of the nearest parents is the tree at its root's place. -/
theorem eq_treeAt_of_links {rows : List Row} (t : RoseTree (Fin rows.length))
    (h : ∀ u ∈ subtrees t, u.children.map value = childrenAt rows u.value) :
    t = treeAt rows t.value := by
  induction t using children_induction with
  | hnode v ts ih =>
    -- the link at the root says which children there are, the induction what is below each
    have hroot : ts.map value = childrenAt rows v := h (node v ts) (by rw [subtrees]; exact .head _)
    have hchild : ∀ t ∈ ts, treeAt rows t.value = t := fun t ht =>
      (ih t ht fun u hu => h u (by
        rw [subtrees]; exact .tail _ (mem_subtreesAll.mpr ⟨t, ht, hu⟩))).symm
    rw [value, treeAt_eq, ← hroot, List.map_map, Function.comp_def, List.map_congr_left hchild,
      List.map_id']

/-- No other forest has the links of the nearest parents: its roots are the same, and a tree with
the links is determined by its root. -/
theorem Linked.eq_forestAt {rows : List Row} {forest : List (RoseTree (Fin rows.length))}
    (h : Linked rows forest) : forest = forestAt rows := by
  have htree : ∀ t ∈ forest, treeAt rows t.value = t := fun t ht =>
    (eq_treeAt_of_links t fun u hu => h.links u (mem_subtreesAll.mpr ⟨t, ht, hu⟩)).symm
  rw [forestAt, ← h.tops, List.map_map, Function.comp_def, List.map_congr_left htree,
    List.map_id']

/-! ## The plan of a forest -/

/-- The step that a plan has above its trees, if it has one. -/
def wrapper (trees : List Tree) : List Step :=
  if trees.length = 1 then [] else [{ kind := .append }]

/-- The steps of a plan are those of its trees, behind the one that appends them. -/
theorem values_ofForest (trees : List Tree) :
    values (Tree.ofForest trees) = wrapper trees ++ valuesAll trees := by
  unfold Tree.ofForest wrapper
  -- a single tree is the plan, any other number of them is below a step
  split
  · next tree => rw [if_pos List.length_singleton, valuesAll_singleton, List.nil_append]
  · next hmany =>
    have hlength : trees.length ≠ 1 := fun h => by
      obtain ⟨tree, rfl⟩ := List.length_eq_one_iff.mp h
      exact hmany tree rfl
    rw [if_neg hlength, values_node, List.singleton_append]

/-- The walk of a plan goes through the steps of its tree, each before those below it. -/
theorem map_step_nodes (tree : Tree) : tree.nodes.map (·.step) = values tree := by
  rw [Tree.nodes, List.map_map, walk_eq_subtreesAll]
  exact valuesAll_singleton tree

/-- The plan of a forest that is not empty is its only tree, or has two or more below its root. -/
theorem ofForest_map_cases {α : Type} {forest : List (RoseTree α)} (h : forest ≠ [])
    (f : α → Step) :
    (∃ t, forest = [t] ∧ Tree.ofForest (forest.map (·.map f)) = t.map f) ∨
      2 ≤ forest.length ∧
        Tree.ofForest (forest.map (·.map f)) =
          .node { kind := .append } (forest.map (·.map f)) := by
  -- none, one, or several trees
  match forest with
  | [] => exact absurd rfl h
  | [t] => exact .inl ⟨t, rfl, rfl⟩
  | t :: u :: ts =>
    have hmany : 2 ≤ (t :: u :: ts).length := by simp
    exact .inr ⟨hmany, rfl⟩

/-- The first row of a list can only be at the top. -/
theorem forestAt_ne_nil {rows : List Row} (hne : rows ≠ []) (h : ParentsListed rows) :
    forestAt rows ≠ [] := by
  let first : Fin rows.length := ⟨0, List.length_pos_iff.mpr hne⟩
  have htop : rows[first].parent = 0 := by
    by_contra hbelow
    obtain ⟨j, hj, _⟩ := h first hbelow
    exact absurd hj (Nat.not_lt_zero j.val)
  have hmem : first ∈ topPlaces rows :=
    List.mem_filter.mpr ⟨List.mem_finRange first, decide_eq_true htop⟩
  exact List.ne_nil_of_mem (List.mem_map_of_mem hmem)

/-- The plan of a list of rows is the tree of the nearest parents: one forest of places has their
links, and the plan has the steps of the rows at these places. A single tree is the plan itself,
and two or more are under a step without a number and a description. -/
theorem ofRows_shape {rows : List Row} {tree : Tree} (h : Tree.ofRows rows = .ok tree) :
    ∃ forest : List (RoseTree (Fin rows.length)),
      Linked rows forest ∧ (∀ other, Linked rows other → other = forest) ∧
      ((∃ t, forest = [t] ∧ tree = t.map (stepAt rows)) ∨
        2 ≤ forest.length ∧
          tree = .node { kind := .append } (forest.map (·.map (stepAt rows)))) ∧
      tree.size = rows.length + if forest.length = 1 then 0 else 1 := by
  obtain ⟨hne, hlisted, htree⟩ := ofRows_eq_ok_iff.mp h
  have hlinked := linked_forestAt hlisted
  refine ⟨forestAt rows, hlinked, fun other ho => ho.eq_forestAt, ?_, ?_⟩
  · rw [htree]
    exact ofForest_map_cases (forestAt_ne_nil hne hlisted) (stepAt rows)
  · -- every row has one node, and the step above the trees is one more
    have hlength : (valuesAll (forestAt rows)).length = rows.length := by
      rw [hlinked.places.length_eq, List.length_finRange]
    rw [htree, ← length_values, values_ofForest, valuesAll_map, List.length_append,
      List.length_map, hlength, wrapper, List.length_map, Nat.add_comm]
    split <;> rfl

/-- A number is given twice, and its last row has a child after another tree has begun. -/
def repeatedRows : List Row :=
  [⟨2, 0, 0, "SCAN a"⟩, ⟨2, 2, 0, "SCAN b"⟩, ⟨5, 0, 0, "SCAN c"⟩, ⟨7, 2, 0, "SCAN d"⟩]

/-- The row in the last place is below the later of the two rows with its parent's number. -/
theorem ofRows_shape_repeatedRows :
    ∃ tree, Tree.ofRows repeatedRows = .ok tree ∧
      ∃ forest : List (RoseTree (Fin repeatedRows.length)),
        Linked repeatedRows forest ∧ (∀ other, Linked repeatedRows other → other = forest) ∧
        ((∃ t, forest = [t] ∧ tree = t.map (stepAt repeatedRows)) ∨
          2 ≤ forest.length ∧
            tree = .node { kind := .append } (forest.map (·.map (stepAt repeatedRows)))) ∧
        tree.size = repeatedRows.length + if forest.length = 1 then 0 else 1 := by
  have h := ofRows_eq_ok_iff.mpr ⟨(by decide : repeatedRows ≠ []), by decide, rfl⟩
  exact ⟨_, h, ofRows_shape h⟩

example : (childrenAt repeatedRows ⟨1, by decide⟩).map (·.val) = [3] := by decide

end ScanAudit.Plan
