import ScanAudit.Plan.Tree
import ScanAudit.Proofs.Plan.Traversal

/-!
# The walk of a plan

A walk can be left at any point, so it is described by what it has taken so far and by its stack:
the whole walk is the one followed by the walk of the other. Each step takes one node from the
stack, so a walk ends. What it takes is told in two ways that do not speak of a stack. One is a
recursion: a tree, and then what is taken of each of its children. The other goes by addresses, the
ways to the nodes from the root: in the order of their addresses the nodes are those of the walk.

* `Visits` — a walk that has come from one stack to another, with the trees that it took
* `Visits.walk_eq`, `Visits.sizeAll_eq` — what is left of a walk
* `visits_walk` — a walk comes to its end
* `walk_singleton_eq_cons` — the walk as a recursion
* `subtreeAt?`, `addresses` — the nodes of a tree by their addresses
* `mem_addresses`, `pairwise_addresses`, `map_subtreeAt?_addresses` — the listing by addresses
* `walk_traverses` — the walk of a plan
-/

namespace ScanAudit.Plan

namespace RoseTree

variable {α : Type}

/-! ## Walks on their way -/

/-- A walk gets from one stack to another and takes some trees, one after the other. -/
inductive Visits : List (RoseTree α) → List (RoseTree α) → List (RoseTree α) → Prop
  | here (stack : List (RoseTree α)) : Visits stack [] stack
  | next {t : RoseTree α} {stack rest visited final : List (RoseTree α)}
      (hnext : next? stack = some (t, rest)) (hvisits : Visits rest visited final) :
      Visits stack (t :: visited) final

section

variable {stack rest visited : List (RoseTree α)}

/-- The trees that a walk took come first in the whole walk; its stack has the others. -/
theorem Visits.walk_eq (h : Visits stack visited rest) : walk stack = visited ++ walk rest := by
  induction h with
  | here => rfl
  -- the tree that is taken is the next one of the whole walk
  | next hnext _ ih => rw [walk_of_next?_some hnext, ih, List.cons_append]

/-- A walk takes as many trees as it takes nodes from its stack. -/
theorem Visits.sizeAll_eq (h : Visits stack visited rest) :
    sizeAll stack = visited.length + sizeAll rest := by
  induction h with
  | here => rw [List.length_nil, Nat.zero_add]
  | next hnext _ ih =>
    rw [sizeAll_of_next? hnext, ih, List.length_cons]
    omega

end

/-- A walk comes to its end, with nothing left on its stack. -/
theorem visits_walk (stack : List (RoseTree α)) : Visits stack (walk stack) [] := by
  induction stack using walk.induct with
  | case1 stack hdone =>
    obtain rfl := next?_eq_none_iff.mp hdone
    rw [walk_nil]
    exact .here []
  | case2 stack t rest hnext ih =>
    rw [walk_of_next?_some hnext]
    exact .next hnext ih

theorem walk_singleton (t : RoseTree α) : walk [t] = subtrees t := by
  rw [walk_eq_subtreesAll, subtreesAll, subtreesAll, List.append_nil]

/-- A tree is taken first, and then what is taken of each of its children. -/
theorem walk_singleton_eq_cons (t : RoseTree α) :
    walk [t] = t :: t.children.flatMap fun child => walk [child] := by
  rw [walk_singleton, subtrees_eq_cons, subtreesAll_eq_flatMap]
  simp only [walk_singleton]

/-! ## Addresses -/

/-- The subtree at an address: the empty address is the root's, any other one begins with the place
of a child. -/
def subtreeAt? (t : RoseTree α) : List Nat → Option (RoseTree α)
  | [] => some t
  | i :: address => t.children[i]?.bind fun child => child.subtreeAt? address

mutual

/-- The addresses of a tree in the order of the recursive listing. -/
def addresses : RoseTree α → List (List Nat)
  | node _ ts => [] :: addressesFrom 0 ts

/-- The addresses of neighbouring children, the first of them at the given place. -/
def addressesFrom : Nat → List (RoseTree α) → List (List Nat)
  | _, [] => []
  | i, t :: ts => (addresses t).map (i :: ·) ++ addressesFrom (i + 1) ts

end

/-- The addresses of neighbouring children begin with the place of one of them, behind which comes
an address of that child. -/
theorem mem_addressesFrom {i : Nat} {ts : List (RoseTree α)} {address : List Nat} :
    address ∈ addressesFrom i ts ↔
      ∃ k child below,
        ts[k]? = some child ∧ below ∈ addresses child ∧ address = (i + k) :: below := by
  induction ts generalizing i with
  | nil => simp [addressesFrom]
  | cons t ts ih =>
    rw [addressesFrom, List.mem_append, List.mem_map, ih]
    constructor
    · rintro (⟨below, hbelow, rfl⟩ | ⟨k, child, below, hchild, hbelow, rfl⟩)
      · exact ⟨0, t, below, rfl, hbelow, rfl⟩
      · refine ⟨k + 1, child, below, hchild, hbelow, ?_⟩
        rw [Nat.add_right_comm, Nat.add_assoc]
    · rintro ⟨k, child, below, hchild, hbelow, rfl⟩
      -- the first child, or one of those behind it
      cases k with
      | zero =>
        obtain rfl : t = child := Option.some.inj hchild
        exact .inl ⟨below, hbelow, rfl⟩
      | succ k =>
        refine .inr ⟨k, child, below, hchild, hbelow, ?_⟩
        rw [Nat.add_right_comm, Nat.add_assoc]

theorem mem_addresses {t : RoseTree α} {address : List Nat} :
    address ∈ addresses t ↔ (t.subtreeAt? address).isSome := by
  induction t using children_induction generalizing address with
  | hnode v ts ih =>
    rw [addresses, List.mem_cons, mem_addressesFrom]
    cases address with
    | nil => simp [subtreeAt?]
    | cons i address =>
      rw [subtreeAt?, children]
      constructor
      · -- only the empty address is that of the root
        rintro (hroot | ⟨k, child, below, hchild, hbelow, heq⟩)
        · cases hroot
        · obtain ⟨rfl, rfl⟩ := List.cons.inj heq
          rw [Nat.zero_add, hchild, Option.bind_some]
          exact (ih child (List.mem_of_getElem? hchild)).mp hbelow
      · intro h
        -- the address begins with the place of a child, and leads on from it
        obtain ⟨child, hchild⟩ : ∃ child, ts[i]? = some child :=
          Option.isSome_iff_exists.mp (Option.isSome_of_isSome_bind h)
        rw [hchild, Option.bind_some] at h
        have hbelow := (ih child (List.mem_of_getElem? hchild)).mpr h
        exact .inr ⟨i, child, address, hchild, hbelow, by rw [Nat.zero_add]⟩

/-- The addresses of neighbouring children increase if those of each child do. -/
theorem pairwise_addressesFrom {ts : List (RoseTree α)}
    (h : ∀ t ∈ ts, (addresses t).Pairwise (· < ·)) (i : Nat) :
    (addressesFrom i ts).Pairwise (· < ·) := by
  induction ts generalizing i with
  | nil => exact .nil
  | cons t ts ih =>
    rw [addressesFrom]
    refine List.pairwise_append.mpr ⟨?_, ih (fun u hu => h u (List.mem_cons_of_mem t hu)) _, ?_⟩
    · refine List.pairwise_map.mpr ((h t List.mem_cons_self).imp fun hlt => ?_)
      exact List.cons_lt_cons_iff.mpr (.inr ⟨rfl, hlt⟩)
    · -- the addresses of later children begin with a later place
      intro address haddress later hlater
      obtain ⟨below, _, rfl⟩ := List.mem_map.mp haddress
      obtain ⟨k, _, below', _, _, rfl⟩ := mem_addressesFrom.mp hlater
      apply List.cons_lt_cons_iff.mpr
      left
      omega

/-- Addresses increase along the listing: a node comes before those below it, and a child with all
its nodes before the next one. -/
theorem pairwise_addresses (t : RoseTree α) : (addresses t).Pairwise (· < ·) := by
  induction t using children_induction with
  | hnode v ts ih =>
    rw [addresses]
    -- the empty address is less than all others
    refine List.pairwise_cons.mpr ⟨fun address haddress => ?_, pairwise_addressesFrom ih 0⟩
    obtain ⟨k, _, below, _, _, rfl⟩ := mem_addressesFrom.mp haddress
    exact List.nil_lt_cons (0 + k) below

example : addresses (node 'a' [node 'b' [node 'c' [], node 'c' []], node 'c' []]) =
    [[], [0], [0, 0], [0, 1], [1]] := by
  decide

/-- The last children of a node are found at their addresses, behind those that are done. -/
theorem map_subtreeAt?_addressesFrom (v : α) (done : List (RoseTree α)) {rest : List (RoseTree α)}
    (h : ∀ t ∈ rest, (addresses t).map t.subtreeAt? = (subtrees t).map some) :
    (addressesFrom done.length rest).map (node v (done ++ rest)).subtreeAt? =
      (subtreesAll rest).map some := by
  induction rest generalizing done with
  | nil => rfl
  | cons t rest ih =>
    have hchild : (done ++ t :: rest)[done.length]? = some t := by
      -- the next child stands behind those that are done
      rw [List.getElem?_append_right (Nat.le_refl _), Nat.sub_self, List.getElem?_cons_zero]
    have hbelow :
        (fun address => (node v (done ++ t :: rest)).subtreeAt? (done.length :: address)) =
          t.subtreeAt? := by
      funext address
      rw [subtreeAt?, children, hchild, Option.bind_some]
    have hrest := ih (done ++ [t]) fun u hu => h u (List.mem_cons_of_mem t hu)
    rw [List.length_append, List.length_singleton, List.append_assoc,
      List.singleton_append] at hrest
    rw [addressesFrom, List.map_append, List.map_map, Function.comp_def, hbelow,
      h t List.mem_cons_self, hrest, subtreesAll, List.map_append]

/-- The recursive listing has the subtrees at the addresses, in their order. -/
theorem map_subtreeAt?_addresses (t : RoseTree α) :
    (addresses t).map t.subtreeAt? = (subtrees t).map some := by
  induction t using children_induction with
  | hnode v ts ih =>
    have hbelow : (addressesFrom 0 ts).map (node v ts).subtreeAt? = (subtreesAll ts).map some :=
      map_subtreeAt?_addressesFrom v [] ih
    rw [addresses, subtrees, List.map_cons, List.map_cons, hbelow, subtreeAt?]

end RoseTree

open RoseTree

/-- The walk of a plan comes to an end after as many steps as the plan has nodes, and nothing is
next then; wherever it stops before, its stack has what it has not taken. It takes the root first,
and then each child with all below it, from the first to the last: every node of the plan once, in
the order of the addresses. -/
theorem walk_traverses (tree : Tree) :
    (Visits [tree] (walk [tree]) [] ∧ next? ([] : List Tree) = none ∧
      tree.nodes.length = tree.size) ∧
    (∀ visited stack, Visits [tree] visited stack →
      walk [tree] = visited ++ walk stack ∧ tree.size = visited.length + sizeAll stack) ∧
    walk [tree] = tree :: tree.children.flatMap (fun child => walk [child]) ∧
    ∃ addresses : List (List Nat),
      addresses.Pairwise (· < ·) ∧
      (∀ address, address ∈ addresses ↔ (tree.subtreeAt? address).isSome) ∧
      (walk [tree]).map some = addresses.map tree.subtreeAt? := by
  have hsize : sizeAll [tree] = tree.size := by rw [sizeAll, sizeAll, Nat.add_zero]
  refine ⟨⟨visits_walk [tree], rfl, ?_⟩, fun visited stack hvisits => ⟨hvisits.walk_eq, ?_⟩,
    walk_singleton_eq_cons tree, ?_⟩
  · rw [Tree.nodes, List.length_map, ← hsize, (visits_walk [tree]).sizeAll_eq, sizeAll,
      Nat.add_zero]
  · rw [← hsize, hvisits.sizeAll_eq]
  · refine ⟨addresses tree, pairwise_addresses tree, fun address => mem_addresses, ?_⟩
    rw [walk_singleton, map_subtreeAt?_addresses]

def scanOfLog : Tree :=
  .node { kind := .seqScan, relation := some "log" } []

def selfJoin : Tree :=
  .node { kind := .nestedLoop } [scanOfLog, scanOfLog]

/-- The same scan stands at three addresses. -/
def repeatedScans : Tree :=
  .node { kind := .append } [selfJoin, scanOfLog]

/-- The walk is left when it has taken the root and the join. -/
theorem walk_traverses_repeatedScans :
    Visits [repeatedScans] [repeatedScans, selfJoin] [scanOfLog, scanOfLog, scanOfLog] ∧
      walk [repeatedScans] =
        [repeatedScans, selfJoin] ++ walk [scanOfLog, scanOfLog, scanOfLog] ∧
      repeatedScans.size = 2 + sizeAll [scanOfLog, scanOfLog, scanOfLog] := by
  have hvisits : Visits [repeatedScans] [repeatedScans, selfJoin]
      [scanOfLog, scanOfLog, scanOfLog] := .next rfl (.next rfl (.here _))
  obtain ⟨_, hstops, _⟩ := walk_traverses repeatedScans
  exact ⟨hvisits, hstops _ _ hvisits⟩

end ScanAudit.Plan
