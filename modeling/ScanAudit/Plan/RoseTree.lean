/-!
# Ordered trees

A node carries a value and any number of subtrees, in order.

* `size` — the number of nodes
* `subtrees` — the subtrees at all nodes, each before those below it, children in order
* `next?`, `walk` — the same listing, taken one node at a time from a stack of trees to come
-/

namespace ScanAudit.Plan

inductive RoseTree (α : Type) where
  | node (value : α) (children : List (RoseTree α))

namespace RoseTree

variable {α : Type}

def value : RoseTree α → α
  | node v _ => v

def children : RoseTree α → List (RoseTree α)
  | node _ ts => ts

/-- The tree with one more subtree, after those that are there. -/
def addChild (t child : RoseTree α) : RoseTree α :=
  node t.value (t.children ++ [child])

mutual

def size : RoseTree α → Nat
  | node _ ts => 1 + sizeAll ts

def sizeAll : List (RoseTree α) → Nat
  | [] => 0
  | t :: ts => size t + sizeAll ts

end

mutual

def subtrees : RoseTree α → List (RoseTree α)
  | node v ts => node v ts :: subtreesAll ts

def subtreesAll : List (RoseTree α) → List (RoseTree α)
  | [] => []
  | t :: ts => subtrees t ++ subtreesAll ts

end

theorem sizeAll_append (ts us : List (RoseTree α)) :
    sizeAll (ts ++ us) = sizeAll ts + sizeAll us := by
  induction ts with
  | nil => simp [sizeAll]
  | cons t ts ih => simp [sizeAll, ih]; omega

theorem size_eq (t : RoseTree α) : size t = 1 + sizeAll t.children := by
  cases t; simp [size, children]

/-- The next tree of a walk, and the stack of the trees that are then to come, from its top: the top
tree leaves the stack, and its children are put on it from the last to the first. -/
def next? : List (RoseTree α) → Option (RoseTree α × List (RoseTree α))
  | [] => none
  | t :: stack => some (t, t.children.reverse.foldl (fun stack child => child :: stack) stack)

/-- The children end up on the stack in their order, since the last of them is put there first. -/
theorem next?_cons (t : RoseTree α) (stack : List (RoseTree α)) :
    next? (t :: stack) = some (t, t.children ++ stack) := by
  rw [next?, List.foldl_flip_cons_eq_append, List.map_id', List.reverse_reverse]

theorem next?_eq_none_iff {stack : List (RoseTree α)} : next? stack = none ↔ stack = [] := by
  cases stack <;> simp [next?]

/-- All that a step of a walk does. -/
theorem next?_eq_some_iff {t : RoseTree α} {stack rest : List (RoseTree α)} :
    next? stack = some (t, rest) ↔ ∃ later, stack = t :: later ∧ rest = t.children ++ later := by
  cases stack with
  | nil => simp [next?]
  | cons u later =>
    rw [next?_cons]
    simp only [Option.some.injEq, Prod.mk.injEq, List.cons.injEq]
    constructor
    · rintro ⟨rfl, rfl⟩
      exact ⟨later, ⟨rfl, rfl⟩, rfl⟩
    · rintro ⟨_, ⟨rfl, rfl⟩, rfl⟩
      exact ⟨rfl, rfl⟩

/-- Every step of a walk takes one node away. -/
theorem sizeAll_of_next? {t : RoseTree α} {stack rest : List (RoseTree α)}
    (h : next? stack = some (t, rest)) : sizeAll stack = 1 + sizeAll rest := by
  obtain ⟨later, rfl, rfl⟩ := next?_eq_some_iff.mp h
  rw [sizeAll, sizeAll_append, size_eq]
  omega

/-- The trees that a walk takes until nothing is next. The number of nodes on the stack bounds the
walk. -/
def walk (stack : List (RoseTree α)) : List (RoseTree α) :=
  match _ : next? stack with
  | none => []
  | some (t, rest) => t :: walk rest
termination_by sizeAll stack
decreasing_by
  rw [sizeAll_of_next? ‹next? stack = some (t, rest)›]
  omega

theorem walk_of_next?_none {stack : List (RoseTree α)} (h : next? stack = none) :
    walk stack = [] := by
  rw [walk]
  split
  · rfl
  · next hnext => rw [h] at hnext; cases hnext

theorem walk_of_next?_some {t : RoseTree α} {stack rest : List (RoseTree α)}
    (h : next? stack = some (t, rest)) : walk stack = t :: walk rest := by
  rw [walk]
  split
  · next hnext => rw [h] at hnext; cases hnext
  · next hnext => rw [h] at hnext; cases hnext; rfl

theorem walk_nil : walk ([] : List (RoseTree α)) = [] :=
  walk_of_next?_none rfl

/-- A tree is taken before its children, and these before the rest of the stack. -/
theorem walk_cons (t : RoseTree α) (stack : List (RoseTree α)) :
    walk (t :: stack) = t :: walk (t.children ++ stack) :=
  walk_of_next?_some (next?_cons t stack)

end RoseTree

end ScanAudit.Plan
