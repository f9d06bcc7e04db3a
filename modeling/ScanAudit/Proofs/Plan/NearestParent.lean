import Mathlib.Data.List.Basic
import Mathlib.Data.Nat.Init
import ScanAudit.Plan.Tree
import ScanAudit.Proofs.Plan.Traversal

/-!
# The tree of the nearest parents

A row's parent is the nearest row before it with the number that the row gives. That relation
between the places of a list says what the tree of the list is, without a word about how the tree
is built: `treeAt` puts below each place the places that it is the nearest parent of.

* `NearestParent` — one place is the parent of another
* `treeAt` — the tree of places below one place
* `WaitsFrom` — what a place waits for while the rows from some place on are put together
* `waiting_drop` — the subtrees that wait then are the trees at the places that wait
* `ofRows_eq_ok_iff` — the lists of rows that are trees, and their trees
-/

namespace ScanAudit.Plan

open Explain RoseTree

/-- Row `j` is the nearest row before row `i` with the number that row `i` gives as its parent. -/
structure NearestParent (rows : List Row) (j i : Fin rows.length) : Prop where
  below : rows[i].parent ≠ 0
  before : j < i
  number : rows[j].id = rows[i].parent
  nearest : ∀ l, j < l → l < i → rows[l].id ≠ rows[i].parent

theorem nearestParent_iff {rows : List Row} {j i : Fin rows.length} :
    NearestParent rows j i ↔
      rows[i].parent ≠ 0 ∧ j < i ∧ rows[j].id = rows[i].parent ∧
        ∀ l, j < l → l < i → rows[l].id ≠ rows[i].parent :=
  ⟨fun h => ⟨h.below, h.before, h.number, h.nearest⟩, fun ⟨h₁, h₂, h₃, h₄⟩ => ⟨h₁, h₂, h₃, h₄⟩⟩

instance (rows : List Row) (j i : Fin rows.length) : Decidable (NearestParent rows j i) :=
  decidable_of_iff' _ nearestParent_iff

/-- The places that one place is the nearest parent of, in the order of the list. -/
def childrenAt (rows : List Row) (j : Fin rows.length) : List (Fin rows.length) :=
  (List.finRange rows.length).filter (NearestParent rows j ·)

theorem mem_childrenAt {rows : List Row} {i j : Fin rows.length} :
    i ∈ childrenAt rows j ↔ NearestParent rows j i := by
  simp [childrenAt]

/-- The tree of the places at and below one place. A parent comes before its children, so the
places that are left are fewer and fewer. -/
def treeAt (rows : List Row) (j : Fin rows.length) : RoseTree (Fin rows.length) :=
  .node j ((childrenAt rows j).attach.map fun i => treeAt rows i.1)
termination_by rows.length - j
decreasing_by
  have hlt : j < i.1 := (mem_childrenAt.mp i.2).before
  omega

/-- The equation of `treeAt`, without the proofs that make its recursion end. -/
theorem treeAt_eq (rows : List Row) (j : Fin rows.length) :
    treeAt rows j = .node j ((childrenAt rows j).map (treeAt rows)) := by
  rw [treeAt, List.attach_map_val (f := treeAt rows)]

/-- The step of the row at a place. -/
def stepAt (rows : List Row) (i : Fin rows.length) : Step :=
  stepOfRow rows[i]

/-! ## The places that wait

Rows are put together from the last to the first. When the rows from place `k` on are together, a
place waits if it is at the top or if none of the rows from `k` on and before it has the number of
its parent. The row that comes next in front takes some of those that wait, and waits itself. -/

/-- Place `i` waits once the rows from place `k` on are together. -/
def WaitsFrom (rows : List Row) (k : Nat) (i : Fin rows.length) : Prop :=
  k ≤ i ∧ (rows[i].parent = 0 ∨
    ∀ l : Fin rows.length, k ≤ l → l < i → rows[l].id ≠ rows[i].parent)

instance (rows : List Row) (k : Nat) (i : Fin rows.length) : Decidable (WaitsFrom rows k i) :=
  inferInstanceAs (Decidable (_ ∧ _))

/-- A row is the nearest parent of the places that wait for its number just before it comes. -/
theorem nearestParent_iff_waitsFrom {rows : List Row} {j i : Fin rows.length} :
    NearestParent rows j i ↔
      WaitsFrom rows (j + 1) i ∧ rows[i].parent ≠ 0 ∧ rows[i].parent = rows[j].id := by
  constructor
  · intro h
    exact ⟨⟨h.before, .inr fun l hl => h.nearest l hl⟩, h.below, h.number.symm⟩
  · rintro ⟨⟨hji, hfree⟩, hbelow, hnumber⟩
    -- a row with a parent does not wait for being at the top
    rcases hfree with htop | hfree
    · exact absurd htop hbelow
    · exact ⟨hbelow, hji, hnumber.symm, fun l hl => hfree l hl⟩

/-- Once a row has come, it waits, and so do the places that waited and did not get it as their
parent. -/
theorem waitsFrom_iff {rows : List Row} {j i : Fin rows.length} :
    WaitsFrom rows j i ↔
      i = j ∨ WaitsFrom rows (j + 1) i ∧ ¬(rows[i].parent ≠ 0 ∧ rows[i].parent = rows[j].id) := by
  constructor
  · rintro ⟨hji, hfree⟩
    -- the row that has just come, or one that was there before and has not been taken
    rcases Nat.eq_or_lt_of_le hji with heq | hlt
    · exact .inl (Fin.ext heq.symm)
    · refine .inr ⟨⟨hlt, hfree.imp_right fun h l hl => h l (by omega)⟩, ?_⟩
      rintro ⟨hbelow, hnumber⟩
      rcases hfree with htop | hfree
      · exact hbelow htop
      · exact hfree j (Nat.le_refl _) hlt hnumber.symm
  · rintro (rfl | ⟨⟨hji, hfree⟩, hother⟩)
    · exact ⟨Nat.le_refl _, .inr fun l hjl hlj => absurd hlj (by omega)⟩
    · refine ⟨by omega, ?_⟩
      by_cases htop : rows[i].parent = 0
      · exact .inl htop
      · refine .inr fun l hjl hli => ?_
        -- the row at `j` itself, or one of those that were there before
        rcases Nat.eq_or_lt_of_le hjl with heq | hlt
        · obtain rfl := Fin.ext heq
          exact fun hnumber => hother ⟨htop, hnumber.symm⟩
        · exact hfree.resolve_left htop l hlt hli

/-- In a list that increases, one member and all later ones with a property are a list that begins
with that member. -/
theorem filter_eq_cons_of_pairwise {n : Nat} {l : List (Fin n)} {p q : Fin n → Bool} {j : Fin n}
    (hl : l.Pairwise (· < ·)) (hj : j ∈ l) (hp : ∀ i, p i = true ↔ i = j ∨ q i = true)
    (hq : ∀ i, q i = true → j < i) : l.filter p = j :: l.filter q := by
  -- up to `j` the list has members with neither property, and behind `j` the two are one
  induction l with
  | nil => exact absurd hj List.not_mem_nil
  | cons a l ih =>
    obtain ⟨ha, hl⟩ := List.pairwise_cons.mp hl
    have hqj : q j = false := by
      by_contra h
      exact absurd (hq j (by simpa using h)) (by omega)
    rcases List.mem_cons.mp hj with rfl | hj
    · -- `j` is the first member, so that behind it the two properties are the same
      have hrest : l.filter p = l.filter q := by
        refine List.filter_congr fun i hi => ?_
        have hne : i ≠ j := fun h => absurd (h ▸ ha i hi) (by omega)
        rw [Bool.eq_iff_iff, hp, or_iff_right hne]
      rw [List.filter_cons_of_pos ((hp j).mpr (.inl rfl)), List.filter_cons_of_neg (by simp [hqj]),
        hrest]
    · -- a member before `j` has neither property
      have haj : a < j := ha j hj
      have hqa : ¬q a = true := fun h => absurd (hq a h) (by omega)
      have hpa : ¬p a = true := fun h => ((hp a).mp h).elim (by omega) hqa
      rw [List.filter_cons_of_neg hpa, List.filter_cons_of_neg hqa, ih hl hj]

/-- The places that wait, in the order of the list. -/
def waitingPlaces (rows : List Row) (k : Nat) : List (Fin rows.length) :=
  (List.finRange rows.length).filter (WaitsFrom rows k ·)

/-- Whether row `i`, if it still waits, is taken by row `j`. -/
def takes (rows : List Row) (j i : Fin rows.length) : Bool :=
  rows[i].parent ≠ 0 ∧ rows[i].parent = rows[j].id

/-- What the next row takes of the places that wait are its children. -/
theorem filter_takes_waitingPlaces (rows : List Row) (j : Fin rows.length) :
    (waitingPlaces rows (j + 1)).filter (takes rows j) = childrenAt rows j := by
  rw [waitingPlaces, List.filter_filter, childrenAt]
  refine List.filter_congr fun i _ => ?_
  rw [Bool.eq_iff_iff, Bool.and_eq_true, takes, decide_eq_true_iff, decide_eq_true_iff,
    decide_eq_true_iff, nearestParent_iff_waitsFrom, and_comm]

/-- The next row waits in front of those that it leaves. -/
theorem waitingPlaces_eq_cons (rows : List Row) (j : Fin rows.length) :
    waitingPlaces rows j = j :: (waitingPlaces rows (j + 1)).filter (!takes rows j ·) := by
  rw [waitingPlaces, waitingPlaces, List.filter_filter]
  refine filter_eq_cons_of_pairwise (List.pairwise_lt_finRange _) (List.mem_finRange j) ?_ ?_
  · intro i
    rw [Bool.and_eq_true, takes, Bool.not_eq_true', decide_eq_false_iff_not, decide_eq_true_iff,
      decide_eq_true_iff, waitsFrom_iff, and_comm]
  · intro i hi
    rw [Bool.and_eq_true, decide_eq_true_iff] at hi
    exact hi.2.1

/-- Before the last row has come, nothing waits. -/
theorem waitingPlaces_length (rows : List Row) : waitingPlaces rows rows.length = [] := by
  refine List.filter_eq_nil_iff.mpr fun i _ hi => ?_
  have hle : rows.length ≤ i := (decide_eq_true_iff.mp hi).1
  omega

/-! ## The subtrees that wait

The invariant of the construction: what waits once the rows from place `k` on are together is, in
the order of the list, the tree at each place that waits. -/

/-- The tree at a place, ready to be taken by an earlier row. -/
def waitingAt (rows : List Row) (i : Fin rows.length) : Waiting :=
  ⟨rows[i], (treeAt rows i).map (stepAt rows)⟩

/-- A tree that waits belongs to a row if the row takes the place of its root. -/
theorem belongsTo_waitingAt (rows : List Row) (j : Fin rows.length) :
    (·.belongsTo rows[j]) ∘ waitingAt rows = takes rows j := by
  funext i
  rw [Bool.eq_iff_iff]
  simp [waitingAt, Waiting.belongsTo, Waiting.isTop, takes]

/-- The tree at a place, with its steps: below the row are the trees that wait at its children. -/
theorem map_treeAt (rows : List Row) (j : Fin rows.length) :
    (treeAt rows j).map (stepAt rows) =
      .node (stepOfRow rows[j]) ((childrenAt rows j).map fun i => (waitingAt rows i).tree) := by
  rw [treeAt_eq, map_node, List.map_map]
  rfl

/-- One row more: it takes the places that it is the nearest parent of. -/
theorem adopt_waitingAt (rows : List Row) (j : Fin rows.length) :
    adopt rows[j] ((waitingPlaces rows (j + 1)).map (waitingAt rows)) =
      (waitingPlaces rows j).map (waitingAt rows) := by
  have hleft : (!·.belongsTo rows[j]) ∘ waitingAt rows = (!takes rows j ·) := by
    rw [← belongsTo_waitingAt]; rfl
  rw [adopt, List.filter_map, List.filter_map, belongsTo_waitingAt, filter_takes_waitingPlaces,
    hleft, waitingPlaces_eq_cons, List.map_cons, List.map_map, waitingAt, map_treeAt]
  rfl

/-- What waits once the rows from place `k` on are together. The induction goes from the end of
the list to its beginning, as the construction does. -/
theorem waiting_drop (rows : List Row) {k : Nat} (hk : k ≤ rows.length) :
    waiting (rows.drop k) = (waitingPlaces rows k).map (waitingAt rows) := by
  induction hk using Nat.decreasingInduction with
  | self =>
    -- no row has come
    rw [List.drop_length, waitingPlaces_length]
    rfl
  | of_succ k hlt ih =>
    -- the row at `k` is the next one in front
    rw [List.drop_eq_getElem_cons hlt, waiting, List.foldr_cons, ← waiting, ih]
    exact adopt_waitingAt rows ⟨k, hlt⟩

theorem waiting_eq (rows : List Row) :
    waiting rows = (waitingPlaces rows 0).map (waitingAt rows) := by
  have h := waiting_drop rows (Nat.zero_le _)
  rwa [List.drop_zero] at h

/-! ## Lists of rows that are trees

A list of rows is a tree if there is an earlier row for every parent that is given. What waits at
the end are then the rows at the top. -/

/-- Every row that is not at the top comes after a row with the number of its parent. -/
def ParentsListed (rows : List Row) : Prop :=
  ∀ i : Fin rows.length, rows[i].parent ≠ 0 → ∃ j < i, rows[j].id = rows[i].parent

instance (rows : List Row) : Decidable (ParentsListed rows) :=
  inferInstanceAs (Decidable (∀ _ : Fin rows.length, _))

/-- The places of the rows at the top, in the order of the list. -/
def topPlaces (rows : List Row) : List (Fin rows.length) :=
  (List.finRange rows.length).filter fun i => rows[i].parent = 0

/-- The trees of places of a list of rows. -/
def forestAt (rows : List Row) : List (RoseTree (Fin rows.length)) :=
  (topPlaces rows).map (treeAt rows)

/-- A place waits to the end if no row before it has the number of its parent. -/
theorem waitsFrom_zero_iff {rows : List Row} {i : Fin rows.length} :
    WaitsFrom rows 0 i ↔ rows[i].parent ≠ 0 → ∀ j < i, rows[j].id ≠ rows[i].parent := by
  rw [WaitsFrom, and_iff_right (Nat.zero_le _), or_iff_not_imp_left]
  exact ⟨fun h hi j => h hi j (Nat.zero_le _), fun h hi j _ => h hi j⟩

/-- All that waits at the end is at the top if and only if the parents are listed. -/
theorem parentsListed_iff {rows : List Row} :
    ParentsListed rows ↔ ∀ i, WaitsFrom rows 0 i → rows[i].parent = 0 := by
  constructor
  · intro h i hi
    by_contra htop
    obtain ⟨j, hji, hnumber⟩ := h i htop
    exact waitsFrom_zero_iff.mp hi htop j hji hnumber
  · intro h i htop
    by_contra hnone
    refine htop (h i (waitsFrom_zero_iff.mpr fun _ j hji hnumber => ?_))
    exact hnone ⟨j, hji, hnumber⟩

/-- Where the parents are listed, what waits at the end are the rows at the top. -/
theorem waitingPlaces_zero {rows : List Row} (h : ParentsListed rows) :
    waitingPlaces rows 0 = topPlaces rows := by
  refine List.filter_congr fun i _ => ?_
  rw [Bool.eq_iff_iff, decide_eq_true_iff, decide_eq_true_iff]
  exact ⟨parentsListed_iff.mp h i, fun htop => waitsFrom_zero_iff.mpr fun hi => absurd htop hi⟩

/-- The search for one that waits below the top finds none if the parents are listed. -/
theorem find?_orphan_eq_none_iff (rows : List Row) :
    (waiting rows).reverse.find? (!·.isTop) = none ↔ ParentsListed rows := by
  rw [List.find?_eq_none, waiting_eq, parentsListed_iff]
  simp [waitingPlaces, waitingAt, Waiting.isTop]

/-- A list of rows is a tree if it is not empty and the parents are listed, and its tree is that of
the nearest parents. -/
theorem ofRows_eq_ok_iff {rows : List Row} {tree : Tree} :
    Tree.ofRows rows = .ok tree ↔ rows ≠ [] ∧ ParentsListed rows ∧
      tree = Tree.ofForest ((forestAt rows).map (·.map (stepAt rows))) := by
  unfold Tree.ofRows
  split
  · next hempty => simp [List.isEmpty_iff.mp hempty]
  · next hempty =>
    rw [List.isEmpty_iff] at hempty
    -- one that waits below the top makes the list an error, and there is one unless all parents
    -- are listed
    split
    · next orphan hfind =>
      have hnot : ¬ParentsListed rows := by
        rw [← find?_orphan_eq_none_iff, hfind]; exact nofun
      simp [hnot]
    · next hfind =>
      have hlisted := (find?_orphan_eq_none_iff rows).mp hfind
      have htrees : (waiting rows).map (·.tree) = (forestAt rows).map (·.map (stepAt rows)) := by
        rw [waiting_eq, waitingPlaces_zero hlisted, forestAt, List.map_map, List.map_map]
        rfl
      rw [htrees, Except.ok.injEq, eq_comm]
      simp [hempty, hlisted]

end ScanAudit.Plan
