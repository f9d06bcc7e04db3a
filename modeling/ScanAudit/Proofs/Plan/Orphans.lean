import ScanAudit.Proofs.Plan.NearestParent

/-!
# Rows without a parent

A row is an orphan if it gives a parent and no row before it has that number. Orphans are what a
list of rows fails for. Rows are put together from the last to the first, yet an orphan does not
stop this: it waits until the end, together with the rows at the top. So the orphan that is reported
is the last one of the list, whatever the rows around it are.

* `Orphan`, `LastOrphan` — the rows without a parent, and the last of them
* `orphan_iff_waitsFrom` — the orphans are what waits at the end and is not at the top
* `find?_orphan_eq_some_iff` — the one that is reported
* `ofRows_outcome` — when a list of rows fails, with which error, and when it does not
-/

namespace ScanAudit.Plan

open Explain

/-- The row at a place gives a parent, and no row before it has that number. -/
structure Orphan (rows : List Row) (i : Fin rows.length) : Prop where
  below : (rows.get i).parent ≠ 0
  unknown : ∀ j < i, (rows.get j).id ≠ (rows.get i).parent

theorem orphan_iff {rows : List Row} {i : Fin rows.length} :
    Orphan rows i ↔ (rows.get i).parent ≠ 0 ∧ ∀ j < i, (rows.get j).id ≠ (rows.get i).parent :=
  ⟨fun h => ⟨h.below, h.unknown⟩, fun ⟨hbelow, hunknown⟩ => ⟨hbelow, hunknown⟩⟩

instance (rows : List Row) (i : Fin rows.length) : Decidable (Orphan rows i) :=
  decidable_of_iff' _ orphan_iff

/-- An orphan with no other one behind it. -/
structure LastOrphan (rows : List Row) (i : Fin rows.length) : Prop where
  orphan : Orphan rows i
  last : ∀ j, Orphan rows j → j ≤ i

theorem lastOrphan_iff {rows : List Row} {i : Fin rows.length} :
    LastOrphan rows i ↔ Orphan rows i ∧ ∀ j, Orphan rows j → j ≤ i :=
  ⟨fun h => ⟨h.orphan, h.last⟩, fun ⟨horphan, hlast⟩ => ⟨horphan, hlast⟩⟩

instance (rows : List Row) (i : Fin rows.length) : Decidable (LastOrphan rows i) :=
  decidable_of_iff' _ lastOrphan_iff

/-- No row is an orphan if and only if every parent is listed before its children. -/
theorem parentsListed_iff_forall_not_orphan {rows : List Row} :
    ParentsListed rows ↔ ∀ i, ¬Orphan rows i := by
  constructor
  · intro h i horphan
    obtain ⟨j, hji, hnumber⟩ := h i horphan.below
    exact horphan.unknown j hji hnumber
  · intro h i hbelow
    by_contra hnone
    refine h i ⟨hbelow, fun j hji hnumber => hnone ⟨j, hji, hnumber⟩⟩

/-! ## The orphan that is reported

What waits at the end stands in the order of the list, so the search from the back comes to the last
orphan first. -/

/-- An orphan is a row that waits to the end and is not at the top. -/
theorem orphan_iff_waitsFrom {rows : List Row} {i : Fin rows.length} :
    Orphan rows i ↔ WaitsFrom rows 0 i ∧ (rows.get i).parent ≠ 0 := by
  rw [orphan_iff, waitsFrom_zero_iff, and_comm]
  exact and_congr_left fun hbelow => ⟨fun h _ => h, fun h => h hbelow⟩

/-- In a list that increases, what the search from the back finds is the largest member with the
property. -/
theorem last_of_find?_reverse {n : Nat} {l : List (Fin n)} {p : Fin n → Bool} {i : Fin n}
    (hl : l.Pairwise (· < ·)) (h : l.reverse.find? p = some i) {j : Fin n} (hj : j ∈ l)
    (hp : p j = true) : j ≤ i := by
  obtain ⟨-, behind, before, hsplit, hbehind⟩ := List.find?_eq_some_iff_append.mp h
  have hdecreasing : (behind ++ i :: before).Pairwise (· > ·) := by
    rw [← hsplit, List.pairwise_reverse]
    exact hl
  have hmem : j ∈ behind ++ i :: before := hsplit ▸ List.mem_reverse.mpr hj
  -- a member with the property is not behind `i`, so it is `i` or one before it
  rcases List.mem_append.mp hmem with hmem | hmem
  · -- what lies behind what was found does not have the property
    have hnot := hbehind j hmem
    rw [hp] at hnot
    exact absurd hnot (by decide)
  · rcases List.mem_cons.mp hmem with rfl | hmem
    · exact Nat.le_refl _
    · have hrest := (List.pairwise_append.mp hdecreasing).2.1
      exact Nat.le_of_lt ((List.pairwise_cons.mp hrest).1 j hmem)

/-- In a list that increases, the search from the back finds the largest member with the property,
and nothing else. -/
theorem find?_reverse_eq_some_iff {n : Nat} {l : List (Fin n)} {p : Fin n → Bool} {i : Fin n}
    (hl : l.Pairwise (· < ·)) :
    l.reverse.find? p = some i ↔ (i ∈ l ∧ p i = true) ∧ ∀ j, j ∈ l ∧ p j = true → j ≤ i := by
  constructor
  · intro hfind
    have hmem : i ∈ l := List.mem_reverse.mp (List.mem_of_find?_eq_some hfind)
    exact ⟨⟨hmem, List.find?_some hfind⟩, fun j hj => last_of_find?_reverse hl hfind hj.1 hj.2⟩
  · rintro ⟨⟨hi, hp⟩, hlast⟩
    -- some member is found, and it is at least and at most `i`
    cases hfind : l.reverse.find? p with
    | none => exact absurd hp (List.find?_eq_none.mp hfind i (List.mem_reverse.mpr hi))
    | some j =>
      have hj : j ∈ l := List.mem_reverse.mp (List.mem_of_find?_eq_some hfind)
      have hji := hlast j ⟨hj, List.find?_some hfind⟩
      rw [Fin.le_antisymm hji (last_of_find?_reverse hl hfind hi hp)]

/-- The search among what waits at the end finds the last orphan, and nothing else. -/
theorem find?_orphan_eq_some_iff {rows : List Row} {w : Waiting} :
    (waiting rows).reverse.find? (!·.isTop) = some w ↔
      ∃ i, LastOrphan rows i ∧ waitingAt rows i = w := by
  have hplaces : (waitingPlaces rows 0).Pairwise (· < ·) :=
    (List.pairwise_lt_finRange rows.length).filter _
  have hfound (i : Fin rows.length) :
      i ∈ waitingPlaces rows 0 ∧ ((!·.isTop) ∘ waitingAt rows) i = true ↔ Orphan rows i := by
    rw [orphan_iff_waitsFrom]
    simp [waitingPlaces, waitingAt, Waiting.isTop]
  rw [waiting_eq, ← List.map_reverse, List.find?_map, Option.map_eq_some_iff]
  refine exists_congr fun i => and_congr_left fun _ => ?_
  rw [find?_reverse_eq_some_iff hplaces, lastOrphan_iff]
  simp only [hfound]

/-! ## The errors -/

/-- Only the empty list fails for having no rows. -/
theorem ofRows_eq_noRows_iff {rows : List Row} :
    Tree.ofRows rows = .error .noRows ↔ rows = [] := by
  unfold Tree.ofRows
  split
  · next hempty => simp [List.isEmpty_iff.mp hempty]
  · next hempty =>
    rw [List.isEmpty_iff] at hempty
    split <;> simp [hempty]

/-- The other error has the numbers of the last orphan, and of the parent that it gives. -/
theorem ofRows_eq_unknownParent_iff {rows : List Row} {id parent : Int64} :
    Tree.ofRows rows = .error (.unknownParent id parent) ↔
      ∃ i, LastOrphan rows i ∧ (rows.get i).id = id ∧ (rows.get i).parent = parent := by
  constructor
  · intro h
    unfold Tree.ofRows at h
    split at h
    · cases h
    · split at h
      · next w hfind =>
        obtain ⟨i, hlast, rfl⟩ := find?_orphan_eq_some_iff.mp hfind
        cases h
        exact ⟨i, hlast, rfl, rfl⟩
      · cases h
  · rintro ⟨i, hlast, rfl, rfl⟩
    have hne : rows.isEmpty = false := by
      rw [List.isEmpty_eq_false_iff_exists_mem]
      exact ⟨rows.get i, List.get_mem rows i⟩
    have hfind := find?_orphan_eq_some_iff.mpr ⟨i, hlast, rfl⟩
    rw [Tree.ofRows, hne, hfind]
    rfl

/-- Of several orphans one is the last. -/
theorem exists_lastOrphan_iff {rows : List Row} :
    (∃ i, LastOrphan rows i) ↔ ∃ i, Orphan rows i := by
  constructor
  · rintro ⟨i, hlast⟩
    exact ⟨i, hlast.orphan⟩
  · rintro ⟨i, horphan⟩
    have hnot : ¬ParentsListed rows :=
      fun h => parentsListed_iff_forall_not_orphan.mp h i horphan
    rw [← find?_orphan_eq_none_iff] at hnot
    obtain ⟨w, hfind⟩ := Option.ne_none_iff_exists'.mp hnot
    obtain ⟨i, hlast, -⟩ := find?_orphan_eq_some_iff.mp hfind
    exact ⟨i, hlast⟩

/-- A list of rows fails for having no rows, or for an orphan: the error then has the numbers of the
last one, and of the parent that it gives. Every other list of rows is a tree. -/
theorem ofRows_outcome (rows : List Row) :
    (Tree.ofRows rows = .error .noRows ↔ rows = []) ∧
      ((∃ id parent, Tree.ofRows rows = .error (.unknownParent id parent)) ↔
        ∃ i, Orphan rows i) ∧
      (∀ id parent, Tree.ofRows rows = .error (.unknownParent id parent) ↔
        ∃ i, LastOrphan rows i ∧ (rows.get i).id = id ∧ (rows.get i).parent = parent) ∧
      ((∃ tree, Tree.ofRows rows = .ok tree) ↔ rows ≠ [] ∧ ∀ i, ¬Orphan rows i) := by
  refine ⟨ofRows_eq_noRows_iff, ?_, fun id parent => ofRows_eq_unknownParent_iff, ?_⟩
  · -- there is an orphan if there is a last one, which is the one that is reported
    rw [← exists_lastOrphan_iff]
    constructor
    · rintro ⟨id, parent, h⟩
      obtain ⟨i, hlast, -⟩ := ofRows_eq_unknownParent_iff.mp h
      exact ⟨i, hlast⟩
    · rintro ⟨i, hlast⟩
      exact ⟨_, _, ofRows_eq_unknownParent_iff.mpr ⟨i, hlast, rfl, rfl⟩⟩
  · rw [← parentsListed_iff_forall_not_orphan]
    constructor
    · rintro ⟨tree, h⟩
      obtain ⟨hne, hlisted, -⟩ := ofRows_eq_ok_iff.mp h
      exact ⟨hne, hlisted⟩
    · rintro ⟨hne, hlisted⟩
      exact ⟨_, ofRows_eq_ok_iff.mpr ⟨hne, hlisted, rfl⟩⟩

/-- A row that gives its own number, one that gives a later one, and between them a row whose parent
comes before it. -/
example : (List.finRange 4).filter (LastOrphan
    [⟨3, 3, 0, "SCAN a"⟩, ⟨5, 3, 0, "SCAN b"⟩, ⟨6, 7, 0, "SCAN c"⟩, ⟨7, 0, 0, "SCAN d"⟩] ·) =
      [2] := by
  decide

end ScanAudit.Plan
