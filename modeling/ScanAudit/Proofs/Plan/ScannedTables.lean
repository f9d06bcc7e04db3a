import Mathlib.Data.List.Sort
import ScanAudit.Proofs.Plan.Shape

/-!
# The tables that a plan reads row by row

A plan has the steps of its rows and at most one that appends them, so the tables that it reads row
by row can be told from the rows alone, wherever in the tree they are. Of the rows only the
descriptions count, so the numbers and the order of the rows have no part in it.

* `Scans` — a row's description tells of a table that is read row by row
* `mem_values_iff` — the steps of the plan of a list of rows
* `mem_scannedTables_iff`, `nodup_scannedTables` — the tables of a plan, each of them once
* `SameDetails` — two lists of rows with the same descriptions
* `scannedTables_ofRows` — the tables of a plan, and what they depend on
-/

namespace ScanAudit.Plan

open Explain RoseTree

/-- A row's description, by itself, is that of a table that is read row by row. -/
def Scans (table : String) (row : Row) : Prop :=
  (readDetail row.detail).kind = .seqScan ∧ (readDetail row.detail).relation = some table

instance (table : String) (row : Row) : Decidable (Scans table row) :=
  inferInstanceAs (Decidable (_ ∧ _))

theorem scannedTable?_eq_some_iff {step : Step} {table : String} :
    step.scannedTable? = some table ↔ step.kind = .seqScan ∧ step.relation = some table := by
  unfold Step.scannedTable?
  split
  · next hkind => rw [and_iff_right hkind]
  · next hkind => exact ⟨nofun, fun h => absurd h.1 hkind⟩

/-- The number of a row is all that it adds to what its description says. -/
theorem scannedTable?_stepOfRow {table : String} {row : Row} :
    (stepOfRow row).scannedTable? = some table ↔ Scans table row := by
  rw [scannedTable?_eq_some_iff, stepOfRow, Scans]

/-- The steps of the plan of a list of rows. -/
theorem mem_values_iff {rows : List Row} {tree : Tree} (h : Tree.ofRows rows = .ok tree)
    {step : Step} :
    step ∈ values tree ↔
      step ∈ wrapper ((forestAt rows).map (·.map (stepAt rows))) ∨
        ∃ row ∈ rows, stepOfRow row = step := by
  obtain ⟨_, hlisted, rfl⟩ := ofRows_eq_ok_iff.mp h
  have hplaces := perm_valuesAll_forestAt hlisted
  rw [values_ofForest, valuesAll_map, List.mem_append, List.mem_map,
    List.exists_mem_iff_get (l := rows)]
  -- every place of the list is one of the forest
  simp only [hplaces.mem_iff, List.mem_finRange, true_and]
  rfl

theorem scannedTable?_of_mem_wrapper {trees : List Tree} {step : Step}
    (h : step ∈ wrapper trees) : step.scannedTable? = none := by
  unfold wrapper at h
  split at h
  · exact absurd h List.not_mem_nil
  · obtain rfl := List.mem_singleton.mp h
    rfl

/-- A table is one of a plan if some row, anywhere in the list, scans it. -/
theorem mem_scannedTables_iff {rows : List Row} {tree : Tree} (h : Tree.ofRows rows = .ok tree)
    {table : String} : table ∈ tree.scannedTables ↔ ∃ row ∈ rows, Scans table row := by
  have hnodes : tree.nodes.filterMap (·.step.scannedTable?) =
      (values tree).filterMap Step.scannedTable? := by
    rw [← map_step_nodes, List.filterMap_map]
    rfl
  rw [Tree.scannedTables, Names.mem_sorted, hnodes, List.mem_filterMap]
  constructor
  · rintro ⟨step, hstep, htable⟩
    -- the step above the trees has no table, so it is that of a row
    rcases (mem_values_iff h).mp hstep with hwrapper | ⟨row, hrow, rfl⟩
    · rw [scannedTable?_of_mem_wrapper hwrapper] at htable
      cases htable
    · exact ⟨row, hrow, scannedTable?_stepOfRow.mp htable⟩
  · rintro ⟨row, hrow, hscans⟩
    exact ⟨stepOfRow row, (mem_values_iff h).mpr (.inr ⟨row, hrow, rfl⟩),
      scannedTable?_stepOfRow.mpr hscans⟩

theorem nodup_scannedTables (tree : Tree) : tree.scannedTables.Nodup :=
  (Names.pairwise_sorted _).imp fun h => String.ne_of_lt h

/-! ## Plans of the same descriptions

A list that strictly increases is determined by its members, and the members are told by the
descriptions. What the rows give as numbers and parents decides the tree, but not its tables. -/

/-- The same descriptions occur in two lists of rows, in any order and any number of times. -/
def SameDetails (rows rows' : List Row) : Prop :=
  ∀ detail, detail ∈ rows.map (·.detail) ↔ detail ∈ rows'.map (·.detail)

/-- Whether some row is that of a table depends on the descriptions alone. -/
theorem exists_scans_iff (table : String) (rows : List Row) :
    (∃ row ∈ rows, Scans table row) ↔
      ∃ detail ∈ rows.map (·.detail),
        (readDetail detail).kind = .seqScan ∧ (readDetail detail).relation = some table := by
  constructor
  · rintro ⟨row, hrow, hscans⟩
    exact ⟨row.detail, List.mem_map_of_mem hrow, hscans⟩
  · rintro ⟨detail, hdetail, hscans⟩
    obtain ⟨row, hrow, rfl⟩ := List.mem_map.mp hdetail
    exact ⟨row, hrow, hscans⟩

theorem SameDetails.exists_scans_iff {rows rows' : List Row} (h : SameDetails rows rows')
    (table : String) : (∃ row ∈ rows, Scans table row) ↔ ∃ row ∈ rows', Scans table row := by
  rw [Plan.exists_scans_iff, Plan.exists_scans_iff]
  exact exists_congr fun detail => and_congr_left fun _ => h detail

/-- Plans of the same descriptions have the same tables, in the same order. -/
theorem SameDetails.scannedTables_eq {rows rows' : List Row} {tree tree' : Tree}
    (h : SameDetails rows rows') (hrows : Tree.ofRows rows = .ok tree)
    (hrows' : Tree.ofRows rows' = .ok tree') : tree'.scannedTables = tree.scannedTables := by
  apply List.Pairwise.eq_of_mem_iff (Names.pairwise_sorted _) (Names.pairwise_sorted _)
  intro table
  show table ∈ tree'.scannedTables ↔ table ∈ tree.scannedTables
  rw [mem_scannedTables_iff hrows', mem_scannedTables_iff hrows]
  exact (h.exists_scans_iff table).symm

/-- The tables of a plan increase strictly by code point, and they are the tables that the
description of some row tells of, at any depth of the tree. So every plan of the same descriptions
has the same tables, whatever its shape is. -/
theorem scannedTables_ofRows {rows : List Row} {tree : Tree} (h : Tree.ofRows rows = .ok tree) :
    tree.scannedTables.Pairwise (· < ·) ∧
      (∀ table, table ∈ tree.scannedTables ↔ ∃ row ∈ rows, Scans table row) ∧
      ∀ rows' tree', Tree.ofRows rows' = .ok tree' → SameDetails rows rows' →
        tree'.scannedTables = tree.scannedTables := by
  refine ⟨Names.pairwise_sorted _, fun table => mem_scannedTables_iff h, ?_⟩
  intro rows' tree' h' hsame
  exact hsame.scannedTables_eq h h'

/-- The rows of `repeatedRows` in another order, one of them twice, each below the one before it. -/
def chainedRows : List Row :=
  [⟨1, 0, 0, "SCAN d"⟩, ⟨2, 1, 0, "SCAN b"⟩, ⟨3, 2, 0, "SCAN a"⟩, ⟨4, 3, 0, "SCAN d"⟩,
   ⟨5, 4, 0, "SCAN c"⟩]

/-- Plans of other shapes and with other numbers. -/
theorem scannedTables_ofRows_chained :
    SameDetails repeatedRows chainedRows ∧
      ∃ tree tree', Tree.ofRows repeatedRows = .ok tree ∧ Tree.ofRows chainedRows = .ok tree' ∧
        "c" ∈ tree.scannedTables ∧ tree'.scannedTables = tree.scannedTables := by
  have hsame : SameDetails repeatedRows chainedRows := by
    intro detail
    simp only [repeatedRows, chainedRows, List.map_cons, List.map_nil, List.mem_cons,
      List.not_mem_nil, or_false]
    tauto
  have h := ofRows_eq_ok_iff.mpr ⟨(by decide : repeatedRows ≠ []), by decide, rfl⟩
  have h' := ofRows_eq_ok_iff.mpr ⟨(by decide : chainedRows ≠ []), by decide, rfl⟩
  obtain ⟨-, hmem, hdetails⟩ := scannedTables_ofRows h
  exact ⟨hsame, _, _, h, h', (hmem "c").mpr (by decide), hdetails _ _ h' hsame⟩

end ScanAudit.Plan
