import Mathlib.Algebra.Ring.Nat
import ScanAudit.Proofs.Audit.Reading
import ScanAudit.Proofs.Audit.Totals
import ScanAudit.Proofs.Plan.ScannedTables

/-!
# Executions per table

A flagged entry adds its executions to the tables that its plan reads row by row, once to each of
them. So the total of a table is a sum over the flagged entries of the log, and the tables with a
total are those that some flagged entry reads row by row.

* `CheckedEntry.Scans` — the plan of an entry reads a table row by row
* `get?_addScans` — what one entry adds
* `get?_foldl_addScans`, `mem_foldl_addScans_iff` — what several entries add
* `run_totals` — the totals of a completed run
-/

namespace ScanAudit.Audit

open Explain Plan

namespace CheckedEntry

/-- Some row of the plan is that of a table that is read row by row. -/
def Scans (table : String) (e : CheckedEntry) : Prop :=
  ∃ row ∈ e.rows, Plan.Scans table row

instance (table : String) (e : CheckedEntry) : Decidable (e.Scans table) :=
  inferInstanceAs (Decidable (∃ row ∈ e.rows, _))

/-- The rows of an entry are a plan. -/
def HasPlan (e : CheckedEntry) : Prop :=
  e.rows ≠ [] ∧ ParentsListed e.rows

/-- A flagged entry has a row, and so a plan if its parents are listed. -/
theorem IsFlagged.hasPlan {e : CheckedEntry} (h : e.IsFlagged) (hlisted : ParentsListed e.rows) :
    e.HasPlan := by
  obtain ⟨row, hrow, _⟩ := h
  exact ⟨List.ne_nil_of_mem hrow, hlisted⟩

/-- A table gets the executions of an entry once, also if several rows of the plan read it. -/
theorem nodup_attribution (entry : Log.Entry) (rows : List Row) :
    (attribution entry rows).1.Nodup := by
  unfold attribution
  split
  · next tree _ => exact nodup_scannedTables tree
  · -- rows that are no plan tell of no table
    exact .nil

/-- The tables of an entry are told by its rows alone, since its plan is a tree. -/
theorem mem_attribution_iff {e : CheckedEntry} (h : e.HasPlan) {table : String} :
    table ∈ (attribution e.entry e.rows).1 ↔ e.Scans table := by
  have hrows := ofRows_eq_ok_iff.mpr ⟨h.1, h.2, rfl⟩
  unfold attribution
  rw [hrows]
  exact mem_scannedTables_iff hrows

/-- An entry adds its executions to each table that it reads row by row. -/
theorem get?_addScans {e : CheckedEntry} (h : e.HasPlan) (totals : Totals) (table : String) :
    (addScans totals e).get? table =
      if e.Scans table then some ((totals.get? table).getD 0 + .ofNat e.entry.executions)
      else totals.get? table := by
  rw [addScans, Totals.get?_addAll (nodup_attribution e.entry e.rows)]
  simp only [mem_attribution_iff h]

end CheckedEntry

/-! ## The totals of several entries -/

/-- The executions of the entries that read a table row by row. -/
def executionsOf (table : String) (entries : List CheckedEntry) : Nat :=
  ((entries.filter (·.Scans table)).map (·.entry.executions)).sum

/-- An entry counts for a table only if it reads it row by row. -/
theorem executionsOf_cons (table : String) (e : CheckedEntry) (entries : List CheckedEntry) :
    executionsOf table (e :: entries) =
      (if e.Scans table then e.entry.executions else 0) + executionsOf table entries := by
  unfold executionsOf
  by_cases h : e.Scans table
  · rw [List.filter_cons_of_pos (by simpa using h), List.map_cons, List.sum_cons, if_pos h]
  · rw [List.filter_cons_of_neg (by simpa using h), if_neg h, Nat.zero_add]

/-- What some entries add to the total of a table. The induction keeps the totals open, as each
entry adds to what those before it left. -/
theorem get?_foldl_addScans {entries : List CheckedEntry} (h : ∀ e ∈ entries, e.HasPlan)
    (totals : Totals) (table : String) :
    (entries.foldl CheckedEntry.addScans totals).get? table =
      if ∃ e ∈ entries, e.Scans table then
        some ((totals.get? table).getD 0 + .ofNat (executionsOf table entries))
      else totals.get? table := by
  induction entries generalizing totals with
  | nil => simp
  | cons e entries ih =>
    -- the first entry adds to the totals, and the others to what it leaves
    have hrest := ih (fun d hd => h d (.tail _ hd)) (e.addScans totals)
    rw [List.foldl_cons, hrest, CheckedEntry.get?_addScans (h e (.head _)), executionsOf_cons]
    -- an entry that does not read the table leaves everything to the others
    by_cases hscans : e.Scans table
    · have hsome : ∃ d ∈ e :: entries, d.Scans table := ⟨e, .head _, hscans⟩
      rw [if_pos hscans, if_pos hscans, if_pos hsome]
      by_cases hlater : ∃ d ∈ entries, d.Scans table
      · -- both add something, and 64-bit addition is associative
        rw [if_pos hlater, Option.getD_some, UInt64.ofNat_add, UInt64.add_assoc]
      · -- no later entry adds anything
        have hzero : executionsOf table entries = 0 := by
          have hnone : entries.filter (·.Scans table) = [] :=
            List.filter_eq_nil_iff.mpr fun d hd hd' =>
              hlater ⟨d, hd, of_decide_eq_true hd'⟩
          rw [executionsOf, hnone]
          rfl
        rw [if_neg hlater, hzero, Nat.add_zero]
    · have hsome : (∃ d ∈ e :: entries, d.Scans table) ↔ ∃ d ∈ entries, d.Scans table := by
        simp [hscans]
      rw [if_neg hscans, if_neg hscans, Nat.zero_add]
      simp only [hsome]

/-- The totals of some entries alone: a table has one if some of them reads it row by row. -/
theorem mem_foldl_addScans_iff {entries : List CheckedEntry} (h : ∀ e ∈ entries, e.HasPlan)
    {table : String} {total : UInt64} :
    (table, total) ∈ (entries.foldl CheckedEntry.addScans .empty).entries ↔
      entries.filter (·.Scans table) ≠ [] ∧ total = .ofNat (executionsOf table entries) := by
  have hsome : entries.filter (·.Scans table) ≠ [] ↔ ∃ e ∈ entries, e.Scans table := by
    simp [List.filter_eq_nil_iff]
  rw [Totals.mem_entries_iff, get?_foldl_addScans h, hsome, Totals.get?_empty, Option.getD_none,
    UInt64.zero_add]
  by_cases hread : ∃ e ∈ entries, e.Scans table
  · rw [if_pos hread, and_iff_right hread, Option.some.injEq, eq_comm]
  · -- without such an entry there is neither a total nor anything to add
    rw [if_neg hread]
    exact ⟨nofun, fun hboth => absurd hboth.1 hread⟩

/-! ## The totals of a run -/

/-- All flagged entries of a log come from checks of the database, whose plans are trees. -/
theorem hasPlan_of_mem_flaggedEntries {db : Database} {lines : List (List Char × Nat)}
    (hplans : ∀ query check, db.check query = .ok check → ParentsListed check.rows)
    {e : CheckedEntry} (h : e ∈ flaggedEntries db lines) : e.HasPlan := by
  obtain ⟨hchecked, hflag⟩ := List.mem_filter.mp h
  obtain ⟨line, _, hline⟩ := List.mem_filterMap.mp hchecked
  have hcheck := (checkedLine?_eq_some_iff.mp hline).2
  have hlisted : ParentsListed e.rows := hplans _ _ hcheck
  exact (of_decide_eq_true hflag).hasPlan hlisted

/-- Where a number fits into 64 bits, a word is its residue if and only if it is the number. -/
theorem eq_ofNat_iff {n : Nat} (h : n < UInt64.size) {total : UInt64} :
    total = .ofNat n ↔ total.toNat = n := by
  rw [← UInt64.toNat_inj, UInt64.toNat_ofNat_of_lt' h]

/-- The totals of a completed run, if the parents of the plans are listed: a table has one if and
only if some flagged entry reads it row by row, and it is the sum of the executions of all flagged
entries that do, as far as it fits into 64 bits. A sum that fits is the total itself. -/
theorem run_totals {db : Database} {policy : Policy} {log : String} {summary : Summary}
    (hplans : ∀ query check, db.check query = .ok check → ParentsListed check.rows)
    (h : (run db policy log none).result = .ok summary) (table : String) :
    (∀ total, (table, total) ∈ summary.scannedTables.entries ↔
      (∃ e ∈ flaggedEntries db (Log.numberedLines log), e.Scans table) ∧
        total = .ofNat (executionsOf table (flaggedEntries db (Log.numberedLines log)))) ∧
      (executionsOf table (flaggedEntries db (Log.numberedLines log)) < UInt64.size →
        ∀ total, (table, total) ∈ summary.scannedTables.entries ↔
          (∃ e ∈ flaggedEntries db (Log.numberedLines log), e.Scans table) ∧
            total.toNat =
              (((flaggedEntries db (Log.numberedLines log)).filter (·.Scans table)).map
                (·.entry.executions)).sum) := by
  have hmem (total : UInt64) : (table, total) ∈ summary.scannedTables.entries ↔
      (∃ e ∈ flaggedEntries db (Log.numberedLines log), e.Scans table) ∧
        total = .ofNat (executionsOf table (flaggedEntries db (Log.numberedLines log))) := by
    obtain ⟨_, rfl⟩ := run_of_ok h
    rw [mem_foldl_addScans_iff fun e he => hasPlan_of_mem_flaggedEntries hplans he]
    simp [List.filter_eq_nil_iff]
  -- only the second part needs the bound: below it the residue is the sum
  refine ⟨hmem, fun hfits total => ?_⟩
  rw [hmem, eq_ofNat_iff hfits]
  rfl

/-- The plans of the sample database are trees. -/
theorem parentsListed_sampleDatabase {query : String} {check : Check}
    (h : sampleDatabase.check query = .ok check) : ParentsListed check.rows := by
  obtain ⟨statement, rows, hsession, -, hfetched, rfl⟩ := Database.check_eq_ok_iff.mp h
  show ParentsListed rows
  unfold sampleDatabase at hsession
  dsimp only at hsession
  have hrows := allRows_eq_ok_iff.mpr hfetched
  -- the query is the one with a plan of two rows, or any other
  split at hsession
  · obtain rfl := Except.ok.inj hsession
    obtain rfl := Except.ok.inj hrows
    decide
  · obtain rfl := Except.ok.inj hsession
    obtain rfl := Except.ok.inj hrows
    decide

/-- Two lines have the same query, whose plan reads the table twice. -/
theorem run_totals_sample :
    ∃ summary, (run sampleDatabase .skip sampleLog none).result = .ok summary ∧
      ("t", 5) ∈ summary.scannedTables.entries := by
  obtain ⟨summary, h⟩ := run_skip_ok sampleDatabase sampleLog
  obtain ⟨-, hexact⟩ := run_totals (fun _ _ => parentsListed_sampleDatabase) h "t"
  refine ⟨summary, h, ?_⟩
  rw [hexact (by rw [flaggedEntries_sampleLog]; decide +kernel), flaggedEntries_sampleLog]
  decide +kernel

end ScanAudit.Audit
