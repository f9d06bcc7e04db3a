import Mathlib.Data.List.Infix
import ScanAudit.Proofs.Audit.Attribution
import ScanAudit.Proofs.Audit.Policies
import ScanAudit.Proofs.Plan.Pieces

/-!
# Every table of a plan flags its entry

Two tests look at the rows of a plan. One decides whether the entry is reported: it looks for `SCAN`
anywhere in a description, in these letters. The other says which tables the plan reads row by row:
it goes by the keyword at the start, in any letters, and by the words behind it. As long as the
database writes its keywords in upper case, the second never finds a table where the first finds
nothing, so a table of a plan cannot stay out of the report.

* `KeywordInUpper` — a description has no lower case where its keyword is
* `isFullScan_of_scans` — the row of a table is a full scan by itself
* `advance_of_hasFullScan` — what an audit does at the entry
* `mem_run_of_flagged` — what a run writes and tells at a flagged entry
* `isSome_get?_foldl_addScans`, `exists_total_of_ok` — the tables that have a total in the end
* `scannedTables_flagged` — what the tables of a plan come to
-/

namespace ScanAudit.Audit

open Explain Plan Text

/-- None of the first four characters of a description, after its blanks, is an ASCII letter in
lower case. -/
def KeywordInUpper (detail : String) : Prop :=
  ∀ c ∈ (dropBlanks detail.toList).take 4, c.isLower = false

/-- The property in the form in which it is decided. -/
theorem keywordInUpper_iff {detail : String} :
    KeywordInUpper detail ↔ ((dropBlanks detail.toList).take 4).any Char.isLower = false := by
  simp only [KeywordInUpper, List.any_eq_false, Bool.not_eq_true]

-- by a test of the list, as all characters can be gone through too
instance (detail : String) : Decidable (KeywordInUpper detail) :=
  decidable_of_iff' _ keywordInUpper_iff

/-! ## One row -/

/-- Of all forms only scans have steps that are read row by row. -/
theorem eq_scan_of_kind_step {form : Form} {cs : List Char} (h : (form.step cs).kind = .seqScan) :
    form = .scan := by
  have hmem : (form.step cs).kind ∈ form.kinds := kind_step_mem form cs
  rw [h] at hmem
  -- by the table of the kinds that each form can give
  revert hmem
  cases form <;> decide

/-- The reader of plans finds a keyword in any letter case and past blanks; the report looks for it
in upper case and anywhere. So what is left to show is that the keyword stands in the text as it is.
-/
theorem isFullScan_of_scans {row : Row} {table : String} (hupper : KeywordInUpper row.detail)
    (h : Scans table row) : row.isFullScan = true := by
  have hform : Form.ofDetail (trim row.detail.toList) = .scan := eq_scan_of_kind_step h.1
  have hkeyword : "SCAN".toList <+: upper (trim row.detail.toList) := by
    rw [← List.isPrefixOf_iff_prefix, ← Keyword.startsWith_eq_isPrefixOf_upper]
    exact startsWith_of_ofDetail_eq_scan hform
  have htrim : trim row.detail.toList <+: dropBlanks row.detail.toList :=
    List.rdropWhile_prefix _ _
  -- the four characters of the keyword are among the first four behind the blanks
  have hscan : "SCAN".toList <+: trim row.detail.toList :=
    prefix_of_prefix_upper hkeyword fun c hc => hupper c ((htrim.take 4).subset hc)
  have hinfix : "SCAN".toList <:+: row.detail.toList :=
    (hscan.trans htrim).isInfix.trans (List.dropWhile_suffix _).isInfix
  exact contains_iff.mpr hinfix

/-! ## One entry of a run -/

/-- The attribution of an entry whose rows are a tree. -/
theorem attribution_of_ofRows {rows : List Row} {tree : Tree} (h : Tree.ofRows rows = .ok tree)
    (entry : Log.Entry) :
    attribution entry rows =
      (tree.scannedTables, .fullScan entry.lineNumber entry.executions tree.scannedTables) := by
  rw [attribution, h]

/-- What an audit does at an entry with a full scan, if its output takes the block. -/
theorem advance_of_hasFullScan {db : Database} {entry : Log.Entry} {rows : List Row}
    (hcheck : db.check entry.query = .ok (Check.ofRows rows)) (hscan : hasFullScan rows = true)
    {room : Option Nat} (hroom : Takes room (Report.block entry rows).utf8ByteSize)
    (policy : Policy) (summary : Summary) :
    State.advance policy ⟨summary, room⟩ (verdict db (.ok entry)) =
      .continues
        ⟨summary.record (.flagged entry rows),
          room.map (· - (Report.block entry rows).utf8ByteSize)⟩
        [Report.block entry rows] [(attribution entry rows).2] := by
  have hverdict : verdict db (.ok entry) = .flagged entry rows := by
    simp only [verdict, hcheck, Check.ofRows, hscan, if_true]
  have hgoes : GoesOn policy (.flagged entry rows) := trivial
  rw [hverdict, advance_of_goesOn hgoes (by rwa [report_flagged]), report_flagged]
  rfl

section Entry

variable {db : Database} {policy : Policy} {log : String} {e : CheckedEntry}
  {line : List Char × Nat} {before after : List (List Char × Nat)}

/-- An audit comes to a line if it skips failed lines or no line before fails. -/
theorem goesOn_before (h : policy = .skip ∨ AllChecked db before) :
    ∀ v ∈ before.map (lineVerdict db), GoesOn policy v := by
  rcases h with rfl | hall
  · exact fun v _ => goesOn_skip v
  · exact goesOn_of_allChecked hall policy

/-- An audit that comes to the line of a flagged entry writes its block and tells of it, whatever
happens to it later. -/
theorem mem_run_of_flagged (hlines : Log.numberedLines log = before ++ line :: after)
    (hbefore : policy = .skip ∨ AllChecked db before) (hline : checkedLine? db line = some e)
    (hflag : e.IsFlagged) :
    e.block ∈ (run db policy log none).written ∧
      (attribution e.entry e.rows).2 ∈ (run db policy log none).events := by
  have hverdict : lineVerdict db line = .flagged e.entry e.rows := by
    rw [lineVerdict_of_some hline, if_pos hflag]
  have hgoes : GoesOn policy (.flagged e.entry e.rows) := trivial
  -- the run replays the lines before, then takes this one
  rw [run_eq_runFrom, hlines, List.map_append, List.map_cons, hverdict,
    runFrom_append (goesOn_before hbefore) (takes_none _), Option.map_none, runFrom,
    advance_of_goesOn hgoes (takes_none _)]
  constructor
  · exact List.mem_append_right _ (List.mem_append_left _ (.head _))
  · exact List.mem_append_right _ (List.mem_append_left _ (.head _))

/-- A table has a total among those of some entries if one of them adds to it. By induction over the
entries, as the later ones only add. -/
theorem isSome_get?_foldl_addScans {entries : List CheckedEntry} {table : String}
    {totals : Totals} :
    ((entries.foldl CheckedEntry.addScans totals).get? table).isSome ↔
      (∃ e ∈ entries, table ∈ (attribution e.entry e.rows).1) ∨ (totals.get? table).isSome := by
  induction entries generalizing totals with
  | nil => simp
  | cons e entries ih =>
    rw [List.foldl_cons, ih, CheckedEntry.addScans,
      Totals.isSome_get?_addAll (CheckedEntry.nodup_attribution e.entry e.rows)]
    rw [List.exists_mem_cons_iff, or_assoc]
    exact or_left_comm

/-- The tables that a flagged entry is attributed to are in the totals of a completed run. -/
theorem exists_total_of_ok {summary : Summary}
    (h : (run db policy log none).result = .ok summary) (hline : line ∈ Log.numberedLines log)
    (hchecked : checkedLine? db line = some e) (hflag : e.IsFlagged) {table : String}
    (htable : table ∈ (attribution e.entry e.rows).1) :
    ∃ total, (table, total) ∈ summary.scannedTables.entries := by
  obtain ⟨-, rfl⟩ := run_of_ok h
  have hmem : e ∈ flaggedEntries db (Log.numberedLines log) :=
    List.mem_filter.mpr ⟨List.mem_filterMap.mpr ⟨line, hline, hchecked⟩, decide_eq_true hflag⟩
  obtain ⟨total, htotal⟩ := Option.isSome_iff_exists.mp
    (isSome_get?_foldl_addScans.mpr (.inl ⟨e, hmem, htable⟩))
  exact ⟨total, Totals.mem_entries_iff.mpr htotal⟩

end Entry

/-- Where the database writes its keywords in upper case, every table of a plan comes from a row
that is a full scan by itself. A plan with a table is then one of a full scan, and an entry with it
is counted as flagged, written and told with its tables as soon as an audit comes to it. Its
executions are added to the total of each of them, and all of them have a total in the end. -/
theorem scannedTables_flagged {rows : List Row} {tree : Tree} (htree : Tree.ofRows rows = .ok tree)
    (hupper : ∀ row ∈ rows, KeywordInUpper row.detail) :
    (∀ table ∈ tree.scannedTables, ∃ row ∈ rows, Scans table row ∧ row.isFullScan = true) ∧
      (tree.scannedTables ≠ [] →
        hasFullScan rows = true ∧
        ∀ (db : Database) (entry : Log.Entry), db.check entry.query = .ok (Check.ofRows rows) →
          (∀ policy summary room, Takes room (Report.block entry rows).utf8ByteSize →
            State.advance policy ⟨summary, room⟩ (verdict db (.ok entry)) =
              .continues
                ⟨{ summary with
                    entries := summary.entries + 1
                    flagged := summary.flagged + 1
                    scannedTables :=
                      summary.scannedTables.addAll tree.scannedTables
                        (.ofNat entry.executions) },
                  room.map (· - (Report.block entry rows).utf8ByteSize)⟩
                [Report.block entry rows]
                [.fullScan entry.lineNumber entry.executions tree.scannedTables]) ∧
          ∀ policy log before line after, Log.numberedLines log = before ++ line :: after →
            Log.readLine line.2 (String.ofList line.1) = .ok entry →
            policy = .skip ∨ AllChecked db before →
              Report.block entry rows ∈ (run db policy log none).written ∧
              .fullScan entry.lineNumber entry.executions tree.scannedTables ∈
                (run db policy log none).events ∧
              ∀ summary, (run db policy log none).result = .ok summary →
                ∀ table ∈ tree.scannedTables,
                  ∃ total, (table, total) ∈ summary.scannedTables.entries) := by
  have hrow : ∀ table ∈ tree.scannedTables, ∃ row ∈ rows, Scans table row ∧
      row.isFullScan = true := by
    intro table htable
    obtain ⟨row, hrow, hscans⟩ := (mem_scannedTables_iff htree).mp htable
    exact ⟨row, hrow, hscans, isFullScan_of_scans (hupper row hrow) hscans⟩
  refine ⟨hrow, fun hne => ?_⟩
  have hscan : hasFullScan rows = true := by
    -- one table is enough to make the whole plan one of a full scan
    obtain ⟨table, htable⟩ := List.exists_mem_of_ne_nil _ hne
    obtain ⟨row, hmem, -, hfull⟩ := hrow table htable
    exact List.any_eq_true.mpr ⟨row, hmem, hfull⟩
  refine ⟨hscan, fun db entry hcheck => ⟨fun policy summary room hroom => ?_, ?_⟩⟩
  · -- one step, from any state whose output has room
    rw [advance_of_hasFullScan hcheck hscan hroom, Summary.record, attribution_of_ofRows htree]
  · -- a whole run, which comes to the line
    intro policy log before line after hlines hread hbefore
    have hline : checkedLine? db line = some ⟨entry, rows⟩ :=
      checkedLine?_eq_some_iff.mpr ⟨hread, hcheck⟩
    have hflag : CheckedEntry.IsFlagged ⟨entry, rows⟩ :=
      (CheckedEntry.isFlagged_iff _).mpr hscan
    obtain ⟨hwritten, htold⟩ := mem_run_of_flagged hlines hbefore hline hflag
    rw [attribution_of_ofRows htree] at htold
    refine ⟨hwritten, htold, fun summary hsummary table htable => ?_⟩
    have hmem : line ∈ Log.numberedLines log := by
      rw [hlines]
      exact List.mem_append_right _ (.head _)
    have htables : table ∈ (attribution entry rows).1 := by
      rwa [attribution_of_ofRows htree]
    exact exists_total_of_ok hsummary hmem hline hflag htables

/-- The last line of `sampleLog` has a plan with a table. The line that is no entry does not keep
the audit from it. -/
theorem scannedTables_flagged_sample :
    ∃ tree, Tree.ofRows [⟨3, 0, 0, "SCAN t"⟩, ⟨5, 3, 0, "SCAN t"⟩] = .ok tree ∧
      "t" ∈ tree.scannedTables ∧ hasFullScan [⟨3, 0, 0, "SCAN t"⟩, ⟨5, 3, 0, "SCAN t"⟩] = true ∧
      Report.block ⟨5, "q", 3⟩ [⟨3, 0, 0, "SCAN t"⟩, ⟨5, 3, 0, "SCAN t"⟩] ∈
        (run sampleDatabase .skip sampleLog none).written ∧
      ∃ summary, (run sampleDatabase .skip sampleLog none).result = .ok summary ∧
        ∃ total, ("t", total) ∈ summary.scannedTables.entries := by
  obtain ⟨tree, htree⟩ : ∃ tree,
      Tree.ofRows [⟨3, 0, 0, "SCAN t"⟩, ⟨5, 3, 0, "SCAN t"⟩] = .ok tree :=
    ⟨_, ofRows_eq_ok_iff.mpr ⟨by decide, by decide, rfl⟩⟩
  have htable : "t" ∈ tree.scannedTables := (mem_scannedTables_iff htree).mpr (by decide)
  -- the blank line has its number but is left out
  have hlines : Log.numberedLines sampleLog =
      [("Query: q was executed 2 times".toList, 1), ("broken".toList, 3),
        ("Query: r was executed 7 times".toList, 4)] ++
        ("Query: q was executed 3 times".toList, 5) :: [] := by
    decide +kernel
  obtain ⟨summary, hsummary⟩ := run_skip_ok sampleDatabase sampleLog
  obtain ⟨-, hflagged⟩ := scannedTables_flagged htree (by decide)
  obtain ⟨hscan, hentry⟩ := hflagged (List.ne_nil_of_mem htable)
  have hcheck : sampleDatabase.check "q" =
      .ok (Check.ofRows [⟨3, 0, 0, "SCAN t"⟩, ⟨5, 3, 0, "SCAN t"⟩]) :=
    Database.check_eq_ok_iff.mpr ⟨_, _, rfl, rfl, rfl, rfl⟩
  obtain ⟨-, hrun⟩ := hentry sampleDatabase ⟨5, "q", 3⟩ hcheck
  obtain ⟨hwritten, -, htotals⟩ := hrun .skip _ _ _ _ hlines (by decide +kernel) (.inl rfl)
  exact ⟨tree, htree, htable, hscan, hwritten, summary, hsummary,
    htotals summary hsummary "t" htable⟩

end ScanAudit.Audit
