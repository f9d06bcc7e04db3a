import ScanAudit.Proofs.Audit.Replay
import ScanAudit.Proofs.Database.Steps

/-!
# A log by its checked entries

What an audit reports can be read off the log and the database line by line: a line that is not
blank is a checked entry or fails, and a checked entry is flagged or not. The reading knows nothing
of a course of events; a run that completes has counted and written exactly this.

* `CheckedEntry`, `CheckedEntry.IsFlagged` — an accepted entry with its plan, and its flag
* `checkedLine?`, `checkedEntries`, `flaggedEntries` — the reading of numbered lines
* `LineFails` — why a line is no checked entry
* `checkedLine?_eq_some_iff` — when a line is accepted
* `foldl_record_lineVerdict` — the fold over the verdicts of some lines adds up their reading
* `run_reads_log` — a completed run counts and writes the reading of its log
-/

namespace ScanAudit.Audit

open Explain Text

/-- The mark of a full scan is looked for in each detail, in this case and anywhere. -/
theorem hasFullScan_iff {rows : List Row} :
    hasFullScan rows = true ↔ ∃ row ∈ rows, "SCAN".toList <:+: row.detail.toList := by
  simp [hasFullScan, Row.isFullScan, fullScanMarker, contains_iff]

/-- An entry of the log that the database accepts, with all rows of its plan. -/
structure CheckedEntry where
  entry : Log.Entry
  rows : List Row
  deriving DecidableEq

namespace CheckedEntry

/-- Some row of the plan tells of a table that is read as a whole. -/
def IsFlagged (e : CheckedEntry) : Prop :=
  ∃ row ∈ e.rows, "SCAN".toList <:+: row.detail.toList

theorem isFlagged_iff (e : CheckedEntry) : e.IsFlagged ↔ hasFullScan e.rows = true :=
  hasFullScan_iff.symm

instance (e : CheckedEntry) : Decidable e.IsFlagged :=
  decidable_of_iff' _ e.isFlagged_iff

def block (e : CheckedEntry) : String :=
  Report.block e.entry e.rows

/-- The executions of an entry, added for each table that its plan reads row by row. -/
def addScans (totals : Totals) (e : CheckedEntry) : Totals :=
  totals.addAll (attribution e.entry e.rows).1 (.ofNat e.entry.executions)

end CheckedEntry

/-- The checked entry of a numbered line; none if the line cannot be read or the database does not
accept its query. -/
def checkedLine? (db : Database) (line : List Char × Nat) : Option CheckedEntry :=
  match Log.readLine line.2 (String.ofList line.1) with
  | .error _ => none
  | .ok entry =>
    match db.check entry.query with
    | .error _ => none
    | .ok check => some ⟨entry, check.rows⟩

/-- Why a line is no checked entry: it cannot be read, or the database rejects its query. -/
inductive LineFails (db : Database) (line : List Char × Nat) : EntryError → Prop
  | malformed {bad : Log.BadLine}
      (hline : Log.readLine line.2 (String.ofList line.1) = .error bad) :
      LineFails db line (.malformed bad)
  | rejected {entry : Log.Entry} {cause : DriverError}
      (hline : Log.readLine line.2 (String.ofList line.1) = .ok entry)
      (hcheck : db.check entry.query = .error (.rejected entry.query cause)) :
      LineFails db line (.rejected entry.query cause)

def checkedEntries (db : Database) (lines : List (List Char × Nat)) : List CheckedEntry :=
  lines.filterMap (checkedLine? db)

def flaggedEntries (db : Database) (lines : List (List Char × Nat)) : List CheckedEntry :=
  (checkedEntries db lines).filter (·.IsFlagged)

/-- The number of lines that are no checked entries. -/
def failures (db : Database) (lines : List (List Char × Nat)) : Nat :=
  lines.countP fun line => (checkedLine? db line).isNone

theorem checkedEntries_cons (db : Database) (line : List Char × Nat)
    (lines : List (List Char × Nat)) :
    checkedEntries db (line :: lines) =
      (checkedLine? db line).toList ++ checkedEntries db lines := by
  rw [checkedEntries, List.filterMap_cons, checkedEntries]
  cases checkedLine? db line <;> rfl

theorem flaggedEntries_cons (db : Database) (line : List Char × Nat)
    (lines : List (List Char × Nat)) :
    flaggedEntries db (line :: lines) =
      (checkedLine? db line).toList.filter (·.IsFlagged) ++ flaggedEntries db lines := by
  rw [flaggedEntries, checkedEntries_cons, List.filter_append, flaggedEntries]

theorem flaggedEntries_append (db : Database) (lines rest : List (List Char × Nat)) :
    flaggedEntries db (lines ++ rest) = flaggedEntries db lines ++ flaggedEntries db rest := by
  rw [flaggedEntries, checkedEntries, List.filterMap_append, List.filter_append]
  rfl

theorem failures_cons (db : Database) (line : List Char × Nat) (lines : List (List Char × Nat)) :
    failures db (line :: lines) =
      failures db lines + if (checkedLine? db line).isNone then 1 else 0 := by
  rw [failures, List.countP_cons, failures]

/-- Every line is counted once, as an entry or as a failure. -/
theorem length_checkedEntries_add_failures (db : Database) (lines : List (List Char × Nat)) :
    (checkedEntries db lines).length + failures db lines = lines.length := by
  induction lines with
  | nil => rfl
  | cons line lines ih =>
    rw [checkedEntries_cons, failures_cons, List.length_append, List.length_cons]
    cases checkedLine? db line with
    | none => simp; omega
    | some e => simp; omega

/-- The numbered lines are those of the log that are not blank. -/
theorem length_numberedLines (log : String) :
    (Log.numberedLines log).length =
      ((lines log.toList).filter (!·.all isBlank)).length := by
  have hlines : (lines log.toList).filter (!·.all isBlank) =
      (Log.numberedLines log).map (·.1) := by
    rw [Log.numberedLines, ← List.zipIdx_map_fst 1 (lines log.toList), List.filter_map]
    simp [Function.comp_def]
  rw [hlines, List.length_map]

/-! ## The verdict on one line

A verdict asks the same two questions as the reading, in the same order, and then looks for a full
scan among the rows. -/

/-- Every error of a check is one of the database that names the query. -/
theorem exists_cause_of_check_error {db : Database} {query : String} {error : EntryError}
    (h : db.check query = .error error) : ∃ cause, error = .rejected query cause := by
  obtain ⟨cause, rfl, -⟩ := Database.check_eq_error_iff.mp h
  exact ⟨cause, rfl⟩

/-- A line gives an entry if it can be read as one, and if the check of its query has these rows. -/
theorem checkedLine?_eq_some_iff {db : Database} {line : List Char × Nat} {e : CheckedEntry} :
    checkedLine? db line = some e ↔
      Log.readLine line.2 (String.ofList line.1) = .ok e.entry ∧
        db.check e.entry.query = .ok (Check.ofRows e.rows) := by
  unfold checkedLine?
  cases hline : Log.readLine line.2 (String.ofList line.1) with
  | error bad => simp
  | ok entry =>
    dsimp only
    cases hcheck : db.check entry.query with
    | error error =>
      -- the query is refused, so no entry has a check
      refine ⟨nofun, ?_⟩
      rintro ⟨hentry, hrows⟩
      cases hentry
      rw [hcheck] at hrows
      cases hrows
    | ok check =>
      -- the check is that of its rows, and these are the rows of the entry
      obtain ⟨_, rows, _, _, _, rfl⟩ := Database.check_eq_ok_iff.mp hcheck
      constructor
      · intro h
        cases h
        exact ⟨rfl, hcheck⟩
      · rintro ⟨hentry, hrows⟩
        cases hentry
        rw [hcheck] at hrows
        cases hrows
        rfl

def lineVerdict (db : Database) (line : List Char × Nat) : Verdict :=
  verdict db (Log.readLine line.2 (String.ofList line.1))

/-- A line without an entry fails, and it is known why. -/
theorem lineVerdict_of_none {db : Database} {line : List Char × Nat}
    (h : checkedLine? db line = none) :
    ∃ error, lineVerdict db line = .failed error ∧ LineFails db line error := by
  unfold checkedLine? at h
  unfold lineVerdict verdict
  split at h
  · next bad hline => exact ⟨.malformed bad, by rw [hline], .malformed hline⟩
  · next entry hline =>
    split at h
    · next error hcheck =>
      -- the error of the check names the query of the line
      obtain ⟨cause, rfl⟩ := exists_cause_of_check_error hcheck
      exact ⟨.rejected entry.query cause, by simp only [hline, hcheck], .rejected hline hcheck⟩
    · cases h

/-- A line with an entry is flagged by the rows of its plan, else it is clean. -/
theorem lineVerdict_of_some {db : Database} {line : List Char × Nat} {e : CheckedEntry}
    (h : checkedLine? db line = some e) :
    lineVerdict db line = if e.IsFlagged then .flagged e.entry e.rows else .clean e.entry := by
  obtain ⟨hline, hcheck⟩ := checkedLine?_eq_some_iff.mp h
  unfold lineVerdict verdict
  simp only [hline, hcheck, Check.ofRows, CheckedEntry.isFlagged_iff]

/-! ## The verdicts on all lines -/

/-- The verdicts on some lines add to a summary what the reading of these lines says. -/
theorem foldl_record_lineVerdict (db : Database) (lines : List (List Char × Nat))
    (summary : Summary) :
    (lines.map (lineVerdict db)).foldl Summary.record summary =
      { entries := summary.entries + (checkedEntries db lines).length
        flagged := summary.flagged + (flaggedEntries db lines).length
        skipped := summary.skipped + failures db lines
        scannedTables :=
          (flaggedEntries db lines).foldl CheckedEntry.addScans summary.scannedTables } := by
  induction lines generalizing summary with
  | nil => rfl
  | cons line lines ih =>
    rw [List.map_cons, List.foldl_cons, ih, checkedEntries_cons, flaggedEntries_cons,
      failures_cons]
    cases h : checkedLine? db line with
    | none =>
      -- one more failure, and nothing else changes
      obtain ⟨error, hverdict, -⟩ := lineVerdict_of_none h
      simp [hverdict, Summary.record, Nat.add_assoc, Nat.add_comm 1]
    | some e =>
      rw [lineVerdict_of_some h]
      -- a clean entry is only counted, a flagged one adds its tables too
      by_cases hflag : e.IsFlagged
      · simp [hflag, Summary.record, CheckedEntry.addScans, Nat.add_assoc, Nat.add_comm 1]
      · simp [hflag, Summary.record, Nat.add_assoc, Nat.add_comm 1]

/-- The verdicts write the blocks of the flagged entries and nothing else. -/
theorem flatMap_blocks_lineVerdict (db : Database) (lines : List (List Char × Nat)) :
    (lines.map (lineVerdict db)).flatMap Verdict.blocks =
      (flaggedEntries db lines).map CheckedEntry.block := by
  induction lines with
  | nil => rfl
  | cons line lines ih =>
    rw [List.map_cons, List.flatMap_cons, ih, flaggedEntries_cons, List.map_append]
    cases h : checkedLine? db line with
    | none =>
      -- a failed line has no block, and no flagged entry
      obtain ⟨error, hverdict, -⟩ := lineVerdict_of_none h
      rw [hverdict]
      rfl
    | some e =>
      rw [lineVerdict_of_some h]
      by_cases hflag : e.IsFlagged
      · simp [hflag, Verdict.blocks, CheckedEntry.block]
      · simp [hflag, Verdict.blocks]

/-- A run goes by the verdicts on the numbered lines, from nothing counted. -/
theorem run_eq_runFrom (db : Database) (policy : Policy) (log : String) (limit : Option Nat) :
    run db policy log limit =
      runFrom policy ⟨.zero, limit⟩ ((Log.numberedLines log).map (lineVerdict db)) := by
  rw [run, Log.items, List.map_map]
  rfl

/-- An audit that skips failures completes, as no verdict ends it. -/
theorem run_skip_ok (db : Database) (log : String) :
    ∃ summary, (run db .skip log none).result = .ok summary := by
  rw [run_eq_runFrom, runFrom_of_goesOn (fun v _ => goesOn_skip v) (takes_none _)]
  exact ⟨_, rfl⟩

/-- A completed run with an output without a limit, by the reading of its log. -/
theorem run_of_ok {db : Database} {policy : Policy} {log : String} {summary : Summary}
    (h : (run db policy log none).result = .ok summary) :
    (run db policy log none).written =
        (flaggedEntries db (Log.numberedLines log)).map CheckedEntry.block ∧
      summary =
        { entries := (checkedEntries db (Log.numberedLines log)).length
          flagged := (flaggedEntries db (Log.numberedLines log)).length
          skipped := failures db (Log.numberedLines log)
          scannedTables :=
            (flaggedEntries db (Log.numberedLines log)).foldl CheckedEntry.addScans .empty } := by
  rw [run_eq_runFrom] at h ⊢
  obtain ⟨hrun, hsummary⟩ := runFrom_eq_of_ok h
  rw [foldl_record_lineVerdict] at hsummary
  -- the summary is the fold from nothing
  refine ⟨?_, by simpa [Summary.zero] using hsummary⟩
  rw [hrun]
  exact flatMap_blocks_lineVerdict db _

/-- A run that completes has counted every line that is not blank once, as a checked entry or as a
failure, and has written the blocks of the flagged entries, one after the other. -/
theorem run_reads_log {db : Database} {policy : Policy} {log : String} {summary : Summary}
    (h : (run db policy log none).result = .ok summary) :
    summary.entries = (checkedEntries db (Log.numberedLines log)).length ∧
      summary.skipped = failures db (Log.numberedLines log) ∧
      summary.entries + summary.skipped =
        ((lines log.toList).filter (!·.all isBlank)).length ∧
      summary.flagged = (flaggedEntries db (Log.numberedLines log)).length ∧
      (run db policy log none).output =
        String.join ((flaggedEntries db (Log.numberedLines log)).map fun e =>
          Report.block e.entry e.rows) := by
  obtain ⟨hwritten, rfl⟩ := run_of_ok h
  refine ⟨rfl, rfl, ?_, rfl, ?_⟩
  · rw [← length_numberedLines]
    exact length_checkedEntries_add_failures db _
  · rw [Run.output, hwritten]
    rfl

/-- A database with a query that reads a table twice and one that looks a row up. -/
def sampleDatabase : Database where
  path := none
  session text :=
    if text = Database.explainText "q" then
      .ok ⟨0, fun _ => [.ok ⟨3, 0, 0, "SCAN t"⟩, .ok ⟨5, 3, 0, "SCAN t"⟩]⟩
    else .ok ⟨0, fun _ => [.ok ⟨2, 0, 0, "SEARCH t USING INDEX i (a=?)"⟩]⟩

def sampleLog : String :=
  "Query: q was executed 2 times\n\nbroken\n" ++
    "Query: r was executed 7 times\nQuery: q was executed 3 times"

/-- Two lines have the same query, and one line is no entry. -/
theorem checkedEntries_sampleLog :
    checkedEntries sampleDatabase (Log.numberedLines sampleLog) =
      [⟨⟨1, "q", 2⟩, [⟨3, 0, 0, "SCAN t"⟩, ⟨5, 3, 0, "SCAN t"⟩]⟩,
        ⟨⟨4, "r", 7⟩, [⟨2, 0, 0, "SEARCH t USING INDEX i (a=?)"⟩]⟩,
        ⟨⟨5, "q", 3⟩, [⟨3, 0, 0, "SCAN t"⟩, ⟨5, 3, 0, "SCAN t"⟩]⟩] := by
  decide +kernel

/-- The query in between looks a row up. -/
theorem flaggedEntries_sampleLog :
    flaggedEntries sampleDatabase (Log.numberedLines sampleLog) =
      [⟨⟨1, "q", 2⟩, [⟨3, 0, 0, "SCAN t"⟩, ⟨5, 3, 0, "SCAN t"⟩]⟩,
        ⟨⟨5, "q", 3⟩, [⟨3, 0, 0, "SCAN t"⟩, ⟨5, 3, 0, "SCAN t"⟩]⟩] := by
  rw [flaggedEntries, checkedEntries_sampleLog]
  decide +kernel

/-- The blank line counts for nothing. -/
theorem run_reads_log_sample :
    ∃ summary, (run sampleDatabase .skip sampleLog none).result = .ok summary ∧
      summary.entries = 3 ∧ summary.skipped = 1 ∧ summary.flagged = 2 ∧
      (run sampleDatabase .skip sampleLog none).output =
        "Query with SCAN: q is executed times: 2\n" ++
          "2 [(3, 0, 0, 'SCAN t'), (5, 3, 0, 'SCAN t')]\n\n" ++
          "Query with SCAN: q is executed times: 3\n" ++
          "3 [(3, 0, 0, 'SCAN t'), (5, 3, 0, 'SCAN t')]\n\n" := by
  obtain ⟨summary, h⟩ := run_skip_ok sampleDatabase sampleLog
  obtain ⟨hentries, hskipped, _, hflagged, houtput⟩ := run_reads_log h
  rw [checkedEntries_sampleLog] at hentries
  rw [flaggedEntries_sampleLog] at hflagged houtput
  have hfailures : failures sampleDatabase (Log.numberedLines sampleLog) = 1 := by
    decide +kernel
  refine ⟨summary, h, hentries, hskipped.trans hfailures, hflagged, ?_⟩
  rw [houtput]
  decide +kernel

end ScanAudit.Audit
