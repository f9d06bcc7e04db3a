import ScanAudit.Proofs.Audit.Reading

/-!
# Stopping and skipping

An audit that skips failed entries and one that stops at the first of them do the same up to there.
From the first failed entry on, the one that stops adds nothing, so its report is a beginning of the
other's.

* `checked_or_firstFailure` — all lines are checked entries, or one is the first that is not
* `run_stop_of_allChecked`, `run_stop_of_firstFailure` — an audit that stops, in these two cases
* `findSome?_skipped_run_skip` — what an audit that goes on skips first
* `run_stop_ok_iff`, `exists_output_run_skip_eq` — when an audit that stops completes, and how its
  report begins the other
* `run_stop_agrees_run_skip` — the two audits of a log
-/

namespace ScanAudit.Audit

open Explain

/-- The error that an event says was skipped. -/
def Event.skipped? : Event → Option AuditError
  | .skipping error => some error
  | _ => none

/-! ## The first failure -/

/-- Every line is a checked entry. -/
def AllChecked (db : Database) (lines : List (List Char × Nat)) : Prop :=
  ∀ line ∈ lines, ∃ e, checkedLine? db line = some e

/-- Either case tells how far an audit that stops comes. -/
theorem checked_or_firstFailure (db : Database) (lines : List (List Char × Nat)) :
    AllChecked db lines ∨ ∃ before line after, lines = before ++ line :: after ∧
      AllChecked db before ∧ checkedLine? db line = none := by
  have hcases := forall_or_exists_first (fun line => ∃ e, checkedLine? db line = some e) lines
  simpa [AllChecked, ← Option.eq_none_iff_forall_ne_some] using hcases

/-- A checked entry ends no audit, flagged or not. -/
theorem goesOn_of_allChecked {db : Database} {lines : List (List Char × Nat)}
    (h : AllChecked db lines) (policy : Policy) :
    ∀ v ∈ lines.map (lineVerdict db), GoesOn policy v := by
  intro v hv
  obtain ⟨line, hline, rfl⟩ := List.mem_map.mp hv
  obtain ⟨e, he⟩ := h line hline
  rw [lineVerdict_of_some he]
  -- clean or flagged
  split <;> trivial

/-- Nothing is skipped on the way through checked entries. -/
theorem skipped?_eq_none_of_allChecked {db : Database} {lines : List (List Char × Nat)}
    (h : AllChecked db lines) :
    ∀ event ∈ (lines.map (lineVerdict db)).flatMap Verdict.events, event.skipped? = none := by
  intro event hevent
  obtain ⟨v, hv, hevent⟩ := List.mem_flatMap.mp hevent
  obtain ⟨line, hline, rfl⟩ := List.mem_map.mp hv
  obtain ⟨e, he⟩ := h line hline
  rw [lineVerdict_of_some he] at hevent
  split at hevent
  · -- a flagged entry tells of its tables, or that they are not known
    rw [List.mem_singleton.mp hevent, attribution]
    split <;> rfl
  · -- an entry that is not flagged tells nothing
    cases hevent

/-- The count of skipped lines tells whether there are any. -/
theorem failures_eq_zero_iff {db : Database} {lines : List (List Char × Nat)} :
    failures db lines = 0 ↔ AllChecked db lines := by
  simp [failures, AllChecked, List.countP_eq_zero, Option.ne_none_iff_exists']

/-! ## The two audits -/

/-- An audit that goes on writes the blocks of all flagged entries. -/
theorem written_run_skip (db : Database) (log : String) :
    (run db .skip log none).written =
      (flaggedEntries db (Log.numberedLines log)).map CheckedEntry.block := by
  obtain ⟨summary, h⟩ := run_skip_ok db log
  exact (run_of_ok h).1

/-- Where nothing fails, the policy makes no difference. -/
theorem run_stop_of_allChecked {db : Database} {log : String}
    (h : AllChecked db (Log.numberedLines log)) :
    run db .stop log none = run db .skip log none := by
  rw [run_eq_runFrom, run_eq_runFrom,
    runFrom_of_goesOn (goesOn_of_allChecked h .stop) (takes_none _),
    runFrom_of_goesOn (goesOn_of_allChecked h .skip) (takes_none _)]

section FirstFailure

variable {db : Database} {log : String} {before after : List (List Char × Nat)}
  {line : List Char × Nat} {error : EntryError}

/-- An audit that stops has done with the lines before the first that fails what any audit does with
them, and ends with the error of that line. -/
theorem run_stop_of_firstFailure (hlines : Log.numberedLines log = before ++ line :: after)
    (hbefore : AllChecked db before) (hline : lineVerdict db line = .failed error) :
    run db .stop log none =
      ⟨(flaggedEntries db before).map CheckedEntry.block,
        (before.map (lineVerdict db)).flatMap Verdict.events, .error (.entry error)⟩ := by
  rw [run_eq_runFrom, hlines, List.map_append, List.map_cons, hline,
    runFrom_stop (goesOn_of_allChecked hbefore .stop) (takes_none _), flatMap_blocks_lineVerdict]

/-- The first event of a skipped entry is that of the first failure: the lines before it tell of
scans only. -/
theorem findSome?_skipped_run_skip (hlines : Log.numberedLines log = before ++ line :: after)
    (hbefore : AllChecked db before) (hline : lineVerdict db line = .failed error) :
    (run db .skip log none).events.findSome? Event.skipped? = some (.entry error) := by
  have hnone := List.findSome?_eq_none_iff.mpr (skipped?_eq_none_of_allChecked hbefore)
  rw [run_eq_runFrom, hlines, List.map_append, List.map_cons, hline,
    runFrom_of_goesOn (fun v _ => goesOn_skip v) (takes_none _)]
  -- the events before are passed over, and the next is the one of the failure
  simp [List.findSome?_append, List.findSome?_cons, hnone, Verdict.events, Event.skipped?]

end FirstFailure

/-- Such an audit completes only if no line fails: a first one that does ends it. -/
theorem run_stop_ok_iff {db : Database} {log : String} :
    (∃ final, (run db .stop log none).result = .ok final) ↔
      AllChecked db (Log.numberedLines log) := by
  constructor
  · rintro ⟨final, hfinal⟩
    rcases checked_or_firstFailure db (Log.numberedLines log) with
      hall | ⟨before, line, after, hlines, hbefore, hline⟩
    · exact hall
    · -- the audit has stopped at this line, so that it has no summary
      obtain ⟨error, hverdict, -⟩ := lineVerdict_of_none hline
      rw [run_stop_of_firstFailure hlines hbefore hverdict] at hfinal
      cases hfinal
  · intro hall
    rw [run_stop_of_allChecked hall]
    exact run_skip_ok db log

/-- Its report is the beginning of the report of one that goes on. -/
theorem exists_output_run_skip_eq (db : Database) (log : String) :
    ∃ rest, (run db .skip log none).output = (run db .stop log none).output ++ rest := by
  rcases checked_or_firstFailure db (Log.numberedLines log) with
    hall | ⟨before, line, after, hlines, hbefore, hline⟩
  · -- there is nothing to add
    rw [run_stop_of_allChecked hall]
    exact ⟨"", by simp⟩
  · -- what one audit adds behind the first failure, the other leaves out
    obtain ⟨error, hverdict, -⟩ := lineVerdict_of_none hline
    refine ⟨String.join ((flaggedEntries db (line :: after)).map CheckedEntry.block), ?_⟩
    rw [run_stop_of_firstFailure hlines hbefore hverdict, Run.output, Run.output,
      written_run_skip, hlines, flaggedEntries_append, List.map_append, String.join_append]

/-- An audit that skips failed entries completes. The report of one that stops at the first of them
is a beginning of the other's report, and it completes if and only if nothing is skipped, with the
same summary and report then. Where it fails, its error is that of the first line that fails, which
is the first error that the other skips, and its report is that of the lines before. -/
theorem run_stop_agrees_run_skip (db : Database) (log : String) :
    ∃ summary, (run db .skip log none).result = .ok summary ∧
      (∃ rest, (run db .skip log none).output = (run db .stop log none).output ++ rest) ∧
      ((∃ final, (run db .stop log none).result = .ok final) ↔ summary.skipped = 0) ∧
      (summary.skipped = 0 → (run db .stop log none).result = .ok summary ∧
        (run db .stop log none).output = (run db .skip log none).output) ∧
      ∀ failure, (run db .stop log none).result = .error failure →
        ∃ before line after error, Log.numberedLines log = before ++ line :: after ∧
          (∀ l ∈ before, ∃ e, checkedLine? db l = some e) ∧ LineFails db line error ∧
          failure = .entry error ∧
          (run db .skip log none).events.findSome? Event.skipped? = some failure ∧
          (run db .stop log none).output =
            String.join ((flaggedEntries db before).map fun e => Report.block e.entry e.rows) := by
  obtain ⟨summary, hskip⟩ := run_skip_ok db log
  have hskipped : summary.skipped = 0 ↔ AllChecked db (Log.numberedLines log) := by
    -- the summary counts the lines that are no checked entry
    rw [(run_of_ok hskip).2]
    exact failures_eq_zero_iff
  refine ⟨summary, hskip, exists_output_run_skip_eq db log, ?_, ?_, ?_⟩
  · rw [run_stop_ok_iff, hskipped]
  · intro hzero
    rw [run_stop_of_allChecked (hskipped.mp hzero)]
    exact ⟨hskip, rfl⟩
  · intro failure hfailure
    rcases checked_or_firstFailure db (Log.numberedLines log) with
      hall | ⟨before, line, after, hlines, hbefore, hline⟩
    · -- an audit without a failed entry completes
      rw [run_stop_of_allChecked hall, hskip] at hfailure
      cases hfailure
    · -- the error of the audit is that of the first line that fails
      obtain ⟨error, hverdict, hfails⟩ := lineVerdict_of_none hline
      have hstop := run_stop_of_firstFailure hlines hbefore hverdict
      rw [hstop] at hfailure ⊢
      cases hfailure
      exact ⟨before, line, after, error, hlines, hbefore, hfails, rfl,
        findSome?_skipped_run_skip hlines hbefore hverdict, rfl⟩

end ScanAudit.Audit
