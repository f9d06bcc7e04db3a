import ScanAudit.Proofs.Audit.Reading
import ScanAudit.Proofs.Log.Grammar
import ScanAudit.Proofs.Report.Blocks

/-!
# What a report tells

The report of an audit is three lines for each flagged entry, as no query of a log and no plan holds
a line feed in its text. So the flagged entries can be read from the report, up to the lines of the
log that they were on.

* `CheckedEntry.reported` — what a report tells of an entry
* `newline_not_mem_query` — the query of a checked entry is on one line
* `reported_eq_of_reportLines_eq` — entries with the same lines in a report
* `run_report_determines` — the reports of completed audits
-/

namespace ScanAudit.Audit

open Explain Text

namespace CheckedEntry

/-- The query, the count and the plan of an entry. -/
def reported (e : CheckedEntry) : String × Nat × List Row :=
  (e.entry.query, e.entry.executions, e.rows)

def reportLines (e : CheckedEntry) : List (List Char) :=
  Report.blockLines e.entry e.rows

/-- Also the empty line at the end belongs to a block. -/
theorem length_reportLines (e : CheckedEntry) : e.reportLines.length = 3 := rfl

end CheckedEntry

/-- The query is a part of its line, and a line has no line feed in it. -/
theorem newline_not_mem_query (db : Database) (log : String) :
    ∀ e ∈ flaggedEntries db (Log.numberedLines log), '\n' ∉ e.entry.query.toList := by
  intro e h
  obtain ⟨⟨line, n⟩, hmem, hline⟩ := List.mem_filterMap.mp (List.mem_filter.mp h).1
  have hplace : line ∈ lines log.toList :=
    List.fst_mem_of_mem_zipIdx (List.mem_filter.mp hmem).1
  have hread := (Log.readLine_eq_ok_iff.mp (checkedLine?_eq_some_iff.mp hline).1).2
  rw [String.toList_ofList, Log.readFields_eq_ok_iff] at hread
  -- a line feed in the query would be one in the line
  intro hnewline
  exact newline_not_mem_of_mem_lines hplace
    (dropReturn_subset line (hread.query_subset hnewline))

/-! ## The lines of a report -/

/-- A report is its lines, each with a line feed behind it. -/
theorem toList_join_blocks (entries : List CheckedEntry) :
    (String.join (entries.map CheckedEntry.block)).toList =
      (entries.flatMap CheckedEntry.reportLines).flatMap (· ++ ['\n']) := by
  have hblock : (fun e : CheckedEntry => e.block.toList) =
      fun e => e.reportLines.flatMap (· ++ ['\n']) :=
    funext fun e => Report.toList_block e.entry e.rows
  rw [String.toList_join, List.flatMap_map, hblock, List.flatMap_assoc]

theorem flatMap_reportLines_cons (e : CheckedEntry) (entries : List CheckedEntry) :
    (e :: entries).flatMap CheckedEntry.reportLines =
      (Report.header e.entry).toList :: (Report.planLine e.entry e.rows).toList :: [] ::
        entries.flatMap CheckedEntry.reportLines := rfl

theorem length_flatMap_reportLines (entries : List CheckedEntry) :
    (entries.flatMap CheckedEntry.reportLines).length = 3 * entries.length := by
  induction entries with
  | nil => rfl
  | cons e entries ih =>
    simp only [flatMap_reportLines_cons, List.length_cons, ih]
    omega

/-- If no query has a line feed, no line of the report has one inside. -/
theorem newline_not_mem_reportLines {entries : List CheckedEntry}
    (h : ∀ e ∈ entries, '\n' ∉ e.entry.query.toList) :
    ∀ line ∈ entries.flatMap CheckedEntry.reportLines, '\n' ∉ line := by
  intro line hline
  obtain ⟨e, he, hline⟩ := List.mem_flatMap.mp hline
  exact Report.newline_not_mem_blockLines (h e he) e.rows line hline

/-- Every third line is empty, and no other. -/
theorem eq_nil_iff_of_getElem? {entries : List CheckedEntry} {i : Nat}
    {line : List Char} (h : (entries.flatMap CheckedEntry.reportLines)[i]? = some line) :
    line = [] ↔ i % 3 = 2 := by
  induction entries generalizing i with
  | nil => cases h
  | cons e entries ih =>
    rw [flatMap_reportLines_cons] at h
    rcases i with _ | _ | _ | i
    · -- the header
      simp only [List.getElem?_cons_zero, Option.some.injEq] at h
      exact h ▸ iff_of_false (Report.header_ne_nil e.entry) (by decide)
    · simp only [List.getElem?_cons_succ, List.getElem?_cons_zero, Option.some.injEq] at h
      -- the plan is not empty either, as it begins with the count
      exact h ▸ iff_of_false (Report.planLine_ne_nil e.entry e.rows) (by decide)
    · simp only [List.getElem?_cons_succ, List.getElem?_cons_zero, Option.some.injEq] at h
      exact h ▸ iff_of_true rfl rfl
    · -- the other entries begin three lines further down
      simp only [List.getElem?_cons_succ] at h
      rw [ih h]
      omega

/-- The lines of a report determine what it tells. By induction on both lists side by side: each
entry takes three lines, so that the first ones can be compared and taken off. -/
theorem reported_eq_of_reportLines_eq {entries entries' : List CheckedEntry}
    (h : entries.flatMap CheckedEntry.reportLines = entries'.flatMap CheckedEntry.reportLines) :
    entries.map CheckedEntry.reported = entries'.map CheckedEntry.reported := by
  induction entries generalizing entries' with
  | nil =>
    cases entries' with
    | nil => rfl
    | cons e' entries' => cases h
  | cons e entries ih =>
    cases entries' with
    | nil => cases h
    | cons e' entries' =>
      -- each of the two begins with the lines of one entry
      rw [List.flatMap_cons, List.flatMap_cons] at h
      have hlength : e.reportLines.length = e'.reportLines.length := by
        rw [CheckedEntry.length_reportLines, CheckedEntry.length_reportLines]
      obtain ⟨hfirst, hlater⟩ := List.append_inj h hlength
      obtain ⟨hquery, hcount, hrows⟩ := Report.blockLines_inj hfirst
      rw [List.map_cons, List.map_cons, ih hlater, CheckedEntry.reported, hquery, hcount, hrows,
        CheckedEntry.reported]

/-! ## The report of a completed audit -/

/-- The report of a completed run is the lines of its flagged entries. -/
theorem toList_output_of_ok {db : Database} {policy : Policy} {log : String} {summary : Summary}
    (h : (run db policy log none).result = .ok summary) :
    (run db policy log none).output.toList =
      ((flaggedEntries db (Log.numberedLines log)).flatMap CheckedEntry.reportLines).flatMap
        (· ++ ['\n']) := by
  rw [Run.output, (run_of_ok h).1, toList_join_blocks]

/-- If two completed audits have the same report, they flag the same queries with the same counts
and plans, in the same order. A report is three lines for each flagged entry, and every third of
them is empty, and no other. -/
theorem run_report_determines {db db' : Database} {policy policy' : Policy} {log log' : String}
    {summary summary' : Summary} (h : (run db policy log none).result = .ok summary)
    (h' : (run db' policy' log' none).result = .ok summary') :
    ((run db policy log none).output = (run db' policy' log' none).output →
        (flaggedEntries db (Log.numberedLines log)).map CheckedEntry.reported =
          (flaggedEntries db' (Log.numberedLines log')).map CheckedEntry.reported) ∧
      ∃ ls : List (List Char),
        (run db policy log none).output.toList = ls.flatMap (· ++ ['\n']) ∧
        ls.length = 3 * summary.flagged ∧
        ∀ (i : Nat) (line : List Char), ls[i]? = some line →
          '\n' ∉ line ∧ (line = [] ↔ i % 3 = 2) := by
  have hnewline := newline_not_mem_reportLines (newline_not_mem_query db log)
  constructor
  · -- no line has a line feed inside, so that the texts have the same lines
    intro hsame
    have htext := congrArg String.toList hsame
    rw [toList_output_of_ok h, toList_output_of_ok h'] at htext
    have hnewline' := newline_not_mem_reportLines (newline_not_mem_query db' log')
    exact reported_eq_of_reportLines_eq (eq_of_flatMap_eq hnewline hnewline' htext)
  · refine ⟨_, toList_output_of_ok h, ?_, fun i line hline => ⟨?_, ?_⟩⟩
    · rw [length_flatMap_reportLines, (run_of_ok h).2]
    · exact hnewline line (List.mem_of_getElem? hline)
    · exact eq_nil_iff_of_getElem? hline

/-- The same queries, on other lines and with the count in another form. -/
def restatedLog : String :=
  "Query: q was executed 2 times\n\n\nQuery: q was executed +03 times\r\n"

/-- Two logs with the same report, and with the same flagged entries up to their places. -/
theorem run_report_determines_sample :
    (flaggedEntries sampleDatabase (Log.numberedLines sampleLog)).map CheckedEntry.reported =
        (flaggedEntries sampleDatabase (Log.numberedLines restatedLog)).map
          CheckedEntry.reported ∧
      ∃ ls : List (List Char),
        (run sampleDatabase .skip sampleLog none).output.toList = ls.flatMap (· ++ ['\n']) ∧
          ls.length = 6 := by
  obtain ⟨summary, h⟩ := run_skip_ok sampleDatabase sampleLog
  obtain ⟨summary', h'⟩ := run_skip_ok sampleDatabase restatedLog
  obtain ⟨hentries, ls, houtput, hlength, -⟩ := run_report_determines h h'
  refine ⟨hentries ?_, ls, houtput, ?_⟩
  · rw [Run.output, Run.output, (run_of_ok h).1, (run_of_ok h').1, flaggedEntries_sampleLog]
    decide +kernel
  · rw [hlength, (run_of_ok h).2, flaggedEntries_sampleLog]
    rfl

end ScanAudit.Audit
