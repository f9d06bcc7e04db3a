import ScanAudit.Proofs.Audit.Reading
import ScanAudit.Proofs.Report.Fit

/-!
# Runs with a limited output

An output with a limit changes a run only where the limit is passed: in the block that has no more
room as a whole. Up to that block the run is the one without a limit, and there it ends, under
either policy, with as much of the block as fits.

* `runFrom_of_takes` — a run whose report fits
* `exists_cut` — else there is a block that has no room
* `runFrom_cut` — the run that ends in this block
* `toList_output_runFrom` — in both cases the report is what fits of the one without a limit
* `PassesAt` — an audit passes its limit at a line, and ends there
* `run_limit` — an audit with a limit
-/

namespace ScanAudit.Audit

open Explain

/-- A run does not notice a limit that its report keeps to, whether it completes or stops. -/
theorem runFrom_of_takes {policy : Policy} {summary : Summary} {verdicts : List Verdict}
    {room : Option Nat}
    (h : Takes room (runFrom policy ⟨summary, none⟩ verdicts).output.utf8ByteSize) :
    runFrom policy ⟨summary, room⟩ verdicts = runFrom policy ⟨summary, none⟩ verdicts := by
  rcases goesOn_or_stops policy verdicts with hall | ⟨rfl, before, error, after, rfl, hbefore⟩
  · -- the run completes
    rw [runFrom_of_goesOn hall (takes_none _)] at h ⊢
    exact runFrom_of_goesOn hall h summary
  · -- the run stops at a failed entry, before or behind which nothing is cut
    rw [runFrom_stop hbefore (takes_none _)] at h ⊢
    exact runFrom_stop hbefore h summary error after

/-! ## The block without room -/

/-- A report that is longer than a limit passes it in the block of one of its entries. -/
theorem exists_block_of_lt {verdicts : List Verdict} {limit : Nat}
    (h : limit < (report verdicts).utf8ByteSize) :
    ∃ before entry rows after, verdicts = before ++ .flagged entry rows :: after ∧
      (report before).utf8ByteSize ≤ limit ∧
      limit < (report before).utf8ByteSize + (Report.block entry rows).utf8ByteSize := by
  induction verdicts generalizing limit with
  | nil => exact absurd h (Nat.not_lt_zero limit)
  | cons v verdicts ih =>
    rw [report_cons, String.utf8ByteSize_append] at h
    by_cases hfirst : limit < (report [v]).utf8ByteSize
    · -- only a flagged entry has a block at all
      cases v with
      | failed error => exact absurd hfirst (Nat.not_lt_zero limit)
      | clean entry => exact absurd hfirst (Nat.not_lt_zero limit)
      | flagged entry rows =>
        rw [report_flagged] at hfirst
        exact ⟨[], entry, rows, verdicts, rfl, Nat.zero_le _, by simpa [report_nil] using hfirst⟩
    · have hrest : limit - (report [v]).utf8ByteSize < (report verdicts).utf8ByteSize := by
        -- what is left of the limit behind the first verdict is passed later
        omega
      obtain ⟨before, entry, rows, after, rfl, hle, hlt⟩ := ih hrest
      refine ⟨v :: before, entry, rows, after, rfl, ?_, ?_⟩
      · rw [report_cons, String.utf8ByteSize_append]
        omega
      · rw [report_cons, String.utf8ByteSize_append]
        omega

/-- The block in which a run passes a limit: the run goes on at all verdicts before it. -/
theorem exists_cut {policy : Policy} {summary : Summary} {verdicts : List Verdict} {limit : Nat}
    (h : limit < (runFrom policy ⟨summary, none⟩ verdicts).output.utf8ByteSize) :
    ∃ before entry rows after later, verdicts = before ++ .flagged entry rows :: after ∧
      (∀ v ∈ before, GoesOn policy v) ∧ (report before).utf8ByteSize ≤ limit ∧
      limit < (report before).utf8ByteSize + (Report.block entry rows).utf8ByteSize ∧
      (runFrom policy ⟨summary, none⟩ verdicts).output =
        report before ++ Report.block entry rows ++ later := by
  -- first the verdicts that the run goes on at, which alone have written the report
  obtain ⟨replayed, rest, rfl, hgoes, houtput⟩ : ∃ replayed rest, verdicts = replayed ++ rest ∧
      (∀ v ∈ replayed, GoesOn policy v) ∧
      (runFrom policy ⟨summary, none⟩ verdicts).output = report replayed := by
    rcases goesOn_or_stops policy verdicts with hall | ⟨rfl, before, error, after, rfl, hbefore⟩
    · exact ⟨verdicts, [], (List.append_nil _).symm, hall,
        by rw [runFrom_of_goesOn hall (takes_none _)]; rfl⟩
    · exact ⟨before, .failed error :: after, rfl, hbefore,
        by rw [runFrom_stop hbefore (takes_none _)]; rfl⟩
  rw [houtput] at h
  -- among them there is the one whose block has no room
  obtain ⟨before, entry, rows, after, rfl, hle, hlt⟩ := exists_block_of_lt h
  refine ⟨before, entry, rows, after ++ rest, report after, by simp, ?_, hle, hlt, ?_⟩
  · exact fun v hv => hgoes v (List.mem_append_left _ hv)
  · rw [houtput, report_append, report_cons, report_flagged, String.append_assoc]

/-- A run ends in the block that has no room. What comes behind it has no part in the run. -/
theorem runFrom_cut {policy : Policy} {before : List Verdict} {limit : Nat} {entry : Log.Entry}
    {rows : List Row} (hgoes : ∀ v ∈ before, GoesOn policy v)
    (hle : (report before).utf8ByteSize ≤ limit)
    (hlt : limit < (report before).utf8ByteSize + (Report.block entry rows).utf8ByteSize)
    (summary : Summary) (after : List Verdict) :
    runFrom policy ⟨summary, some limit⟩ (before ++ .flagged entry rows :: after) =
      ⟨before.flatMap Verdict.blocks ++ [String.ofList (Report.fit
          (limit - (report before).utf8ByteSize) (Report.block entry rows).toList)],
        before.flatMap Verdict.events, .error (.stream .full)⟩ := by
  have hfull : ¬(Report.block entry rows).utf8ByteSize ≤
      limit - (report before).utf8ByteSize := by omega
  rw [runFrom_append hgoes (takes_some_iff.mpr hle)]
  simp [runFrom, State.advance, Report.deliver, hfull, recover_stream, Run.after]

/-- The report of a run with a limit is what fits of the report without one. -/
theorem toList_output_runFrom (policy : Policy) (summary : Summary) (verdicts : List Verdict)
    (limit : Nat) :
    (runFrom policy ⟨summary, some limit⟩ verdicts).output.toList =
      Report.fit limit (runFrom policy ⟨summary, none⟩ verdicts).output.toList := by
  by_cases h : (runFrom policy ⟨summary, none⟩ verdicts).output.utf8ByteSize ≤ limit
  · -- a report that fits is all there
    rw [runFrom_of_takes (takes_some_iff.mpr h), Report.fit_of_le]
    rwa [String.ofList_toList]
  · -- the blocks before are whole, and what is left of the limit cuts the next one
    obtain ⟨before, entry, rows, after, later, rfl, hgoes, hle, hlt, houtput⟩ :=
      exists_cut (Nat.not_le.mp h)
    have hkept : (String.ofList (report before).toList).utf8ByteSize ≤ limit := by
      rwa [String.ofList_toList]
    have hblock : limit - (report before).utf8ByteSize <
        (String.ofList (Report.block entry rows).toList).utf8ByteSize := by
      rw [String.ofList_toList]
      omega
    rw [runFrom_cut hgoes hle hlt, houtput, String.append_assoc, String.toList_append,
      String.toList_append, Report.fit_append hkept, String.ofList_toList,
      Report.fit_append_of_lt hblock, Run.output, String.join_append, String.toList_append]
    simp [report, String.join]

/-! ## Audits with a limit -/

/-- Two databases give the same answer to the query of a line, if it has one. -/
def SameCheck (db db' : Database) (line : List Char × Nat) : Prop :=
  ∀ entry, Log.readLine line.2 (String.ofList line.1) = .ok entry →
    db'.check entry.query = db.check entry.query

/-- A database has a part in the verdict on a line only by its answer to that one query. -/
theorem SameCheck.lineVerdict_eq {db db' : Database} {line : List Char × Nat}
    (h : SameCheck db db' line) : lineVerdict db' line = lineVerdict db line := by
  unfold lineVerdict verdict
  cases hline : Log.readLine line.2 (String.ofList line.1) with
  | error bad => rfl
  | ok entry => simp only [h entry hline]

/-- An audit passes the limit in the block of this line: it goes on at all lines before, their
blocks have room, and the block of this line has not. -/
structure PassesAt (db : Database) (policy : Policy) (limit : Nat)
    (before : List (List Char × Nat)) (line : List Char × Nat) (e : CheckedEntry) : Prop where
  checked : checkedLine? db line = some e
  flagged : e.IsFlagged
  goesOn : ∀ v ∈ before.map (lineVerdict db), GoesOn policy v
  room : (report (before.map (lineVerdict db))).utf8ByteSize ≤ limit
  full : limit < (report (before.map (lineVerdict db))).utf8ByteSize +
    (Report.block e.entry e.rows).utf8ByteSize

/-- A report that is too long passes its limit at the line of some flagged entry: `exists_cut`, read
back from verdicts to lines. -/
theorem exists_passesAt {db : Database} {policy : Policy} {log : String} {limit : Nat}
    (h : limit < (run db policy log none).output.utf8ByteSize) :
    ∃ before line after e, Log.numberedLines log = before ++ line :: after ∧
      PassesAt db policy limit before line e := by
  rw [run_eq_runFrom] at h
  obtain ⟨before, entry, rows, after, later, hverdicts, hgoes, hle, hlt, -⟩ := exists_cut h
  obtain ⟨before, rest, hlines, rfl, hrest⟩ := List.map_eq_append_iff.mp hverdicts
  obtain ⟨line, after, rfl, hline, rfl⟩ := List.map_eq_cons_iff.mp hrest
  cases hchecked : checkedLine? db line with
  | none =>
    -- a line that is no entry has no block
    obtain ⟨error, hfailed, -⟩ := lineVerdict_of_none hchecked
    rw [hfailed] at hline
    cases hline
  | some e =>
    rw [lineVerdict_of_some hchecked] at hline
    split at hline
    · next hflag =>
      cases hline
      exact ⟨before, line, after, e, hlines, hchecked, hflag, hgoes, hle, hlt⟩
    · -- neither has an entry that is not flagged
      cases hline

/-- Every audit of a log that begins with these lines, with a database that gives the same answers
to their queries, ends in the block of the last of them. -/
theorem PassesAt.run_eq {db db' : Database} {policy : Policy} {limit : Nat}
    {before after : List (List Char × Nat)} {line : List Char × Nat} {e : CheckedEntry}
    {log : String} (h : PassesAt db policy limit before line e)
    (hlog : Log.numberedLines log = before ++ line :: after)
    (hsame : ∀ l ∈ before ++ [line], SameCheck db db' l) :
    run db' policy log (some limit) =
      ⟨(before.map (lineVerdict db)).flatMap Verdict.blocks ++ [String.ofList (Report.fit
          (limit - (report (before.map (lineVerdict db))).utf8ByteSize)
          (Report.block e.entry e.rows).toList)],
        (before.map (lineVerdict db)).flatMap Verdict.events, .error (.stream .full)⟩ := by
  -- up to this line the two runs have the same verdicts
  have hbefore : before.map (lineVerdict db') = before.map (lineVerdict db) :=
    List.map_congr_left fun l hl => (hsame l (List.mem_append_left _ hl)).lineVerdict_eq
  have hline : lineVerdict db' line = .flagged e.entry e.rows := by
    rw [(hsame line (by simp)).lineVerdict_eq, lineVerdict_of_some h.checked, if_pos h.flagged]
  rw [run_eq_runFrom, hlog, List.map_append, List.map_cons, hbefore, hline]
  exact runFrom_cut h.goesOn h.room h.full .zero _

/-- An audit with a limit that stands between two characters of its unlimited report writes exactly
the first bytes of that report. If the report keeps to the limit, the two runs are one. Else the run
ends with the fault of the output, under either policy, in the block of some flagged entry: it tells
of the lines before this entry and of no other, and neither the log behind it nor what the database
says to later queries has a part in the run. -/
theorem run_limit {db : Database} {policy : Policy} {log : String} {limit : Nat}
    (hplace : (⟨min limit (run db policy log none).output.utf8ByteSize⟩ :
      String.Pos.Raw).IsValid (run db policy log none).output) :
    (run db policy log (some limit)).output.toByteArray =
        (run db policy log none).output.toByteArray.extract 0
          (min limit (run db policy log none).output.utf8ByteSize) ∧
      ((run db policy log none).output.utf8ByteSize ≤ limit →
        run db policy log (some limit) = run db policy log none) ∧
      (limit < (run db policy log none).output.utf8ByteSize →
        (run db policy log (some limit)).result = .error (.stream .full) ∧
        ∃ before line after e, Log.numberedLines log = before ++ line :: after ∧
          checkedLine? db line = some e ∧ e.IsFlagged ∧
          (run db policy log (some limit)).events =
            (before.map (lineVerdict db)).flatMap Verdict.events ∧
          ∀ db' log' after', Log.numberedLines log' = before ++ line :: after' →
            (∀ l ∈ before ++ [line], SameCheck db db' l) →
            run db' policy log' (some limit) = run db policy log (some limit)) := by
  refine ⟨?_, ?_, ?_⟩
  · -- at a place between two characters, the bytes that fit are the characters that fit
    rw [← Report.toByteArray_fit hplace, run_eq_runFrom, run_eq_runFrom, ← toList_output_runFrom,
      String.ofList_toList]
  · intro h
    rw [run_eq_runFrom] at h ⊢
    rw [run_eq_runFrom]
    exact runFrom_of_takes (takes_some_iff.mpr h)
  · intro h
    obtain ⟨before, line, after, e, hlines, hpasses⟩ := exists_passesAt h
    have hthis := hpasses.run_eq hlines fun _ _ _ _ => rfl
    rw [hthis]
    refine ⟨rfl, before, line, after, e, hlines, hpasses.checked, hpasses.flagged, rfl, ?_⟩
    -- another log and database take no part from the next line on
    intro db' log' after' hlog' hsame
    exact hpasses.run_eq hlog' hsame

/-- The report without a limit. -/
theorem output_sampleLog :
    (run sampleDatabase .skip sampleLog none).output =
      "Query with SCAN: q is executed times: 2\n" ++
        "2 [(3, 0, 0, 'SCAN t'), (5, 3, 0, 'SCAN t')]\n\n" ++
        "Query with SCAN: q is executed times: 3\n" ++
        "3 [(3, 0, 0, 'SCAN t'), (5, 3, 0, 'SCAN t')]\n\n" := by
  obtain ⟨summary, h⟩ := run_skip_ok sampleDatabase sampleLog
  rw [Run.output, (run_of_ok h).1, flaggedEntries_sampleLog]
  decide +kernel

/-- The limit is passed in the second block, behind a line that is skipped. -/
theorem run_limit_sample :
    (run sampleDatabase .skip sampleLog (some 112)).output =
        "Query with SCAN: q is executed times: 2\n" ++
          "2 [(3, 0, 0, 'SCAN t'), (5, 3, 0, 'SCAN t')]\n\n" ++
          "Query with SCAN: q is exec" ∧
      (run sampleDatabase .skip sampleLog (some 112)).result = .error (.stream .full) := by
  have hplace : (⟨min 112 (run sampleDatabase .skip sampleLog none).output.utf8ByteSize⟩ :
      String.Pos.Raw).IsValid (run sampleDatabase .skip sampleLog none).output := by
    rw [output_sampleLog]
    decide +kernel
  obtain ⟨hbytes, _, hfull⟩ := run_limit hplace
  constructor
  · rw [output_sampleLog] at hbytes
    rw [← String.toByteArray_inj, hbytes]
    decide +kernel
  · have hlt : 112 < (run sampleDatabase .skip sampleLog none).output.utf8ByteSize := by
      rw [output_sampleLog]
      decide +kernel
    exact (hfull hlt).1

end ScanAudit.Audit
