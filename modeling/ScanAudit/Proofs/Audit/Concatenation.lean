import ScanAudit.Proofs.Audit.Attribution
import ScanAudit.Proofs.Log.Numbering

/-!
# Audits of a log in two parts

A log that is cut between two lines can be audited in two runs. The second run starts from nothing
and numbers its lines from one, but neither changes what it does at a line: the audit of the whole
log writes what the two write, and counts what they count together.

* `Totals.IsSum`, `Summary.IsSum` — totals and a summary that add up two others
* `IsSum.record`, `IsSum.foldl_record` — one verdict, and several, keep that sum
* `Verdict.moved`, `verdict_moved` — verdicts on lines further down
* `runFrom_moved` — a run behind the lines of another
* `run_append_of_ok`, `run_append_of_error` — the audit of the whole log
* `run_append` — the audits of a log and its two parts
-/

namespace ScanAudit

/-- The error of a line that is so many lines further down. -/
def EntryError.moved (n : Nat) : EntryError → EntryError
  | .malformed line => .malformed (line.moved n)
  | .rejected query cause => .rejected query cause

/-- The error of an audit whose log begins so many lines further down. -/
def AuditError.moved (n : Nat) : AuditError → AuditError
  | .entry error => .entry (error.moved n)
  | error => error

namespace Audit

open Explain

/-! ## Sums -/

/-- A table has a total if it has one in either of the parts, and it is what they have together, in
64 bits as all totals. -/
def Totals.IsSum (whole first second : Totals) : Prop :=
  ∀ table, whole.get? table = (first.get? table).merge (· + ·) (second.get? table)

/-- The totals of the parts for more tables, each of them in the second. -/
theorem Totals.IsSum.addAll {whole first second : Totals} (h : whole.IsSum first second)
    {tables : List String} (hnodup : tables.Nodup) (n : UInt64) :
    (whole.addAll tables n).IsSum first (second.addAll tables n) := by
  intro table
  rw [get?_addAll hnodup, get?_addAll hnodup, h table]
  by_cases hmem : table ∈ tables
  · -- the table has a total in the first part, in the second, in both or in none
    rw [if_pos hmem, if_pos hmem]
    cases first.get? table with
    | none => cases second.get? table <;> rfl
    | some m =>
      cases second.get? table with
      | none => simp [Option.merge]
      | some k => simp [Option.merge, UInt64.add_assoc]
  · rw [if_neg hmem, if_neg hmem]

/-- A summary that adds up those of two parts. -/
structure Summary.IsSum (whole first second : Summary) : Prop where
  entries : whole.entries = first.entries + second.entries
  flagged : whole.flagged = first.flagged + second.flagged
  skipped : whole.skipped = first.skipped + second.skipped
  scannedTables : whole.scannedTables.IsSum first.scannedTables second.scannedTables

namespace Summary

theorem isSum_zero (first : Summary) : first.IsSum first .zero where
  entries := rfl
  flagged := rfl
  skipped := rfl
  scannedTables table := by
    show first.scannedTables.get? table = (first.scannedTables.get? table).merge (· + ·) none
    exact Option.merge_none_right.symm

/-- A verdict of the second part counts for the whole. -/
theorem IsSum.record {whole first second : Summary} (h : whole.IsSum first second) (v : Verdict) :
    (whole.record v).IsSum first (second.record v) := by
  obtain ⟨hentries, hflagged, hskipped, htables⟩ := h
  cases v with
  | failed error =>
    have hone : whole.skipped + 1 = first.skipped + (second.skipped + 1) := by omega
    exact ⟨hentries, hflagged, hone, htables⟩
  | clean entry =>
    have hone : whole.entries + 1 = first.entries + (second.entries + 1) := by omega
    exact ⟨hone, hflagged, hskipped, htables⟩
  | flagged entry rows =>
    -- the totals grow by the tables of the entry, each of them once
    have hone : whole.entries + 1 = first.entries + (second.entries + 1) := by omega
    have hflag : whole.flagged + 1 = first.flagged + (second.flagged + 1) := by omega
    exact ⟨hone, hflag, hskipped,
      htables.addAll (CheckedEntry.nodup_attribution entry rows) (.ofNat entry.executions)⟩

/-- By induction over the verdicts, as each of them keeps the sum. -/
theorem IsSum.foldl_record {whole first second : Summary} (h : whole.IsSum first second)
    (verdicts : List Verdict) :
    (verdicts.foldl Summary.record whole).IsSum first (verdicts.foldl Summary.record second) := by
  induction verdicts generalizing whole second with
  | nil => exact h
  | cons v verdicts ih => exact ih (h.record v)

end Summary

/-! ## Lines further down -/

def Verdict.moved (n : Nat) : Verdict → Verdict
  | .failed error => .failed (error.moved n)
  | .clean entry => .clean (entry.moved n)
  | .flagged entry rows => .flagged (entry.moved n) rows

/-- The database is asked for the query alone. -/
theorem verdict_moved (db : Database) (n : Nat) (item : Log.Item) :
    verdict db (Log.Item.moved n item) = (verdict db item).moved n := by
  cases item with
  | error bad => rfl
  | ok entry =>
    show verdict db (.ok (entry.moved n)) = _
    unfold verdict
    have hquery : (entry.moved n).query = entry.query := rfl
    dsimp only
    rw [hquery]
    cases hcheck : db.check entry.query with
    | error error =>
      -- the error of a check names the query, and no line
      obtain ⟨cause, rfl⟩ := exists_cause_of_check_error hcheck
      rfl
    | ok check =>
      dsimp only
      split <;> rfl

/-- The tables that a plan reads do not hang on the number of its line. -/
theorem attribution_moved (entry : Log.Entry) (rows : List Row) (n : Nat) :
    (attribution (entry.moved n) rows).1 = (attribution entry rows).1 := by
  unfold attribution
  split <;> rfl

/-- A summary does not hang on line numbers. -/
theorem Summary.record_moved (summary : Summary) (v : Verdict) (n : Nat) :
    summary.record (v.moved n) = summary.record v := by
  cases v with
  | failed error => rfl
  | clean entry => rfl
  | flagged entry rows => simp only [Verdict.moved, Summary.record, attribution_moved]; rfl

/-- A report does not tell of line numbers either. -/
theorem Verdict.blocks_moved (v : Verdict) (n : Nat) : (v.moved n).blocks = v.blocks := by
  cases v <;> rfl

/-- A failed line further down is still a failed line. -/
theorem goesOn_moved_iff {policy : Policy} {v : Verdict} {n : Nat} :
    GoesOn policy (v.moved n) ↔ GoesOn policy v := by
  cases v <;> rfl

/-- A run behind the lines of another writes what it would write by itself, and its result is that
of the run by itself, added to what the other has counted. -/
theorem runFrom_moved (policy : Policy) (verdicts : List Verdict) (n : Nat) (first : Summary) :
    (runFrom policy ⟨first, none⟩ (verdicts.map (Verdict.moved n))).written =
        (runFrom policy ⟨.zero, none⟩ verdicts).written ∧
      ((∃ second whole, (runFrom policy ⟨.zero, none⟩ verdicts).result = .ok second ∧
          (runFrom policy ⟨first, none⟩ (verdicts.map (Verdict.moved n))).result = .ok whole ∧
          whole.IsSum first second) ∨
        ∃ error, (runFrom policy ⟨.zero, none⟩ verdicts).result = .error error ∧
          (runFrom policy ⟨first, none⟩ (verdicts.map (Verdict.moved n))).result =
            .error (error.moved n)) := by
  have hblocks (vs : List Verdict) :
      (vs.map (Verdict.moved n)).flatMap Verdict.blocks = vs.flatMap Verdict.blocks := by
    rw [List.flatMap_map]
    exact List.flatMap_congr fun v _ => v.blocks_moved n
  have hgoesOn {vs : List Verdict} (h : ∀ v ∈ vs, GoesOn policy v) :
      ∀ v ∈ vs.map (Verdict.moved n), GoesOn policy v := by
    intro v hv
    obtain ⟨u, hu, rfl⟩ := List.mem_map.mp hv
    exact goesOn_moved_iff.mpr (h u hu)
  -- the run either takes all verdicts or stops at a first failed one, and its shape is known in
  -- both cases
  rcases goesOn_or_stops policy verdicts with hall | ⟨rfl, before, error, after, rfl, hbefore⟩
  · rw [runFrom_of_goesOn hall (takes_none _), runFrom_of_goesOn (hgoesOn hall) (takes_none _)]
    refine ⟨hblocks verdicts, .inl ⟨_, _, rfl, rfl, ?_⟩⟩
    have hsum := first.isSum_zero.foldl_record verdicts
    rw [List.foldl_map]
    simpa only [Summary.record_moved] using hsum
  · -- nothing is counted that is not thrown away with the error, which has moved
    rw [List.map_append, List.map_cons, Verdict.moved, runFrom_stop hbefore (takes_none _),
      runFrom_stop (hgoesOn hbefore) (takes_none _)]
    exact ⟨hblocks before, .inr ⟨.entry error, rfl, rfl⟩⟩

/-! ## The audit of the whole log -/

/-- What was written before comes first. -/
theorem Run.output_after (run : Run) (written : List String) (events : List Event) :
    (run.after written events).output = String.join written ++ run.output := by
  rw [Run.output, Run.after, String.join_append, Run.output]

/-- What was written before has no part in the result. -/
theorem Run.result_after (run : Run) (written : List String) (events : List Event) :
    (run.after written events).result = run.result := rfl

section Parts

variable {db : Database} {policy : Policy} {a : String}

/-- The audit of the whole log is one run: over the verdicts on the first part, and then over those
on the second, with the line numbers moved. -/
theorem run_append_eq (h : Text.EndsLine a.toList) (b : String) (limit : Option Nat) :
    run db policy (a ++ b) limit =
      runFrom policy ⟨.zero, limit⟩ ((Log.items a).map (verdict db) ++
        ((Log.items b).map (verdict db)).map (Verdict.moved (a.toList.count '\n'))) := by
  rw [run, Log.items_append h, List.map_append, List.map_map, List.map_map]
  simp only [Function.comp_def, verdict_moved]

/-- A run that ends in the first part does not come to the second. -/
theorem run_append_of_error (h : Text.EndsLine a.toList) (b : String) {error : AuditError}
    (herror : (run db policy a none).result = .error error) :
    run db policy (a ++ b) none = run db policy a none := by
  rw [run_append_eq h, run] at *
  rcases goesOn_or_stops policy ((Log.items a).map (verdict db)) with
    hall | ⟨rfl, before, failure, after, heq, hbefore⟩
  · -- a run without a failed entry completes
    rw [runFrom_of_goesOn hall (takes_none _)] at herror
    cases herror
  · -- the failed entry has the same verdicts before it in both runs
    rw [heq, List.append_assoc, List.cons_append, runFrom_stop hbefore (takes_none _),
      runFrom_stop hbefore (takes_none _)]

/-- A run that completes the first part goes on as an audit of the second that has counted the
first. -/
theorem run_append_of_ok (h : Text.EndsLine a.toList) (b : String) {first : Summary}
    (hfirst : (run db policy a none).result = .ok first) :
    (run db policy (a ++ b) none).output =
        (run db policy a none).output ++ (run db policy b none).output ∧
      ((∃ second whole, (run db policy b none).result = .ok second ∧
          (run db policy (a ++ b) none).result = .ok whole ∧ whole.IsSum first second) ∨
        ∃ error, (run db policy b none).result = .error error ∧
          (run db policy (a ++ b) none).result = .error (error.moved (a.toList.count '\n'))) := by
  have hgoesOn := goesOn_of_runFrom_ok hfirst
  obtain ⟨hrun, hsummary⟩ := runFrom_eq_of_ok hfirst
  -- the second part begins with what the first has counted
  have hwhole : run db policy (a ++ b) none =
      (runFrom policy ⟨first, none⟩ (((Log.items b).map (verdict db)).map
        (Verdict.moved (a.toList.count '\n')))).after
          (((Log.items a).map (verdict db)).flatMap Verdict.blocks)
          (((Log.items a).map (verdict db)).flatMap Verdict.events) := by
    rw [run_append_eq h, runFrom_append hgoesOn (takes_none _), hsummary]
    rfl
  obtain ⟨hwritten, hresult⟩ := runFrom_moved policy ((Log.items b).map (verdict db))
    (a.toList.count '\n') first
  have hblocks : (run db policy a none).written =
      ((Log.items a).map (verdict db)).flatMap Verdict.blocks := by
    rw [run, hrun]
  rw [hwhole, Run.result_after]
  constructor
  · rw [Run.output_after, Run.output, hwritten, ← hblocks]
    rfl
  · exact hresult

end Parts

/-- A log that is cut between two lines, so that the first part is empty or ends in a line feed. An
audit that skips failed entries reports and counts for the whole log what it does for the two parts
together. One that stops does so too, unless it fails: in the first part it fails as if there was no
second, and in the second part behind the report of both, with the error of that part, whose line is
further down by the lines of the first. -/
theorem run_append {a : String} (ha : a = "" ∨ ∃ front, a = front ++ "\n") (b : String)
    (db : Database) :
    (∃ first second whole, (run db .skip a none).result = .ok first ∧
        (run db .skip b none).result = .ok second ∧
        (run db .skip (a ++ b) none).result = .ok whole ∧ whole.IsSum first second ∧
        (run db .skip (a ++ b) none).output =
          (run db .skip a none).output ++ (run db .skip b none).output) ∧
      (∀ error, (run db .stop a none).result = .error error →
        (run db .stop (a ++ b) none).result = .error error ∧
        (run db .stop (a ++ b) none).output = (run db .stop a none).output) ∧
      ∀ first, (run db .stop a none).result = .ok first →
        (run db .stop (a ++ b) none).output =
            (run db .stop a none).output ++ (run db .stop b none).output ∧
          ((∃ second whole, (run db .stop b none).result = .ok second ∧
              (run db .stop (a ++ b) none).result = .ok whole ∧ whole.IsSum first second) ∨
            ∃ error, (run db .stop b none).result = .error error ∧
              (run db .stop (a ++ b) none).result =
                .error (error.moved (a.toList.count '\n'))) := by
  have hends : Text.EndsLine a.toList := by
    rcases ha with rfl | ⟨front, rfl⟩
    · exact .inl rfl
    · exact .inr ⟨front.toList, String.toList_append⟩
  refine ⟨?_, ?_, fun first hfirst => run_append_of_ok hends b hfirst⟩
  · -- an audit that skips failed entries completes both parts
    obtain ⟨first, hfirst⟩ := run_skip_ok db a
    obtain ⟨second, hsecond⟩ := run_skip_ok db b
    obtain ⟨houtput, ⟨_, whole, hok, hwhole, hsum⟩ | ⟨error, herror, -⟩⟩ :=
      run_append_of_ok hends b hfirst
    · obtain rfl := Except.ok.inj (hsecond.symm.trans hok)
      exact ⟨first, second, whole, hfirst, hsecond, hwhole, hsum, houtput⟩
    · -- the second part has completed
      rw [hsecond] at herror
      cases herror
  · -- one that stops in the first part never sees the second
    intro error herror
    rw [run_append_of_error hends b herror]
    exact ⟨herror, rfl⟩

/-- The line that fails is the first of its part and the third of the whole log. -/
theorem run_append_sample :
    (run sampleDatabase .stop ("Query: q was executed 2 times\n\n" ++ "broken\n") none).result =
        .error (.entry (.malformed ⟨3, "broken", .missingOpening⟩)) ∧
      (run sampleDatabase .stop ("Query: q was executed 2 times\n\n" ++ "broken\n") none).output =
        "Query with SCAN: q is executed times: 2\n" ++
          "2 [(3, 0, 0, 'SCAN t'), (5, 3, 0, 'SCAN t')]\n\n" := by
  have hends : "Query: q was executed 2 times\n\n" = "" ∨
      ∃ front, "Query: q was executed 2 times\n\n" = front ++ "\n" :=
    .inr ⟨"Query: q was executed 2 times\n", by decide +kernel⟩
  obtain ⟨first, hfirst⟩ : ∃ first, (run sampleDatabase .stop
      "Query: q was executed 2 times\n\n" none).result = .ok first := ⟨_, rfl⟩
  have hsecond : (run sampleDatabase .stop "broken\n" none).result =
      .error (.entry (.malformed ⟨1, "broken", .missingOpening⟩)) := rfl
  obtain ⟨-, -, hstop⟩ := run_append hends "broken\n" sampleDatabase
  obtain ⟨houtput, ⟨second, _, hok, -⟩ | ⟨error, herror, hwhole⟩⟩ := hstop first hfirst
  · rw [hsecond] at hok
    cases hok
  · obtain rfl := Except.error.inj (hsecond.symm.trans herror)
    refine ⟨hwhole, houtput.trans ?_⟩
    decide +kernel

end Audit

end ScanAudit
