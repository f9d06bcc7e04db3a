import Mathlib.Data.List.Forall2
import ScanAudit.Proofs.Audit.Attribution
import ScanAudit.Proofs.Audit.Policies

/-!
# The events of an audit

What an audit tells on its way can be held against the log: each flagged entry has its event, each
skipped line has one, and nothing else is told before the end. A completed audit then tells its
counts and its totals, and the totals are those that the events on the way add up to.

* `Event.IsClosing`, `Event.executionsOn?` — events at the end of an audit, and what an event says
  of a table
* `Tells` — the events on the way, line by line
* `tells_skipping`, `tells_scan`, `tells_nothing`, `tells_line` — the events of one line
* `Tells.append`, `tells_course` — each line adds its events to those before
* `Tells.filterMap_executionsOn?` — the executions that the events tell of a table
* `foldl_addTo_flatMap_events` — the totals, added up from the events
* `Replays` — the events of a completed audit, by its summary
* `run_eq_course` — an audit as a course of events and its end
* `run_events` — the events of an audit
-/

namespace ScanAudit.Audit

open Explain Plan

namespace Event

/-- An event that only a completed audit tells, behind all others. -/
def IsClosing (event : Event) : Prop :=
  event.message = "audit complete" ∨ event.message = "full scans by table"

/-- The executions that an event says a table was scanned for. -/
def executionsOn? (table : String) : Event → Option Nat
  | .fullScan _ executions tables => if table ∈ tables then some executions else none
  | _ => none

/-- Totals with the executions of an event added for each of its tables. -/
def addTo (totals : Totals) : Event → Totals
  | .fullScan _ executions tables => totals.addAll tables (.ofNat executions)
  | _ => totals

/-- Only the event of a full scan names tables together with executions. -/
theorem executionsOn?_eq_none_of_message {event : Event} (h : event.message ≠ "full scan detected")
    (table : String) : event.executionsOn? table = none := by
  cases event with
  | fullScan lineNumber executions tables => exact absurd rfl h
  | _ => rfl

/-- So the other events can be left out before the executions are read off. -/
theorem filterMap_executionsOn?_filter (events : List Event) (table : String) :
    (events.filter (·.message = "full scan detected")).filterMap (executionsOn? table) =
      events.filterMap (executionsOn? table) := by
  rw [List.filterMap_filter]
  refine List.filterMap_congr fun event _ => ?_
  by_cases hmessage : event.message = "full scan detected"
  · simp [hmessage]
  · -- an event that is left out has no executions to give
    simp [hmessage, executionsOn?_eq_none_of_message]

end Event

/-- An event that tells of a flagged entry: its line, its count, and the tables that its plan reads
row by row. -/
def TellsOf (event : Event) (e : CheckedEntry) : Prop :=
  ∃ tables, event = .fullScan e.entry.lineNumber e.entry.executions tables ∧ tables.Nodup ∧
    ∀ table, table ∈ tables ↔ e.Scans table

/-- The events that an audit tells of some lines: one for each flagged entry and one for each line
that is no entry, each kind in the order of the lines, and none of a plan without a tree. -/
structure Tells (db : Database) (lines : List (List Char × Nat)) (events : List Event) : Prop where
  scans : List.Forall₂ TellsOf (events.filter (·.message = "full scan detected"))
    (flaggedEntries db lines)
  attributed : ∀ event ∈ events, event.message ≠ "could not attribute scan to a table"
  skips : List.Forall₂
    (fun event line => ∃ error, event = .skipping (.entry error) ∧ LineFails db line error)
    (events.filter (·.message = "skipping log entry"))
    (lines.filter fun line => (checkedLine? db line).isNone)

/-! ## One line -/

/-- The event of a flagged entry lists the tables of the tree that its rows are. -/
theorem tellsOf_attribution {e : CheckedEntry} (h : e.HasPlan) :
    TellsOf (attribution e.entry e.rows).2 e := by
  have hrows := ofRows_eq_ok_iff.mpr ⟨h.1, h.2, rfl⟩
  have hevent : (attribution e.entry e.rows).2 =
      .fullScan e.entry.lineNumber e.entry.executions (attribution e.entry e.rows).1 := by
    unfold attribution
    rw [hrows]
  exact ⟨_, hevent, CheckedEntry.nodup_attribution e.entry e.rows,
    fun _ => CheckedEntry.mem_attribution_iff h⟩

/-- No verdict tells of the end of an audit. -/
theorem not_isClosing_of_mem_events {v : Verdict} {event : Event} (h : event ∈ v.events) :
    ¬event.IsClosing := by
  cases v with
  | failed error =>
    rw [List.mem_singleton.mp h]
    simp [Event.IsClosing, Event.message]
  | clean entry => cases h
  | flagged entry rows =>
    -- the event of a full scan, or that of rows that are no tree
    rw [List.mem_singleton.mp h, attribution]
    split <;> simp [Event.IsClosing, Event.message]

section Course

variable {db : Database} {lines lines' : List (List Char × Nat)} {events events' : List Event}

/-- What is told of two parts of a log, one after the other, is told of the whole. By this the
course of an audit is told line by line. -/
theorem Tells.append (h : Tells db lines events) (h' : Tells db lines' events') :
    Tells db (lines ++ lines') (events ++ events') where
  scans := by
    rw [List.filter_append, flaggedEntries_append]
    exact List.rel_append h.scans h'.scans
  attributed := List.forall_mem_append.mpr ⟨h.attributed, h'.attributed⟩
  skips := by
    rw [List.filter_append, List.filter_append]
    exact List.rel_append h.skips h'.skips

section Line

variable {line : List Char × Nat} {e : CheckedEntry}

/-- A line that fails is told of by one event, that of a skipped entry. -/
theorem tells_skipping {error : EntryError} (hline : checkedLine? db line = none)
    (hfails : LineFails db line error) : Tells db [line] [.skipping (.entry error)] := by
  have hflagged : flaggedEntries db [line] = [] := by
    rw [flaggedEntries_cons, hline]
    rfl
  have hskipped : [line].filter (fun l => (checkedLine? db l).isNone) = [line] := by
    simp [hline]
  refine ⟨?_, ?_, ?_⟩
  · rw [hflagged]
    simp [Event.message]
  · simp [Event.message]
  · rw [hskipped]
    exact .cons ⟨error, rfl, hfails⟩ .nil

/-- A line that is a checked entry is none of those that are skipped. -/
theorem filter_isNone_eq_nil (hline : checkedLine? db line = some e) :
    [line].filter (fun l => (checkedLine? db l).isNone) = [] := by
  simp [hline]

/-- A flagged entry is told of by one event, that of a full scan. -/
theorem tells_scan {event : Event} (hline : checkedLine? db line = some e) (hflag : e.IsFlagged)
    (hevent : TellsOf event e) : Tells db [line] [event] := by
  have hflagged : flaggedEntries db [line] = [e] := by
    rw [flaggedEntries_cons, hline, Option.toList_some, List.filter_cons_of_pos (by simpa)]
    rfl
  obtain ⟨tables, rfl, htables⟩ := hevent
  refine ⟨?_, ?_, ?_⟩
  · rw [hflagged]
    exact .cons ⟨tables, rfl, htables⟩ .nil
  · simp [Event.message]
  · rw [filter_isNone_eq_nil hline]
    simp [Event.message]

theorem tells_nothing (hline : checkedLine? db line = some e) (hflag : ¬e.IsFlagged) :
    Tells db [line] [] := by
  have hflagged : flaggedEntries db [line] = [] := by
    rw [flaggedEntries_cons, hline, Option.toList_some, List.filter_cons_of_neg (by simpa)]
    rfl
  refine ⟨?_, nofun, ?_⟩
  · rw [hflagged]
    exact .nil
  · rw [filter_isNone_eq_nil hline]
    exact .nil

end Line

/-- The verdict on a line tells what there is to tell of it. -/
theorem tells_line (hplans : ∀ query check, db.check query = .ok check → ParentsListed check.rows)
    (line : List Char × Nat) : Tells db [line] (lineVerdict db line).events := by
  cases hline : checkedLine? db line with
  | none =>
    obtain ⟨error, hverdict, hfails⟩ := lineVerdict_of_none hline
    rw [hverdict]
    exact tells_skipping hline hfails
  | some e =>
    rw [lineVerdict_of_some hline]
    by_cases hflag : e.IsFlagged
    · -- the rows of the entry are a plan, so its event is not one of a plan without a tree
      have hcheck := (checkedLine?_eq_some_iff.mp hline).2
      have hplan : e.HasPlan := hflag.hasPlan (hplans _ _ hcheck)
      rw [if_pos hflag]
      exact tells_scan hline hflag (tellsOf_attribution hplan)
    · rw [if_neg hflag]
      exact tells_nothing hline hflag

/-- The events on the way through some lines. -/
def course (db : Database) (lines : List (List Char × Nat)) : List Event :=
  (lines.map (lineVerdict db)).flatMap Verdict.events

/-- By induction over the lines, each of which is told of by its own verdict. -/
theorem tells_course (hplans : ∀ query check, db.check query = .ok check → ParentsListed check.rows)
    (lines : List (List Char × Nat)) : Tells db lines (course db lines) := by
  induction lines with
  | nil => exact ⟨.nil, nofun, .nil⟩
  | cons line lines ih => exact (tells_line hplans line).append ih

/-- On its way an audit does not tell of its end. -/
theorem not_isClosing_of_mem_course {event : Event} (h : event ∈ course db lines) :
    ¬event.IsClosing := by
  obtain ⟨v, _, hevent⟩ := List.mem_flatMap.mp h
  exact not_isClosing_of_mem_events hevent

theorem tells_closing (db : Database) (summary : Summary) : Tells db [] summary.closing where
  scans := by
    simp [Summary.closing, Event.message, flaggedEntries, checkedEntries, List.filter_map,
      Function.comp_def]
  attributed := by
    -- the first of these events tells the counts, and the others a total each
    intro event hevent
    rcases List.mem_cons.mp hevent with rfl | hevent
    · simp [Event.message]
    · obtain ⟨t, _, rfl⟩ := List.mem_map.mp hevent
      simp [Event.message]
  skips := by simp [Summary.closing, Event.message, List.filter_map, Function.comp_def]

/-! ## Totals -/

/-- By induction along the pairs: an event tells of a table if its entry reads it row by row. -/
theorem filterMap_executionsOn?_of_tellsOf {entries : List CheckedEntry}
    (h : List.Forall₂ TellsOf events entries) (table : String) :
    events.filterMap (Event.executionsOn? table) =
      (entries.filter (·.Scans table)).map (·.entry.executions) := by
  induction h with
  | nil => rfl
  | @cons event e events entries hevent _ ih =>
    obtain ⟨tables, rfl, -, hmem⟩ := hevent
    rw [List.filterMap_cons, Event.executionsOn?]
    -- an event and its entry give their executions both or neither
    by_cases hread : e.Scans table
    · rw [if_pos ((hmem table).mpr hread), List.filter_cons_of_pos (by simpa), List.map_cons, ih]
    · rw [if_neg (mt (hmem table).mp hread), List.filter_cons_of_neg (by simpa), ih]

/-- What the events say of a table, and what the flagged entries say of it. -/
theorem Tells.filterMap_executionsOn? (h : Tells db lines events) (table : String) :
    events.filterMap (Event.executionsOn? table) =
      ((flaggedEntries db lines).filter (·.Scans table)).map (·.entry.executions) := by
  rw [← Event.filterMap_executionsOn?_filter]
  exact filterMap_executionsOn?_of_tellsOf h.scans table

end Course

/-! ### Totals added up from events

An event has the tables that its verdict adds to the totals, so adding it is what the verdict does
to them. This is so even for a plan without a tree, whose event has no table. -/

/-- The event of a flagged entry adds to the totals what the entry does. -/
theorem addTo_attribution (totals : Totals) (entry : Log.Entry) (rows : List Row) :
    Event.addTo totals (attribution entry rows).2 =
      totals.addAll (attribution entry rows).1 (.ofNat entry.executions) := by
  unfold attribution
  split <;> rfl

/-- The events of one verdict add to the totals what the verdict does. -/
theorem foldl_addTo_events (summary : Summary) (v : Verdict) :
    v.events.foldl Event.addTo summary.scannedTables = (summary.record v).scannedTables := by
  cases v with
  | failed error => rfl
  | clean entry => rfl
  | flagged entry rows => exact addTo_attribution summary.scannedTables entry rows

/-- By induction over the verdicts, with the summary kept open: each of them adds to what those
before it left. -/
theorem foldl_addTo_flatMap_events (summary : Summary) (verdicts : List Verdict) :
    (verdicts.flatMap Verdict.events).foldl Event.addTo summary.scannedTables =
      (verdicts.foldl Summary.record summary).scannedTables := by
  induction verdicts generalizing summary with
  | nil => rfl
  | cons v verdicts ih =>
    rw [List.flatMap_cons, List.foldl_append, foldl_addTo_events, ih, List.foldl_cons]

theorem foldl_addTo_closing (totals : Totals) (summary : Summary) :
    summary.closing.foldl Event.addTo totals = totals := by
  rw [Summary.closing, List.foldl_cons, List.foldl_map]
  exact List.foldl_fixed' (fun _ => rfl) _

/-- The events of a completed audit and its summary. Only the end of the events tells the counts,
and the totals from the largest on; the counts and the totals are those of the events before. The
totals are what adding the executions of each event for its tables gives: sums in 64 bits, which are
the sums themselves where these fit. -/
structure Replays (events : List Event) (summary : Summary) : Prop where
  closing : ∃ course, (∀ event ∈ course, ¬event.IsClosing) ∧
    events = course ++ .complete summary.entries summary.flagged summary.skipped ::
      summary.scannedTables.hottest.map fun t => .tableTotal t.1 t.2
  listed : summary.scannedTables.hottest.Perm summary.scannedTables.entries
  flagged : summary.flagged = (events.filter (·.message = "full scan detected")).length
  skipped : summary.skipped = (events.filter (·.message = "skipping log entry")).length
  added : events.foldl Event.addTo .empty = summary.scannedTables
  totals : ∀ table total, (table, total) ∈ summary.scannedTables.entries ↔
    events.filterMap (Event.executionsOn? table) ≠ [] ∧
      total = .ofNat (events.filterMap (Event.executionsOn? table)).sum
  totals_exact : ∀ table total, (table, total) ∈ summary.scannedTables.entries →
    (events.filterMap (Event.executionsOn? table)).sum < UInt64.size →
      total.toNat = (events.filterMap (Event.executionsOn? table)).sum

/-! ## Runs -/

/-- An audit goes through all lines and to its end, or it stops behind the lines before a first
failure. -/
theorem run_eq_course (db : Database) (policy : Policy) (log : String) :
    (∃ summary, run db policy log none =
        ⟨(flaggedEntries db (Log.numberedLines log)).map CheckedEntry.block,
          course db (Log.numberedLines log) ++ summary.closing, .ok summary⟩) ∨
      policy = .stop ∧ ∃ before line after error,
        Log.numberedLines log = before ++ line :: after ∧ LineFails db line error ∧
        run db policy log none =
          ⟨(flaggedEntries db before).map CheckedEntry.block, course db before,
            .error (.entry error)⟩ := by
  -- both policies complete if they go on at every verdict
  have hcomplete (h : ∀ v ∈ (Log.numberedLines log).map (lineVerdict db), GoesOn policy v) :
      ∃ summary, run db policy log none =
        ⟨(flaggedEntries db (Log.numberedLines log)).map CheckedEntry.block,
          course db (Log.numberedLines log) ++ summary.closing, .ok summary⟩ := by
    rw [run_eq_runFrom, runFrom_of_goesOn h (takes_none _), flatMap_blocks_lineVerdict]
    exact ⟨_, rfl⟩
  cases policy with
  | skip => exact .inl (hcomplete fun v _ => goesOn_skip v)
  | stop =>
    rcases checked_or_firstFailure db (Log.numberedLines log) with
      hall | ⟨before, line, after, hlines, hbefore, hline⟩
    · exact .inl (hcomplete (goesOn_of_allChecked hall .stop))
    · -- the lines before the first that fails are checked, so that the run comes to it
      obtain ⟨error, hverdict, hfails⟩ := lineVerdict_of_none hline
      exact .inr ⟨rfl, before, line, after, error, hlines, hfails,
        run_stop_of_firstFailure hlines hbefore hverdict⟩

/-- A completed run, given the shape of its events and what they tell. The counts are read off the
events by kind, and the totals in both ways: added up on the way, and as sums. -/
theorem replays_of_ok {db : Database} {policy : Policy} {log : String} {summary : Summary}
    (hplans : ∀ query check, db.check query = .ok check → ParentsListed check.rows)
    {events : List Event} (hresult : (run db policy log none).result = .ok summary)
    (hevents : events = course db (Log.numberedLines log) ++ summary.closing)
    (htells : Tells db (Log.numberedLines log) events) : Replays events summary := by
  obtain ⟨-, hsummary⟩ := run_of_ok hresult
  have htotals (table : String) (total : UInt64) :
      (table, total) ∈ summary.scannedTables.entries ↔
        events.filterMap (Event.executionsOn? table) ≠ [] ∧
          total = .ofNat (events.filterMap (Event.executionsOn? table)).sum := by
    rw [htells.filterMap_executionsOn?, hsummary,
      mem_foldl_addScans_iff fun e he => hasPlan_of_mem_flaggedEntries hplans he,
      ne_eq (List.map _ _), List.map_eq_nil_iff]
    rfl
  have hadded : events.foldl Event.addTo .empty = summary.scannedTables := by
    rw [hevents, List.foldl_append, foldl_addTo_closing]
    refine (foldl_addTo_flatMap_events .zero _).trans ?_
    rw [foldl_record_lineVerdict, hsummary]
    rfl
  refine ⟨⟨_, fun _ => not_isClosing_of_mem_course, hevents⟩, List.mergeSort_perm _ _, ?_, ?_,
    hadded, htotals, fun table total hmem hfits => ?_⟩
  · -- the counts are the lengths of the two lists that the events match
    rw [htells.scans.length_eq, hsummary]
  · rw [htells.skips.length_eq, hsummary]
    exact List.countP_eq_length_filter
  · exact (eq_ofNat_iff hfits).mp ((htotals table total).mp hmem).2

/-- The events of an audit, if the parents of the plans are listed. It goes through the first lines
of its log, tells of each of them that is flagged or skipped, and reports the flagged entries. If it
completes these are all lines, and the events replay to the summary. If it fails, the next line is
one that fails, and it tells nothing of an end. -/
theorem run_events {db : Database}
    (hplans : ∀ query check, db.check query = .ok check → ParentsListed check.rows)
    (policy : Policy) (log : String) :
    ∃ done rest, Log.numberedLines log = done ++ rest ∧
      (run db policy log none).written = (flaggedEntries db done).map CheckedEntry.block ∧
      Tells db done (run db policy log none).events ∧
      (∀ summary, (run db policy log none).result = .ok summary →
        rest = [] ∧ Replays (run db policy log none).events summary) ∧
      ∀ failure, (run db policy log none).result = .error failure →
        policy = .stop ∧
        (∃ line after error, rest = line :: after ∧ LineFails db line error ∧
          failure = .entry error) ∧
        ∀ event ∈ (run db policy log none).events, ¬event.IsClosing := by
  rcases run_eq_course db policy log with
    ⟨summary, hrun⟩ | ⟨hpolicy, before, line, after, error, hlines, hfails, hrun⟩
  · have htells : Tells db (Log.numberedLines log) (run db policy log none).events := by
      -- a run that goes through all lines: the last events tell of none of them
      have happend :=
        (tells_course hplans (Log.numberedLines log)).append (tells_closing db summary)
      rw [hrun]
      rwa [List.append_nil] at happend
    refine ⟨Log.numberedLines log, [], (List.append_nil _).symm, ?_, htells, ?_, ?_⟩
    · rw [hrun]
    · intro final hfinal
      obtain rfl : summary = final := by
        rw [hrun] at hfinal
        exact Except.ok.inj hfinal
      exact ⟨rfl, replays_of_ok hplans hfinal (by rw [hrun]) htells⟩
    · intro failure hfailure
      rw [hrun] at hfailure
      cases hfailure
  · rw [hrun]
    -- a run that stops: the line behind those told of is the one that fails
    refine ⟨before, line :: after, hlines, rfl, tells_course hplans before, nofun, ?_⟩
    intro failure hfailure
    cases hfailure
    exact ⟨hpolicy, ⟨line, after, error, rfl, hfails, rfl⟩, fun _ => not_isClosing_of_mem_course⟩

/-- The second of the five lines is blank, the third is skipped, and the fourth has nothing to tell
of. -/
theorem run_events_sample :
    ∃ summary, (run sampleDatabase .skip sampleLog none).result = .ok summary ∧
      summary.flagged = 2 ∧ summary.skipped = 1 ∧
      ((run sampleDatabase .skip sampleLog none).events.filterMap
        (Event.executionsOn? "t")).sum = 5 ∧
      ("t", 5) ∈ summary.scannedTables.entries := by
  obtain ⟨summary, h⟩ := run_skip_ok sampleDatabase sampleLog
  obtain ⟨done, rest, hlines, -, htells, hcompletes, -⟩ :=
    run_events (fun _ _ => parentsListed_sampleDatabase) .skip sampleLog
  obtain ⟨rfl, hreplays⟩ := hcompletes summary h
  rw [List.append_nil] at hlines
  subst hlines
  -- two entries are flagged, each with its count
  have htold : (run sampleDatabase .skip sampleLog none).events.filterMap
      (Event.executionsOn? "t") = [2, 3] := by
    rw [htells.filterMap_executionsOn?, flaggedEntries_sampleLog]
    decide +kernel
  refine ⟨summary, h, ?_, ?_, ?_, ?_⟩
  · rw [hreplays.flagged, htells.scans.length_eq, flaggedEntries_sampleLog]
    rfl
  · rw [hreplays.skipped, htells.skips.length_eq]
    decide +kernel
  · rw [htold]
    rfl
  · rw [hreplays.totals, htold]
    decide

end ScanAudit.Audit
