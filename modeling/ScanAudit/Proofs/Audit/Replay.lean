import ScanAudit.Audit.Run

/-!
# Runs as replays of verdicts

As long as the output has room, what an audit does at a verdict hangs on the verdict alone, and the
run up to its end is a replay of the verdicts: the summary is a fold over them, and what was written
and told is put together from what each of them adds.

* `Summary.record` — the summary after one more verdict
* `Verdict.blocks`, `Verdict.events`, `report` — what verdicts add to the report and to the events
* `GoesOn`, `Takes` — an audit does not end at a verdict, an output has room for so many bytes
* `recover_skip`, `recover_stop`, `recover_stream` — what an audit does at an error
* `advance_of_goesOn` — one step of such an audit
* `runFrom_append` — several steps of it
* `runFrom_of_goesOn`, `runFrom_stop` — a run to its end, and one that stops at a failed entry
* `runFrom_eq_of_ok` — a run that completes, as a replay
-/

namespace ScanAudit.Audit

open Explain

/-- The summary after one more verdict. -/
def Summary.record (summary : Summary) : Verdict → Summary
  | .failed _ => { summary with skipped := summary.skipped + 1 }
  | .clean _ => { summary with entries := summary.entries + 1 }
  | .flagged entry rows =>
    { summary with
      entries := summary.entries + 1
      flagged := summary.flagged + 1
      scannedTables :=
        summary.scannedTables.addAll (attribution entry rows).1 (.ofNat entry.executions) }

/-- What a verdict adds to the report. -/
def Verdict.blocks : Verdict → List String
  | .flagged entry rows => [Report.block entry rows]
  | _ => []

/-- What a verdict adds to the events. -/
def Verdict.events : Verdict → List Event
  | .failed error => [.skipping (.entry error)]
  | .clean _ => []
  | .flagged entry rows => [(attribution entry rows).2]

/-- An audit with this policy does not end at this verdict. -/
def GoesOn (policy : Policy) : Verdict → Prop
  | .failed _ => policy = .skip
  | _ => True

theorem goesOn_skip (v : Verdict) : GoesOn .skip v := by
  cases v <;> trivial

/-- Only a failed entry ends an audit, and only one that is to stop. -/
theorem eq_failed_of_not_goesOn {policy : Policy} {v : Verdict} (h : ¬GoesOn policy v) :
    policy = .stop ∧ ∃ error, v = .failed error := by
  cases v with
  | failed error =>
    cases policy with
    | stop => exact ⟨rfl, error, rfl⟩
    | skip => exact absurd rfl h
  | clean entry => exact absurd trivial h
  | flagged entry rows => exact absurd trivial h

/-- All members of a list have a property, or there is a first one that has not. -/
theorem forall_or_exists_first {α : Type} (p : α → Prop) (xs : List α) :
    (∀ x ∈ xs, p x) ∨
      ∃ before x after, xs = before ++ x :: after ∧ (∀ y ∈ before, p y) ∧ ¬p x := by
  induction xs with
  | nil => exact .inl nofun
  | cons x xs ih =>
    -- a first member without the property, or one further down, or none
    by_cases hx : p x
    · rcases ih with hall | ⟨before, y, after, rfl, hbefore, hy⟩
      · exact .inl (List.forall_mem_cons.mpr ⟨hx, hall⟩)
      · exact .inr ⟨x :: before, y, after, rfl, List.forall_mem_cons.mpr ⟨hx, hbefore⟩, hy⟩
    · exact .inr ⟨[], x, xs, rfl, nofun, hx⟩

/-- An audit goes on at all verdicts, or it is to stop at one of them. -/
theorem goesOn_or_stops (policy : Policy) (verdicts : List Verdict) :
    (∀ v ∈ verdicts, GoesOn policy v) ∨
      policy = .stop ∧ ∃ before error after, verdicts = before ++ .failed error :: after ∧
        ∀ v ∈ before, GoesOn .stop v := by
  rcases forall_or_exists_first (GoesOn policy) verdicts with
    hall | ⟨before, v, after, rfl, hbefore, hv⟩
  · exact .inl hall
  · obtain ⟨rfl, error, rfl⟩ := eq_failed_of_not_goesOn hv
    exact .inr ⟨rfl, before, error, after, rfl, hbefore⟩

/-- What some verdicts add to the report, as one text. -/
def report (verdicts : List Verdict) : String :=
  String.join (verdicts.flatMap Verdict.blocks)

theorem report_nil : report [] = "" := rfl

theorem report_append (verdicts rest : List Verdict) :
    report (verdicts ++ rest) = report verdicts ++ report rest := by
  rw [report, List.flatMap_append, String.join_append, report, report]

theorem report_cons (v : Verdict) (verdicts : List Verdict) :
    report (v :: verdicts) = report [v] ++ report verdicts :=
  report_append [v] verdicts

/-- Only a flagged entry has something to report, its block. -/
theorem report_flagged (entry : Log.Entry) (rows : List Row) :
    report [.flagged entry rows] = Report.block entry rows := by
  simp [report, Verdict.blocks]

/-! ## Room -/

/-- An output with this room takes so many more bytes. -/
def Takes (room : Option Nat) (bytes : Nat) : Prop :=
  ∀ limit ∈ room, bytes ≤ limit

theorem takes_none (bytes : Nat) : Takes none bytes := nofun

theorem takes_some_iff {limit bytes : Nat} : Takes (some limit) bytes ↔ bytes ≤ limit := by
  simp [Takes]

/-- What is written first takes away from the room of what is written next. -/
theorem takes_add_iff {room : Option Nat} {m n : Nat} :
    Takes room (m + n) ↔ Takes room m ∧ Takes (room.map (· - m)) n := by
  cases room with
  | none => simp [takes_none]
  | some limit =>
    rw [Option.map_some, takes_some_iff, takes_some_iff, takes_some_iff]
    omega

/-- A text that has room is written whole, and uses its room up. -/
theorem deliver_of_takes {room : Option Nat} {text : String}
    (h : Takes room text.utf8ByteSize) :
    Report.deliver room text = .whole (room.map (· - text.utf8ByteSize)) := by
  cases room with
  | none => rfl
  | some limit => exact if_pos (takes_some_iff.mp h)

/-! ## One step

The errors of an entry are those that can be skipped. A fault of the output is none of them, so it
ends an audit under either policy. -/

/-- An audit that skips passes over every error of an entry. -/
theorem recover_skip (state : State) (written : List String) (error : EntryError) :
    State.recover .skip state written (.entry error) =
      .continues { state with
        summary := { state.summary with skipped := state.summary.skipped + 1 } } written
        [.skipping (.entry error)] :=
  if_pos ⟨rfl, AuditError.isPerEntry_entry error⟩

theorem recover_stop (state : State) (written : List String) (error : AuditError) :
    State.recover .stop state written error = .ends written error :=
  if_neg fun h => nomatch h.1

/-- A fault of the output ends every audit: it concerns no single entry. -/
theorem recover_stream (policy : Policy) (state : State) (written : List String)
    (fault : StreamFault) :
    State.recover policy state written (.stream fault) = .ends written (.stream fault) :=
  if_neg fun h => nomatch h.2

/-- What an audit does at a verdict that does not end it. -/
theorem advance_of_goesOn {policy : Policy} {v : Verdict} (h : GoesOn policy v)
    {room : Option Nat} (hroom : Takes room (report [v]).utf8ByteSize) (summary : Summary) :
    State.advance policy ⟨summary, room⟩ v =
      .continues ⟨summary.record v, room.map (· - (report [v]).utf8ByteSize)⟩ v.blocks
        v.events := by
  cases v with
  | failed error =>
    -- the policy is to skip
    cases h
    rw [State.advance, recover_skip]
    simp [Summary.record, Verdict.blocks, Verdict.events, report]
  | clean entry =>
    simp [State.advance, Summary.record, Verdict.blocks, Verdict.events, report]
  | flagged entry rows =>
    -- the block has room, so that it is written whole before the entry is counted
    rw [report_flagged] at hroom ⊢
    simp only [State.advance, deliver_of_takes hroom]
    rfl

/-! ## A whole run -/

/-- A run replays the verdicts that it goes on at, as far as their blocks have room. The induction
keeps summary and room open, as each verdict leaves others. -/
theorem runFrom_append {policy : Policy} {verdicts : List Verdict}
    (h : ∀ v ∈ verdicts, GoesOn policy v) {room : Option Nat}
    (hroom : Takes room (report verdicts).utf8ByteSize) (summary : Summary)
    (rest : List Verdict) :
    runFrom policy ⟨summary, room⟩ (verdicts ++ rest) =
      (runFrom policy ⟨verdicts.foldl Summary.record summary,
        room.map (· - (report verdicts).utf8ByteSize)⟩ rest).after
          (verdicts.flatMap Verdict.blocks) (verdicts.flatMap Verdict.events) := by
  induction verdicts generalizing summary room with
  | nil => cases room <;> rfl
  | cons v verdicts ih =>
    rw [report_cons, String.utf8ByteSize_append] at hroom ⊢
    -- the room is shared between the first verdict and the others
    obtain ⟨hfirst, hlater⟩ := takes_add_iff.mp hroom
    have hrest := ih (fun u hu => h u (.tail _ hu)) hlater (summary.record v)
    have hsub (m n : Nat) : (room.map (· - m)).map (· - n) = room.map (· - (m + n)) := by
      -- two blocks in a row use up their sizes together
      simp [Function.comp_def, Nat.sub_sub]
    rw [List.cons_append, runFrom, advance_of_goesOn (h v (.head _)) hfirst]
    simp only [hrest, hsub, Run.after, List.flatMap_cons, List.foldl_cons, List.append_assoc]

/-- A run that does not end before its time replays the verdicts. -/
theorem runFrom_of_goesOn {policy : Policy} {verdicts : List Verdict}
    (h : ∀ v ∈ verdicts, GoesOn policy v) {room : Option Nat}
    (hroom : Takes room (report verdicts).utf8ByteSize) (summary : Summary) :
    runFrom policy ⟨summary, room⟩ verdicts =
      ⟨verdicts.flatMap Verdict.blocks,
        verdicts.flatMap Verdict.events ++ (verdicts.foldl Summary.record summary).closing,
        .ok (verdicts.foldl Summary.record summary)⟩ := by
  have happend := runFrom_append h hroom summary []
  rw [List.append_nil] at happend
  rw [happend]
  simp [runFrom, Run.after]

/-- A run ends at the first failed entry if it is to stop there. -/
theorem runFrom_stop {verdicts : List Verdict} (h : ∀ v ∈ verdicts, GoesOn .stop v)
    {room : Option Nat} (hroom : Takes room (report verdicts).utf8ByteSize) (summary : Summary)
    (error : EntryError) (rest : List Verdict) :
    runFrom .stop ⟨summary, room⟩ (verdicts ++ .failed error :: rest) =
      ⟨verdicts.flatMap Verdict.blocks, verdicts.flatMap Verdict.events,
        .error (.entry error)⟩ := by
  rw [runFrom_append h hroom]
  simp [runFrom, State.advance, recover_stop, Run.after]

/-- A run that completes has gone on at all verdicts. -/
theorem goesOn_of_runFrom_ok {policy : Policy} {verdicts : List Verdict} {summary final : Summary}
    (h : (runFrom policy ⟨summary, none⟩ verdicts).result = .ok final) :
    ∀ v ∈ verdicts, GoesOn policy v := by
  rcases goesOn_or_stops policy verdicts with hall | ⟨rfl, before, error, after, rfl, hbefore⟩
  · exact hall
  · -- a run that ends at a verdict has no summary
    rw [runFrom_stop hbefore (takes_none _)] at h
    cases h

/-- A run that completes replays the verdicts. -/
theorem runFrom_eq_of_ok {policy : Policy} {verdicts : List Verdict} {summary final : Summary}
    (h : (runFrom policy ⟨summary, none⟩ verdicts).result = .ok final) :
    runFrom policy ⟨summary, none⟩ verdicts =
        ⟨verdicts.flatMap Verdict.blocks, verdicts.flatMap Verdict.events ++ final.closing,
          .ok final⟩ ∧
      final = verdicts.foldl Summary.record summary := by
  have hrun := runFrom_of_goesOn (goesOn_of_runFrom_ok h) (takes_none _) summary
  have hfinal : final = verdicts.foldl Summary.record summary := by
    -- the summary of the replay is the only one
    rw [hrun] at h
    exact (Except.ok.inj h).symm
  exact ⟨hfinal ▸ hrun, hfinal⟩

end ScanAudit.Audit
