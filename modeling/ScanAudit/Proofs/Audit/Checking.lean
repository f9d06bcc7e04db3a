import ScanAudit.Proofs.Audit.Reading

/-!
# Checking a query

A query is checked in steps: it is prepared as a statement that asks for its plan, values are bound
to the parameters of the statement, and the rows of the plan are fetched. Each step can fail: the
number of values is the number of question marks in the text and nothing else, and a row may hold
what is no text. A failure of any step belongs to the query, so an audit that skips such failures
always reaches the end of its log.

* `check_ok_iff` — when a query is accepted, and with which rows
* `check_error_iff` — when a query is refused, and with which error
* `advance_skip` — an audit that skips failures goes on at every item
* `check_outcome` — the check of any query
* `check_unreadable` — a query that is prepared and bound and still refused
-/

namespace ScanAudit.Audit

open Database Explain

/-! ## The outcome of a check -/

/-- The dummy values are zeros, one for each question mark. -/
theorem dummyBindings_eq (query : String) :
    Placeholder.dummyBindings query = List.replicate (query.toList.count '?') 0 :=
  rfl

/-- A query is accepted with the rows of its plan, if there are as many question marks as parameters
and every row is fetched. -/
theorem check_ok_iff {db : Database} {query : String} {check : Check} :
    db.check query = .ok check ↔
      ∃ statement, db.session (explainText query) = .ok statement ∧
        query.toList.count '?' = statement.parameters ∧
        statement.rows (List.replicate (query.toList.count '?') 0) = check.rows.map .ok ∧
        (check.hasFullScan = true ↔
          ∃ row ∈ check.rows, "SCAN".toList <:+: row.detail.toList) := by
  rw [check_eq_ok_iff, dummyBindings_eq]
  constructor
  · rintro ⟨statement, rows, hsession, hcount, hfetched, rfl⟩
    exact ⟨statement, hsession, hcount, hfetched, hasFullScan_iff⟩
  · rintro ⟨statement, hsession, hcount, hfetched, hscan⟩
    -- the flag of the check is the one that its rows give
    have hflag : check.hasFullScan = hasFullScan check.rows :=
      Bool.eq_iff_iff.mpr (hscan.trans hasFullScan_iff.symm)
    refine ⟨statement, check.rows, hsession, hcount, hfetched, ?_⟩
    rw [Check.ofRows, ← hflag]

/-- A query is refused if it cannot be prepared, else if its question marks are not as many as its
parameters, and else if a row cannot be fetched. -/
theorem check_error_iff {db : Database} {query : String} {error : EntryError} :
    db.check query = .error error ↔
      ∃ cause, error = .rejected query cause ∧
        (db.session (explainText query) = .error cause ∨
          ∃ statement, db.session (explainText query) = .ok statement ∧
            (query.toList.count '?' ≠ statement.parameters ∧
              cause = .parameterCount
                (min (query.toList.count '?') (statement.parameters + 1)) statement.parameters ∨
            query.toList.count '?' = statement.parameters ∧
              FirstError cause (statement.rows (List.replicate (query.toList.count '?') 0)))) := by
  rw [check_eq_error_iff]
  simp only [Statement.collect_eq_error_iff, dummyBindings_eq, List.length_replicate]

/-! ## An audit that skips failures -/

/-- No item ends an audit that skips failures and has an output without a limit. -/
theorem advance_skip (summary : Summary) (v : Verdict) :
    State.advance .skip ⟨summary, none⟩ v =
      .continues ⟨summary.record v, none⟩ v.blocks v.events :=
  advance_of_goesOn (goesOn_skip v) (takes_none _) summary

/-- The check of any query, whatever the database answers. It has the rows of the plan, in their
order, and looks for a full scan in them, if the query can be prepared, its question marks are as
many as its parameters, and every row can be fetched. Else it is an error of the database that names
the query: the one from preparing, or one of the number of values, or that of the first row that
cannot be fetched. So an audit that skips such errors goes on at every item and completes. -/
theorem check_outcome (db : Database) (query : String) :
    (∀ check, db.check query = .ok check ↔
      ∃ statement, db.session (explainText query) = .ok statement ∧
        query.toList.count '?' = statement.parameters ∧
        statement.rows (List.replicate (query.toList.count '?') 0) = check.rows.map .ok ∧
        (check.hasFullScan = true ↔
          ∃ row ∈ check.rows, "SCAN".toList <:+: row.detail.toList)) ∧
      (∀ error, db.check query = .error error ↔
        ∃ cause, error = .rejected query cause ∧
          (db.session (explainText query) = .error cause ∨
            ∃ statement, db.session (explainText query) = .ok statement ∧
              (query.toList.count '?' ≠ statement.parameters ∧
                cause = .parameterCount
                  (min (query.toList.count '?') (statement.parameters + 1))
                  statement.parameters ∨
              query.toList.count '?' = statement.parameters ∧
                FirstError cause
                  (statement.rows (List.replicate (query.toList.count '?') 0))))) ∧
      (∀ error, db.check query = .error error →
        (AuditError.entry error).isDatabase = true ∧ (AuditError.entry error).isPerEntry = true) ∧
      (∀ summary item, ∃ next written events,
        State.advance .skip ⟨summary, none⟩ (verdict db item) =
          .continues ⟨next, none⟩ written events) ∧
      ∀ log, ∃ summary, (run db .skip log none).result = .ok summary := by
  refine ⟨fun _ => check_ok_iff, fun _ => check_error_iff, fun error h => ?_,
    fun summary item => ⟨_, _, _, advance_skip summary _⟩, run_skip_ok db⟩
  obtain ⟨cause, rfl⟩ := exists_cause_of_check_error h
  exact ⟨rfl, rfl⟩

/-- A database with one index, whose name is no text. A plan that names the index has a row that
cannot be converted. -/
def unreadableDatabase : Database where
  path := none
  session _ := .ok ⟨0, fun _ => [.error (.reported
    "Conversion error from type Text at index: 3, invalid utf-8 sequence of 1 bytes from index 31"
    ["invalid utf-8 sequence of 1 bytes from index 31"])]⟩

/-- Preparing goes well and no value is missing, but there is no check. -/
theorem check_unreadable :
    ∃ statement,
      unreadableDatabase.session (explainText "SELECT a FROM t WHERE a = 1") = .ok statement ∧
      "SELECT a FROM t WHERE a = 1".toList.count '?' = statement.parameters ∧
      ¬∃ check, unreadableDatabase.check "SELECT a FROM t WHERE a = 1" = .ok check := by
  refine ⟨_, rfl, by decide, ?_⟩
  rintro ⟨check, hcheck⟩
  obtain ⟨statement, rows, hsession, -, hfetched, -⟩ := check_eq_ok_iff.mp hcheck
  obtain rfl := Except.ok.inj hsession
  -- what is fetched is an error, and so it is not a list of rows
  cases rows with
  | nil => cases hfetched
  | cons row rows => cases hfetched

end ScanAudit.Audit
