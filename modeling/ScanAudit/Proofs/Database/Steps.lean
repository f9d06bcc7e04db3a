import ScanAudit.Database

/-!
# The steps of a check

A check prepares a statement, binds values to its parameters and fetches its rows. Each step has an
outcome of its own: `allRows` gives rows if all that was fetched are rows, and a statement is
collected if it takes as many values as there are and all its rows are. The check of a query puts
the three steps together, and the first that fails gives the error.

* `FirstError` — an error among what was fetched, with only rows before it
* `allRows_eq_ok_iff`, `allRows_eq_error_iff` — the rows, or the first error
* `Statement.collect_eq_ok_iff`, `Statement.collect_eq_error_iff` — binding and fetching
* `Database.check_eq_ok_iff`, `Database.check_eq_error_iff` — all three steps
-/

namespace ScanAudit

open Explain

/-! ## Fetching -/

/-- There are rows if nothing else was fetched. By induction over what was fetched. -/
theorem allRows_eq_ok_iff {fetched : List (Except DriverError Row)} {rows : List Row} :
    allRows fetched = .ok rows ↔ fetched = rows.map .ok := by
  induction fetched generalizing rows with
  | nil => cases rows <;> simp [allRows]
  | cons first fetched ih =>
    cases first with
    | error cause => cases rows <;> simp [allRows]
    | ok row =>
      -- a row is the first of the rows, and the others come from the rest
      cases rows with
      | nil => cases hlater : allRows fetched <;> simp [allRows, hlater, Except.map]
      | cons row' rows =>
        rw [allRows, List.map_cons, List.cons.injEq, ← ih]
        cases hlater : allRows fetched <;> simp [Except.map]

/-- An error with only rows before it. -/
def FirstError (cause : DriverError) (fetched : List (Except DriverError Row)) : Prop :=
  ∃ (rows : List Row) (later : List (Except DriverError Row)),
    fetched = rows.map .ok ++ .error cause :: later

/-- By induction over what was fetched: a row in front does not make another error the first. -/
theorem allRows_eq_error_iff {fetched : List (Except DriverError Row)} {cause : DriverError} :
    allRows fetched = .error cause ↔ FirstError cause fetched := by
  induction fetched with
  | nil => simp [allRows, FirstError]
  | cons first fetched ih =>
    cases first with
    | error cause' =>
      -- the first error is here, whatever comes behind it
      constructor
      · intro h
        cases h
        exact ⟨[], fetched, rfl⟩
      · rintro ⟨rows, later, h⟩
        cases rows with
        | nil => cases h; rfl
        | cons row rows => cases h
    | ok row =>
      have hstep :
          allRows (.ok row :: fetched) = .error cause ↔ allRows fetched = .error cause := by
        -- a row is no error, so the first error is one of the others
        rw [allRows]
        cases allRows fetched <;> simp [Except.map]
      rw [hstep, ih]
      constructor
      · rintro ⟨rows, later, rfl⟩
        exact ⟨row :: rows, later, rfl⟩
      · rintro ⟨rows, later, h⟩
        cases rows with
        | nil => cases h
        | cons row' rows =>
          obtain ⟨-, rfl⟩ := List.cons.inj h
          exact ⟨rows, later, rfl⟩

/-! ## Binding -/

namespace Statement

variable {statement : Statement} {bindings : List Int64}

/-- The rows of a statement: it takes as many values as there are, and gives nothing but rows for
them. -/
theorem collect_eq_ok_iff {rows : List Row} :
    statement.collect bindings = .ok rows ↔
      bindings.length = statement.parameters ∧ statement.rows bindings = rows.map .ok := by
  unfold collect
  split
  · next hcount => rw [allRows_eq_ok_iff, and_iff_right hcount]
  · next hcount => exact ⟨nofun, fun h => absurd h.1 hcount⟩

/-- A wrong number of values is noticed before any row is fetched. -/
theorem collect_eq_error_iff {cause : DriverError} :
    statement.collect bindings = .error cause ↔
      (bindings.length ≠ statement.parameters ∧
        cause = .parameterCount (min bindings.length (statement.parameters + 1))
          statement.parameters) ∨
      bindings.length = statement.parameters ∧
        FirstError cause (statement.rows bindings) := by
  unfold collect
  split
  · next hcount => simp [hcount, allRows_eq_error_iff]
  · next hcount => simp [hcount, eq_comm]

end Statement

/-! ## Checking -/

namespace Database

variable {db : Database} {query : String}

/-- A query is accepted if it can be prepared, needs as many values as it has placeholders, and all
rows of its plan are fetched. The check has these rows. -/
theorem check_eq_ok_iff {check : Check} :
    db.check query = .ok check ↔
      ∃ statement rows, db.session (explainText query) = .ok statement ∧
        Placeholder.count query = statement.parameters ∧
        statement.rows (Placeholder.dummyBindings query) = rows.map .ok ∧
        check = Check.ofRows rows := by
  have hcollect (statement : Statement) (rows : List Row) :
      statement.collect (Placeholder.dummyBindings query) = .ok rows ↔
        Placeholder.count query = statement.parameters ∧
          statement.rows (Placeholder.dummyBindings query) = rows.map .ok := by
    rw [Statement.collect_eq_ok_iff, Placeholder.length_dummyBindings]
  unfold Database.check explain
  cases hsession : db.session (explainText query) with
  | error cause => exact ⟨nofun, nofun⟩
  | ok statement =>
    dsimp only
    constructor
    · -- the check comes from rows, and these from the statement
      intro h
      cases hrows : statement.collect (Placeholder.dummyBindings query) with
      | error cause =>
        rw [hrows] at h
        cases h
      | ok rows =>
        rw [hrows] at h
        obtain ⟨hcount, hfetched⟩ := (hcollect statement rows).mp hrows
        exact ⟨statement, rows, rfl, hcount, hfetched, (Except.ok.inj h).symm⟩
    · rintro ⟨_, rows, hok, hcount, hfetched, rfl⟩
      cases hok
      rw [(hcollect statement rows).mpr ⟨hcount, hfetched⟩]
      rfl

/-- A query is refused by the first step that fails, and every error names the query. -/
theorem check_eq_error_iff {error : EntryError} :
    db.check query = .error error ↔
      ∃ cause, error = .rejected query cause ∧
        (db.session (explainText query) = .error cause ∨
          ∃ statement, db.session (explainText query) = .ok statement ∧
            statement.collect (Placeholder.dummyBindings query) = .error cause) := by
  unfold Database.check explain
  cases hsession : db.session (explainText query) with
  | error cause =>
    constructor
    · intro h
      cases h
      exact ⟨cause, rfl, .inl rfl⟩
    · rintro ⟨_, rfl, hcause | ⟨_, hok, -⟩⟩
      · cases hcause
        rfl
      · cases hok
  | ok statement =>
    dsimp only
    constructor
    · intro h
      cases hrows : statement.collect (Placeholder.dummyBindings query) with
      | error cause =>
        rw [hrows] at h
        cases h
        exact ⟨cause, rfl, .inr ⟨statement, rfl, hrows⟩⟩
      | ok rows =>
        rw [hrows] at h
        cases h
    · rintro ⟨cause, rfl, herror | ⟨_, hok, hrows⟩⟩
      · -- the statement is prepared, so the error is one of its own
        cases herror
      · cases hok
        rw [hrows]
        rfl

end Database

end ScanAudit
