import ScanAudit.CommandLine.Program
import ScanAudit.Proofs.Files.Replacement
import ScanAudit.Workspace

/-!
# The stages of an audit, and what the program shows of them

An audit reads its log, opens its database and runs, each only after the one before it went well.
The program ends well if all three stages do. It prints what the run writes, also when the run is
aborted, and fails with the error of the stage that failed, under a name for this stage.

* `Stage`, `Begun`, `FailsAt` — how the stages of an audit go
* `Shows`, `shows_runRequest` — an exit against the stages
* `Agrees`, `agrees_audit` — an exit against the audit of a workspace
* `Apart` — files that a schema script does not tell apart
* `perform_congr`, `runRequest_congr` — with a schema script the database file is not looked at
* `audit_exit` — the exit of the program for all files
* `audit_exit_scripted`, `audit_exit_attached` — a script that opens no file, and one that does
-/

namespace ScanAudit.CommandLine

open Audit

inductive Stage
  | reading
  | opening
  | running

/-- What the program says that it was about to do when a stage failed. -/
def Stage.context (config : Config) : Stage → String
  | .reading => "Failed to read query log " ++ config.logPath.display
  | .opening => "Failed to open reference database"
  | .running => "Query log audit aborted"

section

variable (engine : Engine) (files : Files) (config : Config)

/-- An audit that has its log and its database, and can run. -/
structure Begun (log : String) (db : Database) : Prop where
  read : files.readText config.logPath = .ok log
  opened : Database.ofConfig engine files config = .ok db

/-- The first stage that fails, with its error. -/
inductive FailsAt : Stage → AuditError → Prop
  | reading {error : AuditError} (unread : files.readText config.logPath = .error error) :
    FailsAt .reading error
  | opening {log : String} {error : AuditError} (read : files.readText config.logPath = .ok log)
    (unopened : Database.ofConfig engine files config = .error error) : FailsAt .opening error
  | running {log : String} {db : Database} {error : AuditError}
    (begun : Begun engine files config log db)
    (aborted : (run db config.policy log none).result = .error error) : FailsAt .running error

end

/-! ## The exit -/

section

variable {engine : Engine} {files : Files} {config : Config}

/-- The exit of an audit is that of its outcome. -/
theorem runRequest_audit (engine : Engine) (files : Files) (config : Config) (verbosity : Nat) :
    runRequest engine files (.audit config verbosity) =
      exitOfOutcome config (perform engine files config none) :=
  rfl

/-- With a log and a database, an audit is its run. -/
theorem Begun.perform_eq {log : String} {db : Database} (begun : Begun engine files config log db)
    (limit : Option Nat) :
    perform engine files config limit = .ran db (run db config.policy log limit) := by
  rw [perform, begun.read, begun.opened]

/-- An exit that tells how the stages of an audit went. -/
structure Shows (engine : Engine) (files : Files) (config : Config) (exit : Exit) : Prop where
  status_eq_zero_iff : exit.status = 0 ↔ ∃ log db summary, Begun engine files config log db ∧
    (run db config.policy log none).result = .ok summary
  output_of_begun : ∀ log db, Begun engine files config log db →
    exit.output = (run db config.policy log none).output
  output_of_not_begun : (¬∃ log db, Begun engine files config log db) → exit.output = ""
  of_failsAt : ∀ stage error, FailsAt engine files config stage error → exit.status = 1 ∧
    exit.failure = some ⟨stage.context config, error⟩
  causes_of_failsAt : ∀ stage error, FailsAt engine files config stage error →
    ∀ failure, exit.failure = some failure → failure.causes.head? = some error.message
  exists_failsAt : exit.status ≠ 0 → ∃ stage error, FailsAt engine files config stage error

/-- Each stage that fails ends the program with its own context and its error. -/
theorem FailsAt.exit {stage : Stage} {error : AuditError}
    (fails : FailsAt engine files config stage error) (verbosity : Nat) :
    (runRequest engine files (.audit config verbosity)).status = 1 ∧
      (runRequest engine files (.audit config verbosity)).failure =
        some ⟨stage.context config, error⟩ := by
  rw [runRequest_audit]
  cases fails with
  | reading unread =>
    simp only [perform, unread]
    exact ⟨rfl, rfl⟩
  | opening read unopened =>
    simp only [perform, read, unopened]
    exact ⟨rfl, rfl⟩
  | running begun aborted =>
    -- what the run printed before stays, and its error is shown
    simp only [begun.perform_eq, exitOfOutcome, aborted]
    exact ⟨trivial, rfl⟩

/-- Where a stage fails, there is nothing but its error. -/
theorem FailsAt.result_perform {stage : Stage} {error : AuditError}
    (fails : FailsAt engine files config stage error) :
    (perform engine files config none).result = .error error := by
  cases fails with
  | reading unread => simp only [perform, unread, Outcome.result]
  | opening read unopened => simp only [perform, read, unopened, Outcome.result]
  | running begun aborted => simp only [begun.perform_eq, Outcome.result, aborted, Except.map]

/-- A run that completes ends the program well. -/
theorem Begun.exit_status {log : String} {db : Database} {summary : Summary}
    (begun : Begun engine files config log db)
    (hok : (run db config.policy log none).result = .ok summary) (verbosity : Nat) :
    (runRequest engine files (.audit config verbosity)).status = 0 := by
  simp only [runRequest_audit, begun.perform_eq, exitOfOutcome, hok]

/-- A run is printed whether it completes or is aborted. -/
theorem Begun.exit_output {log : String} {db : Database} (begun : Begun engine files config log db)
    (verbosity : Nat) :
    (runRequest engine files (.audit config verbosity)).output =
      (run db config.policy log none).output := by
  simp only [runRequest_audit, begun.perform_eq, exitOfOutcome]
  split <;> rfl

/-- All stages go well, or there is a first one that fails. -/
theorem exists_failsAt_or_summary (engine : Engine) (files : Files) (config : Config) :
    (∃ stage error, FailsAt engine files config stage error) ∨
      ∃ log db summary, Begun engine files config log db ∧
        (run db config.policy log none).result = .ok summary := by
  cases read : files.readText config.logPath with
  | error error => exact .inl ⟨.reading, error, .reading read⟩
  | ok log =>
    cases opened : Database.ofConfig engine files config with
    | error error => exact .inl ⟨.opening, error, .opening read opened⟩
    | ok db =>
      cases hresult : (run db config.policy log none).result with
      | error error => exact .inl ⟨.running, error, .running ⟨read, opened⟩ hresult⟩
      | ok summary => exact .inr ⟨log, db, summary, ⟨read, opened⟩, hresult⟩

/-- Each field is read off the outcome, which either has a stage that failed or a run that
completed. -/
theorem shows_runRequest (engine : Engine) (files : Files) (config : Config) (verbosity : Nat) :
    Shows engine files config (runRequest engine files (.audit config verbosity)) where
  status_eq_zero_iff := by
    constructor
    · -- a stage that fails would have left another status
      intro hstatus
      rcases exists_failsAt_or_summary engine files config with ⟨stage, error, fails⟩ | hok
      · rw [(fails.exit verbosity).1] at hstatus
        cases hstatus
      · exact hok
    · rintro ⟨log, db, summary, begun, hok⟩
      exact begun.exit_status hok verbosity
  output_of_begun := fun log db begun => begun.exit_output verbosity
  output_of_not_begun := by
    intro hnot
    rcases exists_failsAt_or_summary engine files config with
      ⟨stage, error, fails⟩ | ⟨log, db, summary, begun, -⟩
    · -- only a run prints, and it has begun
      cases fails with
      | reading unread => simp only [runRequest_audit, perform, unread, exitOfOutcome]
      | opening read unopened =>
        simp only [runRequest_audit, perform, read, unopened, exitOfOutcome]
      | running begun aborted => exact absurd ⟨_, _, begun⟩ hnot
    · exact absurd ⟨log, db, begun⟩ hnot
  of_failsAt := fun stage error fails => fails.exit verbosity
  causes_of_failsAt := by
    intro stage error fails failure hfailure
    rw [(fails.exit verbosity).2] at hfailure
    cases hfailure
    rfl
  exists_failsAt := by
    intro hstatus
    rcases exists_failsAt_or_summary engine files config with
      hfails | ⟨log, db, summary, begun, hok⟩
    · exact hfails
    · exact absurd (begun.exit_status hok verbosity) hstatus

end

/-! ## The audit of a workspace -/

/-- An exit against an audit that gives its summary and its report, or its error. -/
def Agrees (config : Config) (exit : Exit) : Except AuditError (Summary × String) → Prop
  | .ok (_, report) => exit.status = 0 ∧ exit.output = report
  | .error error => exit.status = 1 ∧
    ∃ stage : Stage, exit.failure = some ⟨stage.context config, error⟩

/-- The audit of a workspace and the program perform the same stages, and only then part. -/
theorem agrees_audit (engine : Engine) (workspace : Workspace) (config : Config)
    (verbosity : Nat) :
    Agrees config (runRequest engine workspace.directory.file? (.audit config verbosity))
      (workspace.audit engine config) := by
  unfold Workspace.audit
  rcases exists_failsAt_or_summary engine workspace.directory.file? config with
    ⟨stage, error, fails⟩ | ⟨log, db, summary, begun, hok⟩
  · -- a stage fails, and both have its error
    obtain ⟨hstatus, hfailure⟩ := fails.exit verbosity
    rw [fails.result_perform]
    exact ⟨hstatus, stage, hfailure⟩
  · -- the run completes, and both have its report
    simp only [begun.perform_eq, Outcome.result, hok, Except.map]
    exact ⟨begun.exit_status hok verbosity, begun.exit_output verbosity⟩

/-! ## A schema script in the place of the database file

An audit with a schema script looks at the log, at the script, and at the files that the script
opens. All other files can be exchanged. -/

/-- A text is read from the file under its path and from no other. -/
theorem readText_congr {files files' : Files} {path : Path} (heq : files' path = files path) :
    files'.readText path = files.readText path := by
  unfold Files.readText
  rw [heq]

/-- Other files with the same script, and with the same file under each path that it opens. -/
structure Apart (engine : Engine) (schema : Path) (files files' : Files) : Prop where
  script : files' schema = files schema
  opened : ∀ text, files.readText schema = .ok text →
    ∀ path ∈ engine.opens files text, files' path = files path

theorem Apart.ofConfig_eq {engine : Engine} {files files' : Files} {config : Config}
    {schema : Path} (h : Apart engine schema files files')
    (hschema : config.schemaPath = some schema) (databasePath : Path) :
    Database.ofConfig engine files' { config with databasePath } =
      Database.ofConfig engine files config := by
  unfold Database.ofConfig
  simp only [hschema, readText_congr h.script]
  cases htext : files.readText schema with
  -- without a script nothing is applied
  | error error => rfl
  | ok text =>
    -- the engine sees the same files where the script opens any
    simp only [Database.ofSchema,
      engine.applySchema_congr text files files' (h.opened text htext)]

/-- With a schema script, an audit looks at two files and at those that the script opens. -/
theorem perform_congr {engine : Engine} {files files' : Files} {config : Config} {schema : Path}
    (hschema : config.schemaPath = some schema) (h : Apart engine schema files files')
    (hlog : files' config.logPath = files config.logPath) (databasePath : Path)
    (limit : Option Nat) :
    perform engine files' { config with databasePath } limit =
      perform engine files config limit := by
  unfold perform
  rw [h.ofConfig_eq hschema, readText_congr hlog]

/-- A failure names the log, but not the database. -/
theorem exitOfOutcome_databasePath (config : Config) (databasePath : Path) (outcome : Outcome) :
    exitOfOutcome { config with databasePath } outcome = exitOfOutcome config outcome := by
  cases outcome <;> rfl

/-- So the program leaves the same behind. -/
theorem runRequest_congr {engine : Engine} {files files' : Files} {config : Config} {schema : Path}
    (hschema : config.schemaPath = some schema) (h : Apart engine schema files files')
    (hlog : files' config.logPath = files config.logPath) (databasePath : Path)
    (verbosity : Nat) :
    runRequest engine files' (.audit { config with databasePath } verbosity) =
      runRequest engine files (.audit config verbosity) := by
  rw [runRequest_audit, runRequest_audit, perform_congr hschema h hlog,
    exitOfOutcome_databasePath]

/-- The exit of an audit tells how its stages went, whatever the files are, and agrees with the
audit of a workspace. With a schema script it depends neither on the path of the database, nor on
any file but the log, the script and those that the script opens. So where the path of the database
leads to a file that is neither the log nor the script, and which the script does not open, another
file in its place makes no difference. -/
theorem audit_exit (engine : Engine) (config : Config) (verbosity : Nat) :
    (∀ files, Shows engine files config (runRequest engine files (.audit config verbosity))) ∧
      (∀ workspace : Workspace,
        Agrees config (runRequest engine workspace.directory.file? (.audit config verbosity))
          (workspace.audit engine config)) ∧
      ∀ schema, config.schemaPath = some schema →
        (∀ (files files' : Files) (databasePath : Path), Apart engine schema files files' →
          files' config.logPath = files config.logPath →
          perform engine files' { config with databasePath } none =
              perform engine files config none ∧
            runRequest engine files' (.audit { config with databasePath } verbosity) =
              runRequest engine files (.audit config verbosity)) ∧
        ∀ (directory : Directory) (location : Location) (new : File) (databasePath : Path),
          directory.location? config.databasePath = some location →
          directory.location? config.logPath ≠ some location →
          directory.location? schema ≠ some location →
          (∀ text, Files.readText directory.file? schema = .ok text →
            ∀ path ∈ engine.opens directory.file? text,
              directory.location? path ≠ some location) →
          runRequest engine (directory.set location (some new)).file?
              (.audit { config with databasePath } verbosity) =
            runRequest engine directory.file? (.audit config verbosity) := by
  refine ⟨fun files => shows_runRequest engine files config verbosity,
    fun workspace => agrees_audit engine workspace config verbosity,
    fun schema hschema => ⟨?_, ?_⟩⟩
  · intro files files' databasePath hapart hlog
    exact ⟨perform_congr hschema hapart hlog databasePath none,
      runRequest_congr hschema hapart hlog databasePath verbosity⟩
  · -- the log, the script and what it opens are the files that they were
    intro directory location new databasePath hdatabase hlog hscript hopens
    obtain ⟨old, hold⟩ := Directory.fileAt?_of_location? hdatabase
    have hkept {path : Path} (hpath : directory.location? path ≠ some location) :
        (directory.set location (some new)).file? path = directory.file? path := by
      rw [Directory.file?_set_file hold, if_neg hpath]
    have hapart : Apart engine schema directory.file?
        (directory.set location (some new)).file? :=
      ⟨hkept hscript, fun text htext path hpath => hkept (hopens text htext path hpath)⟩
    exact runRequest_congr hschema hapart (hkept hlog) databasePath verbosity

/-! ### Two scripts

One script makes a table and opens no file. The other attaches a file, which is an empty database if
it has no bytes. -/

def tableScript : String := "CREATE TABLE t (a);"

def attachScript : String := "ATTACH DATABASE 'test.db' AS app;"

/-- The session of a database in memory, with or without the table. -/
def memorySession (hasTable : Bool) : Session := fun text =>
  if hasTable ∧ text = Database.explainText "SELECT a FROM t" then
    .ok ⟨0, fun _ => [.ok ⟨2, 0, 0, "SCAN t"⟩]⟩
  else .error (.reported "no such table: t" [])

/-- An engine for these two scripts, that takes any other for an empty one. -/
def scriptEngine : Engine where
  openFile _ _ := .error "unable to open database file"
  applySchema files script :=
    if script = tableScript then .ok (memorySession true)
    else if script = attachScript then
      match files (.ofString "test.db") with
      | some file =>
        if file.content.isEmpty then .ok (memorySession false) else .error "file is not a database"
      | none => .ok (memorySession false)
    else .ok (memorySession false)
  opens _ script := if script = attachScript then [.ofString "test.db"] else []
  applySchema_congr script files files' h := by
    by_cases hattach : script = attachScript
    · rw [if_pos hattach] at h
      rw [h _ (.head _)]
    · simp only [if_neg hattach]

/-- A log with a query and a line that is no entry, a script, and an empty file for a database. -/
def scripted (script : String) : Directory :=
  ⟨[([.ofString "queries.log"],
      some (.ofText "Query: SELECT a FROM t was executed 3 times\nno entry\n")),
    ([.ofString "schema.sql"], some (.ofText script)),
    ([.ofString "test.db"], some ⟨.empty⟩)]⟩

def scriptedConfig : Config :=
  { schemaPath := some (.ofString "schema.sql"), policy := .skip }

/-- The script with the table, under both policies. The query reads the whole table, and the line
that is no entry is skipped or ends the audit. A file that is no database in the place of the empty
one changes nothing, and neither does another path to it. -/
theorem audit_exit_scripted :
    let files := (scripted tableScript).file?
    let block :=
      "Query with SCAN: SELECT a FROM t is executed times: 3\n3 [(2, 0, 0, 'SCAN t')]\n\n"
    (scripted tableScript).location? scriptedConfig.databasePath = some [.ofString "test.db"] ∧
      runRequest scriptEngine
          ((scripted tableScript).set [.ofString "test.db"] (some (.ofText "no database"))).file?
          (.audit { scriptedConfig with databasePath := .ofString "other.db" } 0) =
        runRequest scriptEngine files (.audit scriptedConfig 0) ∧
      (runRequest scriptEngine files (.audit scriptedConfig 0)).status = 0 ∧
      (runRequest scriptEngine files (.audit scriptedConfig 0)).output = block ∧
      FailsAt scriptEngine files { scriptedConfig with policy := .stop } .running
        (.entry (.malformed ⟨2, "no entry", .missingOpening⟩)) ∧
      (runRequest scriptEngine files (.audit { scriptedConfig with policy := .stop } 0)).failure =
        some ⟨"Query log audit aborted", .entry (.malformed ⟨2, "no entry", .missingOpening⟩)⟩ ∧
      (runRequest scriptEngine files (.audit { scriptedConfig with policy := .stop } 0)).output =
        block := by
  intro files block
  have hdatabase : (scripted tableScript).location? scriptedConfig.databasePath =
      some [.ofString "test.db"] := by
    decide +kernel
  have hlog :
      (scripted tableScript).location? scriptedConfig.logPath ≠ some [.ofString "test.db"] := by
    decide +kernel
  have hschema :
      (scripted tableScript).location? (.ofString "schema.sql") ≠ some [.ofString "test.db"] := by
    decide +kernel
  have hscript : Files.readText files (.ofString "schema.sql") = .ok tableScript := rfl
  -- this script opens no file at all
  have hopens : ∀ text, Files.readText files (.ofString "schema.sql") = .ok text →
      ∀ path ∈ scriptEngine.opens files text,
        (scripted tableScript).location? path ≠ some [.ofString "test.db"] := by
    intro text htext path hpath
    obtain rfl := Except.ok.inj (hscript.symm.trans htext)
    have hnone : scriptEngine.opens files tableScript = [] := by decide +kernel
    rw [hnone] at hpath
    cases hpath
  have hbegun : Begun scriptEngine files { scriptedConfig with policy := .stop }
      "Query: SELECT a FROM t was executed 3 times\nno entry\n" ⟨none, memorySession true⟩ :=
    ⟨rfl, rfl⟩
  have hfails : FailsAt scriptEngine files { scriptedConfig with policy := .stop } .running
      (.entry (.malformed ⟨2, "no entry", .missingOpening⟩)) := .running hbegun rfl
  obtain ⟨hshows, -, hfree⟩ := audit_exit scriptEngine scriptedConfig 0
  obtain ⟨hstops, -, -⟩ := audit_exit scriptEngine { scriptedConfig with policy := .stop } 0
  refine ⟨hdatabase, (hfree _ rfl).2 (scripted tableScript) _ _ _ hdatabase hlog hschema hopens,
    ?_, ?_, hfails, ((hstops files).of_failsAt _ _ hfails).2, ?_⟩
  · decide +kernel
  · decide +kernel
  · decide +kernel

/-- The script that attaches the file. An empty file is a database, and then the audit completes. A
file that is none in its place ends it, although the path leads neither to the log nor to the
script. -/
theorem audit_exit_attached :
    let directory := scripted attachScript
    let replaced := directory.set [.ofString "test.db"] (some (.ofText "no database"))
    directory.location? scriptedConfig.databasePath = some [.ofString "test.db"] ∧
      directory.location? scriptedConfig.logPath ≠ some [.ofString "test.db"] ∧
      directory.location? (.ofString "schema.sql") ≠ some [.ofString "test.db"] ∧
      (runRequest scriptEngine directory.file? (.audit scriptedConfig 0)).status = 0 ∧
      (runRequest scriptEngine replaced.file? (.audit scriptedConfig 0)).status = 1 ∧
      runRequest scriptEngine replaced.file? (.audit scriptedConfig 0) ≠
        runRequest scriptEngine directory.file? (.audit scriptedConfig 0) := by
  intro directory replaced
  have hcompletes :
      (runRequest scriptEngine directory.file? (.audit scriptedConfig 0)).status = 0 := by
    decide +kernel
  have hends : (runRequest scriptEngine replaced.file? (.audit scriptedConfig 0)).status = 1 := by
    decide +kernel
  refine ⟨by decide +kernel, by decide +kernel, by decide +kernel, hcompletes, hends, ?_⟩
  intro hsame
  have : (1 : Nat) = 0 := by rw [← hends, hsame, hcompletes]
  cases this

end ScanAudit.CommandLine
