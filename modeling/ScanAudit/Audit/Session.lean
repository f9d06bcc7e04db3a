import ScanAudit.Audit.Run

/-!
# An audit from its configuration

The log is read first, then the database is opened, then the audit runs: the first stage that
fails hides what the later ones would say.
-/

namespace ScanAudit.Audit

inductive Outcome
  | unreadable (error : AuditError)
  | unopened (error : AuditError)
  | ran (db : Database) (run : Run)

def perform (engine : Engine) (files : Files) (config : Config) (limit : Option Nat) : Outcome :=
  match files.readText config.logPath with
  | .error error => .unreadable error
  | .ok log =>
    match Database.ofConfig engine files config with
    | .error error => .unopened error
    | .ok db => .ran db (run db config.policy log limit)

/-- The summary and the report of an audit that is complete, else the error of the stage that
failed. -/
def Outcome.result : Outcome → Except AuditError (Summary × String)
  | .unreadable error => .error error
  | .unopened error => .error error
  | .ran _ run => run.result.map (·, run.output)

end ScanAudit.Audit
