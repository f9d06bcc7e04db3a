import ScanAudit.Audit.Session

/-!
# Sample workspaces

A workspace is a directory with a database for a messaging application, and a query log once one
is written. Its column `session_id` of messages has no index on purpose.

* `Workspace.new` — a workspace with its database and without a log
* `Workspace.writeLog`, `Workspace.writeRawLog`, `Workspace.writeSchema` — files put into it
* `Workspace.audit` — the audit of its files
-/

namespace ScanAudit

open Audit

structure Workspace where
  directory : Directory

namespace Workspace

def schema : String :=
  "
    CREATE TABLE recipients (
        id INTEGER PRIMARY KEY AUTOINCREMENT,
        e164 VARCHAR(25) UNIQUE,
        uuid VARCHAR(36) UNIQUE,
        profile_joined_name TEXT,
        is_blocked BOOLEAN NOT NULL DEFAULT 0
    );

    CREATE TABLE sessions (
        id INTEGER PRIMARY KEY AUTOINCREMENT,
        direct_message_recipient_id INTEGER REFERENCES recipients(id),
        is_archived BOOLEAN NOT NULL DEFAULT 0,
        is_pinned BOOLEAN NOT NULL DEFAULT 0
    );

    CREATE TABLE messages (
        id INTEGER PRIMARY KEY AUTOINCREMENT,
        session_id INTEGER NOT NULL REFERENCES sessions(id),
        sender_recipient_id INTEGER REFERENCES recipients(id),
        server_timestamp TIMESTAMP NOT NULL,
        is_read BOOLEAN NOT NULL DEFAULT 0,
        text TEXT
    );
    CREATE INDEX message_server_timestamp ON messages(server_timestamp);

    CREATE TABLE attachments (
        id INTEGER PRIMARY KEY AUTOINCREMENT,
        message_id INTEGER NOT NULL REFERENCES messages(id),
        content_type TEXT NOT NULL
    );
    CREATE INDEX attachment_message ON attachments(message_id);

    CREATE TABLE reactions (
        reaction_id INTEGER PRIMARY KEY AUTOINCREMENT,
        message_id INTEGER NOT NULL REFERENCES messages(id),
        author INTEGER NOT NULL REFERENCES recipients(id),
        emoji TEXT NOT NULL
    );
"

def databaseName : String := "test.db"

def logName : String := "queries.log"

/-- A workspace with the file that a database engine makes of the schema. -/
def new (database : File) : Workspace :=
  ⟨Directory.empty.put (.ofString databaseName) (some database)⟩

def writeFile (workspace : Workspace) (name text : String) : Workspace :=
  ⟨workspace.directory.put (.ofString name) (some (.ofText text))⟩

def writeRawLog (workspace : Workspace) (text : String) : Workspace :=
  workspace.writeFile logName text

def writeLog (workspace : Workspace) (records : List (String × Nat)) : Workspace :=
  workspace.writeRawLog (Log.write records)

def writeSchema (workspace : Workspace) (name : String) : Workspace :=
  workspace.writeFile name schema

/-- The log that was written, if any. -/
def log? (workspace : Workspace) : Option String :=
  (workspace.directory.file? (.ofString logName)).bind File.text?

def config : Config :=
  { logPath := .ofString logName, databasePath := .ofString databaseName }

def audit (workspace : Workspace) (engine : Engine) (config : Config) :
    Except AuditError (Summary × String) :=
  (perform engine workspace.directory.file? config none).result

end Workspace

end ScanAudit
