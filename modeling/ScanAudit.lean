import ScanAudit.Main
import ScanAudit.Path
import ScanAudit.Json.Writer
import ScanAudit.Proofs.Audit.Attribution
import ScanAudit.Proofs.Audit.LimitedOutput
import ScanAudit.Proofs.Audit.Policies
import ScanAudit.Proofs.Log.Written
import ScanAudit.Proofs.Plan.Listing
import ScanAudit.Stored.Audit
import ScanAudit.Stored.Explain
import ScanAudit.Stored.Log
import ScanAudit.Stored.Plan
import ScanAudit.Workspace
import ScanAudit.Proofs.Log.Numbering
import ScanAudit.Proofs.Audit.Concatenation
import ScanAudit.Proofs.Explain.Rendering
import ScanAudit.Proofs.Audit.Reports
import ScanAudit.Proofs.Audit.Clearing
import ScanAudit.Proofs.Audit.Events
import ScanAudit.Proofs.Plan.Orphans
import ScanAudit.Proofs.Text.Keyword
import ScanAudit.Proofs.Text.Word
import ScanAudit.Proofs.Plan.PlainScan
import ScanAudit.Proofs.Plan.IndexLookup
import ScanAudit.Proofs.CommandLine.Stages
import ScanAudit.Proofs.Plan.LetterCase
import ScanAudit.Proofs.Plan.TableWord
import ScanAudit.Proofs.Log.Refusal
import ScanAudit.Proofs.Log.LineEnds
import ScanAudit.Proofs.Plan.Pieces
import ScanAudit.Proofs.Audit.Flagging
import ScanAudit.Proofs.Audit.Checking
import ScanAudit.Proofs.Stored.ReadBack
import ScanAudit.Proofs.Audit.Ranking
import ScanAudit.Proofs.Plan.Walk
