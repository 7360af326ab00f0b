import SnapSearch.Answers
import SnapSearch.Audit
import SnapSearch.AuditGuard
import SnapSearch.Auth
import SnapSearch.Config
import SnapSearch.Connections
import SnapSearch.Cursors
import SnapSearch.Disclosure
import SnapSearch.Failures
import SnapSearch.Format
import SnapSearch.Isolation
import SnapSearch.JointWalk
import SnapSearch.Ledger
import SnapSearch.Lib.Growing
import SnapSearch.Lib.Keyset
import SnapSearch.Lib.Like
import SnapSearch.Lib.Pool
import SnapSearch.Lib.Prog
import SnapSearch.Lib.Script
import SnapSearch.Lib.Serial
import SnapSearch.Lib.Transaction
import SnapSearch.Lib.Uuid
import SnapSearch.Lib.Visits
import SnapSearch.Migration
import SnapSearch.Months
import SnapSearch.Narrowing
import SnapSearch.Pagination
import SnapSearch.Progress
import SnapSearch.Revisions
import SnapSearch.Schemas
import SnapSearch.Scope
import SnapSearch.SecondRevision
import SnapSearch.Serial
import SnapSearch.Service
import SnapSearch.Session
import SnapSearch.Snapshots
import SnapSearch.Sql
import SnapSearch.Strategies
import SnapSearch.Text
import SnapSearch.Trail
import SnapSearch.Trust
import SnapSearch.Wire
import SnapSearch.Writers
