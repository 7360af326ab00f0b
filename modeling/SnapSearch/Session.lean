import SnapSearch.Lib.Prog
import SnapSearch.Sql

/-!
# Sessions and what they do

A request has two database sessions of its own, one for the search and one for
the audit trail (`app/db.py`); the counter of failed audit writes and the
application's error log are shared by all requests.  The service's code is a
program over the operations below, so the same code is run alone, interleaved
with other requests, or examined over every failure.

## Main definitions

* `Conn`, `Op`, `Res` — the sessions, the operations on them, their answers.
* `Py` — the programs of the service.
* `Shared`, `Sessions`, `World` — what requests share, and what each has.
* `answer` — what an operation does when nothing fails.
* `perform` — what it does, given the exception it may fail with.
-/

namespace SnapSearch

/-- The two sessions of a request: `get_db` and `get_audit_db`. -/
inductive Conn
  | getDb
  | getAuditDb
  deriving DecidableEq

/-- The operations of the service's code on what is not its own. -/
inductive Op
  | selectReports (session : Conn) (stmt : CountByMonth AnalyticsReport)
  | selectRows (app : Paginated) (session : Conn) (stmt : Select app.Row)
  | addAll (session : Conn) (rows : List SearchAuditLog)
  | commit (session : Conn)
  | rollback (session : Conn)
  /-- `audit_write_failures.add(amount)`. -/
  | counterAdd (amount : ℕ)
  /-- `logger.exception(message)`. -/
  | logException (message : String)

/-- What an operation answers. -/
abbrev Res : Op → Type
  | .selectReports _ _ => List (String × ℕ)
  | .selectRows app _ _ => List app.Row
  | _ => Unit

/-- The programs of the service. -/
abbrev Py := Prog Exn Res

/-- `session.execute(stmt).scalars().all()`. -/
def selectRows (app : Paginated) (session : Conn) (stmt : Select app.Row) : Py (List app.Row) :=
  Prog.perform (Op.selectRows app session stmt)

/-- `session.execute(…).all()`. -/
def selectReports (session : Conn) (stmt : CountByMonth AnalyticsReport) :
    Py (List (String × ℕ)) :=
  Prog.perform (Op.selectReports session stmt)

/-- `session.add_all(rows)`. -/
def addAll (session : Conn) (rows : List SearchAuditLog) : Py Unit :=
  Prog.perform (Op.addAll session rows)

/-- `session.commit()`. -/
def commit (session : Conn) : Py Unit := Prog.perform (Op.commit session)

/-- `session.rollback()`. -/
def rollback (session : Conn) : Py Unit := Prog.perform (Op.rollback session)

/-- `audit_write_failures.add(amount)`. -/
def counterAdd (amount : ℕ) : Py Unit := Prog.perform (Op.counterAdd amount)

/-- `logger.exception(message)`: the logging library deals with the failures of
its own handlers. -/
def logException (message : String) : Py Unit := .call (.logException message) fun _ => .pure ()

/-! ### The state -/

/-- A session: the objects added and not yet flushed, and whether a transaction
is open. -/
structure Session where
  pending : List SearchAuditLog := []
  inTransaction : Bool := false
  deriving DecidableEq

/-- The two sessions of a request. -/
structure Sessions where
  db : Session := {}
  auditDb : Session := {}
  deriving DecidableEq

def Sessions.get (s : Sessions) : Conn → Session
  | .getDb => s.db
  | .getAuditDb => s.auditDb

def Sessions.set (s : Sessions) : Conn → Session → Sessions
  | .getDb, session => { s with db := session }
  | .getAuditDb, session => { s with auditDb := session }

@[simp] theorem Sessions.get_db (s : Sessions) : s.get .getDb = s.db := rfl

@[simp] theorem Sessions.get_auditDb (s : Sessions) : s.get .getAuditDb = s.auditDb := rfl

@[simp] theorem Sessions.set_auditDb (s : Sessions) (session : Session) :
    s.set .getAuditDb session = { s with auditDb := session } := rfl

@[simp] theorem Sessions.set_db (s : Sessions) (session : Session) :
    s.set .getDb session = { s with db := session } := rfl

/-- What all requests share: the database, the audit log, the counter of failed
audit writes and the error log of the application. -/
structure Shared where
  database : Database
  searchAuditLog : List AuditRow := []
  auditWriteFailures : ℕ := 0
  errorLog : List String := []

/-- What one request meets. -/
abbrev World := Shared × Sessions

/-- The first use of a session opens a transaction. -/
def World.begin (w : World) (c : Conn) : World :=
  (w.1, w.2.set c { w.2.get c with inTransaction := true })

/-- Convert each row for its columns; the first refused value is reported. -/
def storeAll : List SearchAuditLog → Except Exn (List AuditRow)
  | [] => .ok []
  | row :: rows =>
      match row.store with
      | .error e => .error e
      | .ok stored => (storeAll rows).map (stored :: ·)

theorem exists_storeAll_eq_ok_iff {rows : List SearchAuditLog} :
    (∃ stored, storeAll rows = .ok stored) ↔ ∀ row ∈ rows, ∃ stored, row.store = .ok stored := by
  induction rows with
  | nil => simp [storeAll]
  | cons row rows ih =>
    rw [List.forall_mem_cons, ← ih, storeAll]
    cases row.store with
    | error e => simp
    | ok stored => cases storeAll rows <;> simp [Except.map]

/-- The stored rows have the apps and the counts of the rows sent. -/
theorem map_of_storeAll {rows : List SearchAuditLog} {stored : List AuditRow}
    (h : storeAll rows = .ok stored) :
    stored.map (fun row => (row.app, row.resultsCount))
      = rows.map fun row => (row.app, row.resultsCount) := by
  induction rows generalizing stored with
  | nil =>
    cases h
    rfl
  | cons row rows ih =>
    rw [storeAll] at h
    split at h
    · cases h
    · next first hfirst =>
      obtain ⟨-, happ, -, -, hcount, -⟩ := SearchAuditLog.store_eq_ok hfirst
      cases hrest : storeAll rows with
      | error e =>
        rw [hrest] at h
        cases h
      | ok rest =>
        rw [hrest] at h
        cases h
        rw [List.map_cons, List.map_cons, happ, hcount, ih hrest]

/-! ### The operations -/

/-- What an operation does when nothing fails: a `SELECT` reads the tables, and a
commit makes the pending rows durable where the columns accept every one. -/
def answer (w : World) : (o : Op) → Except Exn (Res o) × World
  | .selectReports c stmt =>
      (stmt.execute w.1.database.server w.1.database.analyticsReports.rows, w.begin c)
  | .selectRows app c stmt =>
      (stmt.execute w.1.database.server (w.1.database.table app).rows, w.begin c)
  | .addAll c rows =>
      (.ok (), (w.1, w.2.set c { w.2.get c with pending := (w.2.get c).pending ++ rows }))
  | .commit c =>
      -- the pending rows are written together or not at all
      match storeAll (w.2.get c).pending with
      | .error e => (.error e, w)
      | .ok rows =>
          (.ok (), ({ w.1 with searchAuditLog := w.1.searchAuditLog ++ rows }, w.2.set c {}))
  | .rollback c => (.ok (), (w.1, w.2.set c {}))
  | .counterAdd amount =>
      (.ok (), ({ w.1 with auditWriteFailures := w.1.auditWriteFailures + amount }, w.2))
  | .logException message =>
      (.ok (), ({ w.1 with errorLog := w.1.errorLog ++ [message] }, w.2))

/-- What an operation does, given the exception it fails with: a failed one
leaves nothing behind.  Logging is the exception: it has no failure to report. -/
def perform (fault : Option Exn) (w : World) (o : Op) : Except Exn (Res o) × World :=
  match o, fault with
  | .logException message, _ => answer w (.logException message)
  | _, some e => (.error e, w)
  | o, none => answer w o

/-- The exception each operation of a run fails with, if any. -/
abbrev Faults := Op → Option Exn

/-- Run a program alone, with the failures given. -/
def Py.runWith {α : Type} (faults : Faults) (p : Py α) (w : World) : Except Exn α × World :=
  Prog.run (fun w o => perform (faults o) w o) p w

/-- No operation fails. -/
def noFaults : Faults := fun _ => none

/-- Run a program alone on a database that answers. -/
def Py.runOn {α : Type} (p : Py α) (database : Database) : Except Exn α :=
  (p.runWith noFaults ({ database }, {})).1

/-! ### What an operation may answer -/

/-- An operation answers with a result or with an exception from below. -/
def Op.MayAnswer (o : Op) (r : Except Exn (Res o)) : Prop := ∀ e, r = .error e → e.Internal

theorem internal_of_store {row : SearchAuditLog} {e : Exn} (h : row.store = .error e) :
    e.Internal := by
  unfold SearchAuditLog.store at h
  split at h
  · cases h; trivial
  · split at h
    · cases h; trivial
    · split at h
      · cases h; trivial
      · split at h <;> cases h
        trivial

theorem internal_of_storeAll {rows : List SearchAuditLog} {e : Exn}
    (h : storeAll rows = .error e) : e.Internal := by
  induction rows with
  | nil => cases h
  | cons row rows ih =>
    rw [storeAll] at h
    split at h
    · next herror =>
      cases h
      exact internal_of_store herror
    · cases hrest : storeAll rows with
      | ok stored =>
        rw [hrest] at h
        cases h
      | error e' =>
        rw [hrest] at h
        cases h
        exact ih hrest

/-- The operations answer what they may, as long as their failures do. -/
theorem mayAnswer_perform {fault : Option Exn} (h : ∀ e ∈ fault, e.Internal) (w : World) (o : Op) :
    o.MayAnswer (perform fault w o).1 := by
  intro e he
  cases fault with
  | some e' =>
    cases o <;> cases he <;> exact h _ rfl
  | none =>
    cases o with
    | selectReports c stmt =>
      simp only [perform, answer, CountByMonth.execute] at he
      cases hcheck : Condition.checkAll w.1.database.server stmt.conditions with
      | ok v => rw [hcheck] at he; cases he
      | error e' => rw [hcheck] at he; cases he; exact Condition.internal_of_checkAll hcheck
    | selectRows app c stmt =>
      simp only [perform, answer, Select.execute] at he
      cases hcheck : Condition.checkAll w.1.database.server stmt.conditions with
      | ok v => rw [hcheck] at he; cases he
      | error e' => rw [hcheck] at he; cases he; exact Condition.internal_of_checkAll hcheck
    | commit c =>
      simp only [perform, answer] at he
      split at he
      · next hstore => cases he; exact internal_of_storeAll hstore
      · cases he
    | _ => cases he

/-! ### Runs -/

namespace Py

variable {α β : Type} {faults : Faults} {w w' : World}

@[simp] theorem runWith_pure (a : α) : runWith faults (.pure a) w = (.ok a, w) := rfl

@[simp] theorem runWith_raise (e : Exn) :
    runWith faults (.raise e : Py α) w = (.error e, w) := rfl

@[simp] theorem runWith_ofExcept (r : Except Exn α) : runWith faults (.ofExcept r) w = (r, w) :=
  Prog.run_ofExcept _ _ _

theorem runWith_call (o : Op) (k : Except Exn (Res o) → Py α) :
    runWith faults (.call o k) w =
      runWith faults (k (perform (faults o) w o).1) (perform (faults o) w o).2 := rfl

theorem runWith_bind_of_ok {p : Py α} {f : α → Py β} {a : α}
    (h : runWith faults p w = (.ok a, w')) :
    runWith faults (p.bind f) w = runWith faults (f a) w' := by
  unfold runWith at h ⊢
  rw [Prog.run_bind, h]

theorem runWith_bind_of_error {p : Py α} {f : α → Py β} {e : Exn}
    (h : runWith faults p w = (.error e, w')) : runWith faults (p.bind f) w = (.error e, w') := by
  unfold runWith at h ⊢
  rw [Prog.run_bind, h]

theorem runWith_bind_pure {p : Py α} {f : α → β} {r : Except Exn α}
    (h : runWith faults p w = (r, w')) :
    runWith faults (p.bind fun a => .pure (f a)) w = (r.map f, w') := by
  cases r with
  | ok a => exact runWith_bind_of_ok h
  | error e => exact runWith_bind_of_error h

theorem runWith_handle_of_ok {p : Py α} {f : Exn → Py α} {a : α}
    (h : runWith faults p w = (.ok a, w')) : runWith faults (p.handle f) w = (.ok a, w') := by
  unfold runWith at h ⊢
  rw [Prog.run_handle, h]

theorem runWith_handle_of_error {p : Py α} {f : Exn → Py α} {e : Exn}
    (h : runWith faults p w = (.error e, w')) :
    runWith faults (p.handle f) w = runWith faults (f e) w' := by
  unfold runWith at h ⊢
  rw [Prog.run_handle, h]

variable (faults w) in
theorem runWith_selectRows (app : Paginated) (c : Conn) (stmt : Select app.Row) :
    (selectRows app c stmt).runWith faults w =
      match faults (.selectRows app c stmt) with
      | some e => (.error e, w)
      | none => (stmt.execute w.1.database.server (w.1.database.table app).rows, w.begin c) := by
  rw [selectRows, Prog.perform, runWith_call]
  cases h : faults (.selectRows app c stmt) <;> exact runWith_ofExcept _

variable (faults w) in
theorem runWith_selectReports (c : Conn) (stmt : CountByMonth AnalyticsReport) :
    (selectReports c stmt).runWith faults w =
      match faults (.selectReports c stmt) with
      | some e => (.error e, w)
      | none => (stmt.execute w.1.database.server w.1.database.analyticsReports.rows,
          w.begin c) := by
  rw [selectReports, Prog.perform, runWith_call]
  cases h : faults (.selectReports c stmt) <;> exact runWith_ofExcept _

end Py

end SnapSearch
