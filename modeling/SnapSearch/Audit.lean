import SnapSearch.Auth
import SnapSearch.Session

/-!
# The audit trail writer

`app/services/audit.py`: one row for every app searched, or one row for a denied
search.  Whatever fails while they are written is logged and swallowed.

## Main definitions

* `write` — `_write`.
* `okRows`, `deniedRows` — the rows of a search.
* `recordSearchOk`, `recordSearchDenied` — the writer's interface.
* `WriteFails` — what makes a write fail.

## Main results

* `ends_write` — **the writer never raises**, whatever fails.
* `exists_stored_runWith_write` — **a write stores its rows or fails**, and then it
  is logged.
* `runWith_write_of_healthy` — on a healthy database the rows are committed where
  the columns accept them, and the failure is counted where they do not.
-/

namespace SnapSearch

def auditWriteFailed : String :=
  "audit write failed — search response is preserved (CLAUDE.md rule)"

def metricIncrementFailed : String := "audit failure metric increment failed"

def auditRollbackFailed : String := "audit session rollback failed"

/-- What `_write` does once it has caught an exception. -/
def writeFailed (session : Conn) : Py Unit := do
  logException auditWriteFailed
  -- neither its telemetry nor a dead connection may raise here
  tryCatch (counterAdd 1) fun _ => logException metricIncrementFailed
  tryCatch (rollback session) fun _ => logException auditRollbackFailed

/-- `_write`. -/
def write (session : Conn) (rows : List SearchAuditLog) : Py Unit :=
  tryCatch (do addAll session rows; commit session) fun _ => writeFailed session

/-- The rows of a search: one for each app searched. -/
def okRows (context : AuthContext) (query : String) (resultsPerApp : List (String × ℕ)) :
    List SearchAuditLog :=
  resultsPerApp.map fun (app, count) =>
    { userId := context.userId, app := some app, originApp := context.originApp, query,
      resultsCount := some count, status := "ok" }

/-- The row of a denied search: no app was searched and nothing returned. -/
def deniedRows (context : AuthContext) (query : String) : List SearchAuditLog :=
  [{ userId := context.userId, app := none, originApp := context.originApp, query,
     resultsCount := none, status := "denied" }]

/-- `record_search_ok`. -/
def recordSearchOk (session : Conn) (context : AuthContext) (query : String)
    (resultsPerApp : List (String × ℕ)) : Py Unit :=
  write session (okRows context query resultsPerApp)

/-- `record_search_denied`. -/
def recordSearchDenied (session : Conn) (context : AuthContext) (query : String) : Py Unit :=
  write session (deniedRows context query)

/-! ### The calls of the writer -/

/-- The operations of the audit trail on a session. -/
def Op.Audit (session : Conn) : Op → Prop
  | .addAll c _ => c = session
  | .commit c => c = session
  | .rollback c => c = session
  | .counterAdd _ => True
  | .logException _ => True
  | _ => False

theorem calls_logException {A : Op → Prop} {message : String} (h : A (.logException message)) :
    (logException message).Calls A := ⟨h, fun _ => trivial⟩

theorem calls_writeFailed (session : Conn) : (writeFailed session).Calls (Op.Audit session) := by
  apply Prog.calls_bind (calls_logException trivial)
  intro _
  apply Prog.calls_bind
  · apply Prog.calls_handle (Prog.calls_perform trivial)
    intro _
    exact calls_logException trivial
  · intro _
    refine Prog.calls_handle (Prog.calls_perform rfl) ?_
    intro _
    exact calls_logException trivial

/-- The writer calls operations of the audit trail only. -/
theorem calls_write (session : Conn) (rows : List SearchAuditLog) :
    (write session rows).Calls (Op.Audit session) := by
  apply Prog.calls_handle
  · refine Prog.calls_bind (Prog.calls_perform rfl) ?_
    intro _
    exact Prog.calls_perform rfl
  · intro _
    exact calls_writeFailed session

/-! ### The writer never raises -/

variable {may : (o : Op) → Except Exn (Res o) → Prop}

theorem ends_writeFailed (session : Conn) : (writeFailed session).Ends may (· = .ok ()) := by
  have hlog : ∀ message, (logException message).Ends may (· = .ok ()) := by
    intro message _ _
    rfl
  -- a guarded step either succeeds or is logged
  have hguard : ∀ (p : Py Unit) (message : String),
      (p.handle fun _ => logException message).Ends may (· = .ok ()) := by
    intro p message
    apply Prog.ends_handle
    apply Prog.ends_of_forall
    intro r
    cases r with
    | ok a => rfl
    | error e => exact hlog message
  refine Prog.ends_bind ((hlog _).mono ?_)
  rintro _ rfl
  refine Prog.ends_bind ((hguard _ _).mono ?_)
  rintro _ rfl
  exact hguard _ _

/-- **The writer never raises**, whatever its operations answer. -/
theorem ends_write (session : Conn) (rows : List SearchAuditLog) :
    (write session rows).Ends may (· = .ok ()) := by
  apply Prog.ends_handle
  apply Prog.ends_of_forall
  intro r
  cases r with
  | ok a => rfl
  | error e => exact ends_writeFailed session

section Runs

variable {faults : Faults} {w : World}

/-- An operation of the audit trail leaves the database and the other session as
they are. -/
theorem perform_audit {session : Conn} {o : Op} (h : o.Audit session) (fault : Option Exn) :
    (perform fault w o).2.1.database = w.1.database ∧
      ∀ c, c ≠ session → (perform fault w o).2.2.get c = w.2.get c := by
  -- setting one session leaves the other
  have hset : ∀ (s : Session) (c : Conn), c ≠ session → (w.2.set session s).get c = w.2.get c := by
    intro s c hc
    cases session <;> cases c <;> first | rfl | exact absurd rfl hc
  cases o with
  | addAll c rows =>
    cases h
    cases fault with
    | none => exact ⟨rfl, hset _⟩
    | some e => exact ⟨rfl, fun _ _ => rfl⟩
  | commit c =>
    cases h
    cases fault with
    | none =>
      simp only [perform, answer]
      split
      · exact ⟨rfl, fun _ _ => rfl⟩
      · exact ⟨rfl, hset _⟩
    | some e => exact ⟨rfl, fun _ _ => rfl⟩
  | rollback c =>
    cases h
    cases fault with
    | none => exact ⟨rfl, hset _⟩
    | some e => exact ⟨rfl, fun _ _ => rfl⟩
  | counterAdd amount => cases fault <;> exact ⟨rfl, fun _ _ => rfl⟩
  | logException message => cases fault <;> exact ⟨rfl, fun _ _ => rfl⟩
  | _ => exact h.elim

/-- A run of the writer never raises, whatever fails, and it leaves the database and
the other session as they are. -/
theorem runWith_write (faults : Faults) (w : World) (session : Conn) (rows : List SearchAuditLog) :
    ∃ w', (write session rows).runWith faults w = (.ok (), w') ∧
      w'.1.database = w.1.database ∧ ∀ c, c ≠ session → w'.2.get c = w.2.get c := by
  have hends : (write session rows).Ends (fun _ _ => True) (· = .ok ()) := ends_write session rows
  have hok := hends.run (fun w o => perform (faults o) w o) (fun _ _ => trivial) w
  refine ⟨_, Prod.ext hok rfl, ?_⟩
  refine Prog.run_invariant
    (P := fun w' : World =>
      w'.1.database = w.1.database ∧ ∀ c, c ≠ session → w'.2.get c = w.2.get c)
    ?_ (calls_write session rows) ⟨rfl, fun _ _ => rfl⟩
  intro w' o ho h
  obtain ⟨hdatabase, hget⟩ := perform_audit (w := w') ho (faults o)
  refine ⟨hdatabase.trans h.1, ?_⟩
  intro c hc
  exact (hget c hc).trans (h.2 c hc)

/-- What is done about a failed write stores nothing, and is logged. -/
theorem runWith_writeFailed (faults : Faults) (w : World) (session : Conn) :
    let after := ((writeFailed session).runWith faults w).2.1
    after.searchAuditLog = w.1.searchAuditLog ∧
      after.errorLog.count auditWriteFailed = w.1.errorLog.count auditWriteFailed + 1 := by
  have hmetric : auditWriteFailed ≠ metricIncrementFailed := by decide
  have hrollback : auditWriteFailed ≠ auditRollbackFailed := by decide
  cases hc : faults (.counterAdd 1) <;> cases hr : faults (.rollback session) <;>
    simp [writeFailed, logException, counterAdd, rollback, Prog.perform, Prog.bind, Prog.handle,
      Py.runWith_call, perform, answer, hc, hr, hmetric.symm, hrollback.symm]

/-- A write of the rows fails: the rows cannot be added or committed, or a column
refuses a value. -/
def WriteFails (faults : Faults) (session : Conn) (rows : List SearchAuditLog) : Prop :=
  (faults (.addAll session rows)).isSome ∨ (faults (.commit session)).isSome ∨
    ¬∃ stored, storeAll rows = .ok stored

/-- What a write comes to before its failure is handled: the rows are stored, or it
fails and nothing is. -/
theorem runWith_addAll_commit (faults : Faults) (rows : List SearchAuditLog)
    (hw : w.2.auditDb.pending = []) :
    let r := (addAll .getAuditDb rows >>= fun _ => commit .getAuditDb).runWith faults w
    (¬WriteFails faults .getAuditDb rows ∧ ∃ stored, storeAll rows = .ok stored ∧
      r = (.ok (), ({ w.1 with searchAuditLog := w.1.searchAuditLog ++ stored },
        { w.2 with auditDb := {} }))) ∨
    WriteFails faults .getAuditDb rows ∧
      ∃ e w', r = (.error e, w') ∧ w'.1 = w.1 ∧ w'.2.db = w.2.db := by
  intro r
  cases hadd : faults (.addAll .getAuditDb rows) with
  | some e =>
    refine Or.inr ⟨Or.inl (by rw [hadd]; rfl), e, w, Py.runWith_bind_of_error ?_, rfl, rfl⟩
    simp [addAll, Prog.perform, Py.runWith_call, hadd, perform]
  | none =>
    have hadded : (addAll .getAuditDb rows).runWith faults w =
        (.ok (), (w.1, { w.2 with auditDb := { w.2.auditDb with pending := rows } })) := by
      simp [addAll, Prog.perform, Py.runWith_call, hadd, perform, answer, hw]
    have hrun := Py.runWith_bind_of_ok (f := fun _ => commit .getAuditDb) hadded
    cases hcommit : faults (.commit .getAuditDb) with
    | some e =>
      have hfails : WriteFails faults .getAuditDb rows :=
        Or.inr (Or.inl (by rw [hcommit]; rfl))
      refine Or.inr ⟨hfails, e,
        (w.1, { w.2 with auditDb := { w.2.auditDb with pending := rows } }),
        hrun.trans ?_, rfl, rfl⟩
      simp [commit, Prog.perform, Py.runWith_call, hcommit, perform]
    | none =>
      cases hstore : storeAll rows with
      | error e =>
        have hfails : WriteFails faults .getAuditDb rows := Or.inr (Or.inr (by simp [hstore]))
        refine Or.inr ⟨hfails, e,
          (w.1, { w.2 with auditDb := { w.2.auditDb with pending := rows } }),
          hrun.trans ?_, rfl, rfl⟩
        simp [commit, Prog.perform, Py.runWith_call, hcommit, perform, answer, hstore]
      | ok stored =>
        refine Or.inl ⟨by simp [WriteFails, hadd, hcommit, hstore], stored, rfl, hrun.trans ?_⟩
        simp [commit, Prog.perform, Py.runWith_call, hcommit, perform, answer, hstore]

/-- **A write stores its rows or fails**, and a failed one stores nothing and is
logged. -/
theorem exists_stored_runWith_write (faults : Faults) (rows : List SearchAuditLog)
    (hw : w.2.auditDb.pending = []) :
    let after := ((write .getAuditDb rows).runWith faults w).2.1
    ∃ stored, after.searchAuditLog = w.1.searchAuditLog ++ stored ∧
      (¬WriteFails faults .getAuditDb rows ∧ storeAll rows = .ok stored ∨
        WriteFails faults .getAuditDb rows ∧ stored = [] ∧
          after.errorLog.count auditWriteFailed = w.1.errorLog.count auditWriteFailed + 1) := by
  intro after
  rcases runWith_addAll_commit faults rows hw with
    ⟨hstores, stored, hstore, hrun⟩ | ⟨hfails, e, w', hrun, hshared, -⟩
  · have hafter : after = { w.1 with searchAuditLog := w.1.searchAuditLog ++ stored } :=
      congrArg (fun x => x.2.1) (Py.runWith_handle_of_ok hrun)
    exact ⟨stored, by rw [hafter], Or.inl ⟨hstores, hstore⟩⟩
  · have hafter : after = ((writeFailed .getAuditDb).runWith faults w').2.1 :=
      congrArg (fun x => x.2.1) (Py.runWith_handle_of_error hrun)
    obtain ⟨hlog, hcount⟩ := runWith_writeFailed faults w' .getAuditDb
    rw [← hafter, hshared] at hlog hcount
    exact ⟨[], by rw [hlog, List.append_nil], Or.inr ⟨hfails, rfl, hcount⟩⟩

/-- On a healthy database the rows are committed where the columns accept them,
and the failure is logged and counted where they do not. -/
theorem runWith_write_of_healthy (rows : List SearchAuditLog)
    (hw : w.2.auditDb.pending = []) :
    (write .getAuditDb rows).runWith noFaults w =
      (.ok (), match storeAll rows with
        | .ok stored =>
            ({ w.1 with searchAuditLog := w.1.searchAuditLog ++ stored },
              { w.2 with auditDb := {} })
        | .error _ =>
            ({ w.1 with auditWriteFailures := w.1.auditWriteFailures + 1
                        errorLog := w.1.errorLog ++ [auditWriteFailed] },
              { w.2 with auditDb := {} })) := by
  rcases runWith_addAll_commit noFaults rows hw with
    ⟨-, stored, hstore, hrun⟩ | ⟨hfails, e, ⟨shared, sessions⟩, hrun, hshared, hdb⟩
  · rw [hstore]
    exact Py.runWith_handle_of_ok hrun
  · -- the columns are all that can refuse the rows
    have hrefused : ¬∃ stored, storeAll rows = .ok stored := by
      simpa [WriteFails, noFaults] using hfails
    cases hstore : storeAll rows with
    | ok stored => exact absurd ⟨stored, hstore⟩ hrefused
    | error e' =>
      refine (Py.runWith_handle_of_error hrun).trans ?_
      simp only at hshared hdb
      subst hshared
      simp [writeFailed, logException, counterAdd, rollback, Prog.perform, Prog.bind, Prog.handle,
        Py.runWith_call, noFaults, perform, answer, hdb]

end Runs

end SnapSearch
