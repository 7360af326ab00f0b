import SnapSearch.Service

/-!
# The books of a request

What the calls of one request add up to, kept in a ledger of its own: the rows in
its audit session, the batch it has committed, what it has counted and logged.
The rules of the program logic give, for whatever the operations answer, the
ledger a search ends with; and the state of the service agrees with the ledger.

## Main definitions

* `Ledger`, `Ledger.next` — the books, and how a call changes them.
* `Ledger.Settled` — the batch is committed, or its loss is noted.
* `SearchEnd` — how the books of a search end.
* `Booked` — what a call does to the service and to the books.

## Main results

* `obeys_write`, `obeys_runSearch` — **a search ends with its batch committed
  whole, or with its loss noted once, or with nothing at all.**
* `booked_perform` — the operations do what the books say.
* `exists_searchEnd` — a search run alone ends as its books say.
-/

namespace SnapSearch

/-! ### The ledger -/

/-- What the calls of a request add up to. -/
structure Ledger where
  /-- The rows added to the audit session and not yet committed. -/
  pending : List SearchAuditLog := []
  /-- The rows committed. -/
  committed : Option (List SearchAuditLog) := none
  /-- What the counter of failed audit writes was incremented by. -/
  counted : ℕ := 0
  /-- The messages logged. -/
  logged : List String := []

namespace Ledger

/-- The ledger after a call. -/
def next (g : Ledger) : (o : Op) → Except Exn (Res o) → Ledger
  | .addAll .getAuditDb rows, .ok _ => { g with pending := g.pending ++ rows }
  | .commit .getAuditDb, .ok _ => { g with pending := [], committed := some g.pending }
  | .rollback .getAuditDb, .ok _ => { g with pending := [] }
  | .counterAdd amount, .ok _ => { g with counted := g.counted + amount }
  | .logException message, _ => { g with logged := g.logged ++ [message] }
  | _, _ => g

/-- The entries of the books: a committed batch, a count, or a count that failed. -/
def entries (g : Ledger) : ℕ :=
  (if g.committed.isSome then 1 else 0) + g.counted + g.logged.count metricIncrementFailed

/-- What holds when a request makes a call: nothing is committed yet, and the call
is one of the two that a search makes. -/
def Open (g : Ledger) (o : Op) : Prop :=
  g.committed = none ∧ g.entries ≤ 1 ∧ (o.Reads .getDb ∨ o.Audit .getAuditDb)

/-- The rows are committed and nothing else is, or nothing is and the failure has
been logged and counted, or logged where it could not be counted. -/
def Settled (g : Ledger) (rows : List SearchAuditLog) : Prop :=
  g = { committed := some rows } ∨
    g.committed = none ∧ g.logged.count auditWriteFailed = 1 ∧
      g.counted + g.logged.count metricIncrementFailed = 1

theorem Settled.entries_eq {g : Ledger} {rows : List SearchAuditLog} (h : g.Settled rows) :
    g.entries = 1 := by
  rcases h with rfl | ⟨hcommitted, -, hcount⟩
  · rfl
  · rw [entries, hcommitted]
    simpa using hcount

theorem Settled.committed_add_logged {g : Ledger} {rows : List SearchAuditLog}
    (h : g.Settled rows) :
    (if g.committed.isSome then 1 else 0) + g.logged.count auditWriteFailed = 1 := by
  rcases h with rfl | ⟨hcommitted, hlogged, -⟩
  · rfl
  · rw [hcommitted, hlogged]
    rfl

theorem Settled.eq_of_committed {g : Ledger} {rows rows' : List SearchAuditLog}
    (h : g.Settled rows) (hcommitted : g.committed = some rows') : rows' = rows := by
  rcases h with rfl | ⟨hnone, -⟩
  · exact (Option.some.inj hcommitted).symm
  · rw [hnone] at hcommitted
    cases hcommitted

/-- Reading leaves the books alone. -/
theorem next_of_reads (g : Ledger) {session : Conn} (o : Op) (r : Except Exn (Res o))
    (h : o.Reads session) : g.next o r = g := by
  cases o with
  | selectReports c stmt => rfl
  | selectRows app c stmt => rfl
  | _ => exact h.elim

end Ledger

/-! ### The writer -/

section Writer

variable {may : (o : Op) → Except Exn (Res o) → Prop}

theorem obeys_logException {J : Ledger → Op → Prop} {Q : Ledger → Except Exn Unit → Prop}
    {g : Ledger} {message : String} (hJ : J g (.logException message))
    (h : Q { g with logged := g.logged ++ [message] } (.ok ())) :
    (logException message).Obeys may Ledger.next J Q g := ⟨hJ, fun _ _ => h⟩

/-- What `_write` does once it has caught an exception settles the books. -/
theorem obeys_writeFailed (rows pending : List SearchAuditLog) :
    (writeFailed .getAuditDb).Obeys may Ledger.next Ledger.Open
      (fun g r => r = .ok () ∧ g.Settled rows) { pending } := by
  have hne : auditWriteFailed ≠ metricIncrementFailed ∧ auditRollbackFailed ≠ auditWriteFailed ∧
      auditRollbackFailed ≠ metricIncrementFailed ∧ metricIncrementFailed ≠ auditWriteFailed := by
    decide +kernel
  obtain ⟨h₁, h₂, h₃, h₄⟩ := hne
  -- the last step: whatever the rollback answers, what is noted stays noted
  have hrollback : ∀ g : Ledger, g.committed = none → g.logged.count auditWriteFailed = 1 →
      g.counted + g.logged.count metricIncrementFailed = 1 →
      (tryCatch (rollback .getAuditDb) fun _ => logException auditRollbackFailed).Obeys may
        Ledger.next Ledger.Open (fun g r => r = .ok () ∧ g.Settled rows) g := by
    intro g hcommitted hlogged hcounted
    have hentries : g.entries ≤ 1 := by
      rw [Ledger.entries, hcommitted]
      simpa using hcounted.le
    apply Prog.obeys_handle
    apply Prog.obeys_perform ⟨hcommitted, hentries, Or.inr rfl⟩
    intro r _
    cases r with
    | ok a => exact ⟨rfl, Or.inr ⟨hcommitted, hlogged, hcounted⟩⟩
    | error e =>
      refine obeys_logException ⟨hcommitted, hentries, Or.inr trivial⟩
        ⟨rfl, Or.inr ⟨hcommitted, ?_⟩⟩
      rw [List.count_append, List.count_append, List.count_singleton, List.count_singleton]
      simp [h₂, h₃, Ledger.next, hlogged, hcounted]
  apply Prog.obeys_bind
  apply obeys_logException ⟨rfl, Nat.zero_le _, Or.inr trivial⟩
  apply Prog.obeys_bind
  apply Prog.obeys_handle
  apply Prog.obeys_perform
  · refine ⟨rfl, ?_, Or.inr trivial⟩
    simp [Ledger.entries, h₁]
  · intro r _
    cases r with
    | ok a => exact hrollback _ rfl (by simp [Ledger.next]) (by simp [Ledger.next, h₁])
    | error e =>
      refine obeys_logException ⟨rfl, by simp [Ledger.next, Ledger.entries, h₁], Or.inr trivial⟩ ?_
      exact hrollback _ rfl (by simp [Ledger.next, h₄]) (by simp [Ledger.next, h₁])

/-- **The writer settles the books and never raises**, whatever its operations
answer. -/
theorem obeys_write (rows : List SearchAuditLog) :
    (write .getAuditDb rows).Obeys may Ledger.next Ledger.Open
      (fun g r => r = .ok () ∧ g.Settled rows) {} := by
  apply Prog.obeys_handle
  apply Prog.obeys_bind
  apply Prog.obeys_perform ⟨rfl, Nat.zero_le _, Or.inr rfl⟩
  intro r _
  cases r with
  | error e => exact obeys_writeFailed rows []
  | ok a =>
    apply Prog.obeys_perform ⟨rfl, Nat.zero_le _, Or.inr rfl⟩
    intro r _
    cases r with
    | error e => exact obeys_writeFailed rows rows
    | ok a => exact ⟨rfl, Or.inl rfl⟩

end Writer

/-! ### The search -/

/-- How the books of a search end: settled for the rows of its response or of its
403, empty where a strategy raised. -/
def SearchEnd (context : AuthContext) (request : SearchRequest) (g : Ledger) :
    Except Exn SearchResponse → Prop
  | .ok response =>
      (response.query = request.query ∧ response.appsSearched = context.searchApps ∧
        response.results.map Prod.fst = context.searchApps) ∧
        g.Settled (okBatch context response)
  | .error e =>
      (e = searchDenied ∧ context.searchApps = [] ∧ g.Settled (deniedRows context request.query)) ∨
        (e.Internal ∧ context.searchApps ≠ [] ∧ g = {})

/-- **A search ends with its batch committed whole, or with its loss noted once, or
with nothing at all**, whatever its operations answer. -/
theorem obeys_runSearch (context : AuthContext) (request : SearchRequest) :
    (runSearch context request .getDb .getAuditDb).Obeys Op.MayAnswer Ledger.next Ledger.Open
      (SearchEnd context request) {} := by
  rw [runSearch]
  split
  · next happs =>
    refine Prog.obeys_bind ((obeys_write _).mono ?_)
    rintro g r ⟨rfl, hsettled⟩
    exact Or.inl ⟨rfl, happs, hsettled⟩
  · next happs =>
    refine Prog.obeys_bind ((Prog.obeys_of_calls (fun o r => Ledger.next_of_reads {} o r)
      (fun o ho => ⟨rfl, Nat.zero_le _, Or.inl ho⟩) (calls_searchLoop _ _ _ _ _ _)
      (ends_searchLoop_start .getDb request context)).mono ?_)
    rintro g r ⟨rfl, hend⟩
    cases r with
    | error e => exact Or.inr ⟨hend, happs, rfl⟩
    | ok found =>
      have htally : Tallied context.searchApps found := hend
      refine Prog.obeys_bind ((obeys_write _).mono ?_)
      rintro g r ⟨rfl, hsettled⟩
      refine ⟨⟨rfl, rfl, htally.1⟩, ?_⟩
      rwa [← okRows_eq_okBatch htally]

/-! ### The service and the books -/

/-- What a call does to the service, told by the books before and after: a
committed batch is appended to the audit log, counts to the counter, messages to
the error log. -/
structure Booked (w w' : World) (g g' : Ledger) : Prop where
  pending : w'.2.auditDb.pending = g'.pending
  log : g'.committed = none ∧ w'.1.searchAuditLog = w.1.searchAuditLog ∨
    ∃ stored, g'.committed = some g.pending ∧ storeAll g.pending = .ok stored ∧
      w'.1.searchAuditLog = w.1.searchAuditLog ++ stored
  counted : w'.1.auditWriteFailures + g.counted = w.1.auditWriteFailures + g'.counted
  logged : ∀ message, w'.1.errorLog.count message + g.logged.count message =
    w.1.errorLog.count message + g'.logged.count message

/-- **The operations do what the books say.** -/
theorem booked_perform {w : World} {g : Ledger} {o : Op} (hopen : g.Open o)
    (hpending : w.2.auditDb.pending = g.pending) (fault : Option Exn) :
    Booked w (perform fault w o).2 g (g.next o (perform fault w o).1) := by
  obtain ⟨hcommitted, -, hcall⟩ := hopen
  have hsame : Booked w w g g :=
    ⟨hpending, Or.inl ⟨hcommitted, rfl⟩, rfl, fun _ => rfl⟩
  cases o with
  | selectReports c stmt =>
    cases fault with
    | some e => exact hsame
    | none =>
      obtain rfl : c = .getDb := hcall.resolve_right id
      exact ⟨hpending, Or.inl ⟨hcommitted, rfl⟩, rfl, fun _ => rfl⟩
  | selectRows app c stmt =>
    cases fault with
    | some e => exact hsame
    | none =>
      obtain rfl : c = .getDb := hcall.resolve_right id
      exact ⟨hpending, Or.inl ⟨hcommitted, rfl⟩, rfl, fun _ => rfl⟩
  | addAll c rows =>
    obtain rfl : c = .getAuditDb := hcall.resolve_left id
    cases fault with
    | some e => exact hsame
    | none => exact ⟨congrArg (· ++ rows) hpending, Or.inl ⟨hcommitted, rfl⟩, rfl, fun _ => rfl⟩
  | commit c =>
    obtain rfl : c = .getAuditDb := hcall.resolve_left id
    cases fault with
    | some e => exact hsame
    | none =>
      simp only [perform, answer, Sessions.get_auditDb, hpending]
      cases hstore : storeAll g.pending with
      | error e => exact hsame
      | ok stored => exact ⟨rfl, Or.inr ⟨stored, rfl, hstore, rfl⟩, rfl, fun _ => rfl⟩
  | rollback c =>
    obtain rfl : c = .getAuditDb := hcall.resolve_left id
    cases fault with
    | some e => exact hsame
    | none => exact ⟨rfl, Or.inl ⟨hcommitted, rfl⟩, rfl, fun _ => rfl⟩
  | counterAdd amount =>
    cases fault with
    | some e => exact hsame
    | none =>
      refine ⟨hpending, Or.inl ⟨hcommitted, rfl⟩, ?_, fun _ => rfl⟩
      show w.1.auditWriteFailures + amount + g.counted
        = w.1.auditWriteFailures + (g.counted + amount)
      omega
  | logException message =>
    refine ⟨?_, Or.inl ⟨hcommitted, ?_⟩, ?_, ?_⟩
    · cases fault <;> exact hpending
    · cases fault <;> rfl
    · cases fault <;> rfl
    · intro m
      simp only [perform, answer, Ledger.next, List.count_append]
      omega

/-- **A search run alone ends as its books say**, whatever fails: the audit log has
gained the committed rows, or nothing. -/
theorem exists_searchEnd {faults : Faults} (hfaults : ∀ o, ∀ e ∈ faults o, e.Internal)
    (context : AuthContext) (request : SearchRequest) {w : World}
    (hw : w.2.auditDb.pending = []) :
    let run := (runSearch context request .getDb .getAuditDb).runWith faults w
    ∃ g, SearchEnd context request g run.1 ∧
      (g.committed = none ∧ run.2.1.searchAuditLog = w.1.searchAuditLog ∨
        ∃ rows stored, g.committed = some rows ∧ storeAll rows = .ok stored ∧
          run.2.1.searchAuditLog = w.1.searchAuditLog ++ stored) := by
  have hrun := (obeys_runSearch context request).run (fun w o => perform (faults o) w o)
    (R := fun w' g => w'.2.auditDb.pending = g.pending ∧
      (g.committed = none ∧ w'.1.searchAuditLog = w.1.searchAuditLog ∨
        ∃ rows stored, g.committed = some rows ∧ storeAll rows = .ok stored ∧
          w'.1.searchAuditLog = w.1.searchAuditLog ++ stored)) ?_ (s := w)
    ⟨hw, Or.inl ⟨rfl, rfl⟩⟩
  · obtain ⟨g, ⟨-, hlog⟩, hend⟩ := hrun
    exact ⟨g, hend, hlog⟩
  · rintro w' g o hopen ⟨hpending, hlog⟩
    refine ⟨mayAnswer_perform (hfaults o) w' o, ?_⟩
    have hbooked := booked_perform hopen hpending (faults o)
    refine ⟨hbooked.pending, ?_⟩
    -- a call is made only before anything is committed
    have hbefore : w'.1.searchAuditLog = w.1.searchAuditLog := by
      rcases hlog with ⟨-, hlog⟩ | ⟨rows, -, hsome, -⟩
      · exact hlog
      · rw [hopen.1] at hsome
        cases hsome
    rw [← hbefore]
    rcases hbooked.log with hnone | ⟨stored, hsome, hstore, happend⟩
    · exact Or.inl hnone
    · exact Or.inr ⟨g.pending, stored, hsome, hstore, happend⟩

end SnapSearch
