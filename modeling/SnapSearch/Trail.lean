import Mathlib.Algebra.Order.BigOperators.Group.List
import SnapSearch.Ledger
import SnapSearch.Lib.Visits

/-!
# The audit trail over whole runs

Any number of requests run next to each other, call by call, while the database
changes under them and operations fail.  What the audit log, the counter and the
error log hold together is told by the books of the requests.

## Main definitions

* `searchSystem` — requests as threads on the service.
* `IsBatch` — the rows that an answered request calls for.
* `Trail` — the log as batches, the counter and the error log as sums.
* `Reconciled` — the log next to the requests that have ended.
* `searchTurns` — a run told turn by turn.

## Main results

* `trail_of_reach` — the sums hold in every state that is reached.
* `exists_reconciled` — **the audit trail reconciles with the responses.**
-/

namespace SnapSearch

/-! ### Requests next to each other -/

/-- The threads of the endpoint: each has two sessions of its own; a call may fail
with any exception from below; the database may change at any time. -/
def searchSystem (decode : String → Except JwtError Payload) (intOf : Json → Except ErrorType ℤ) :
    System HttpRequest Shared Sessions Exn Res SearchResponse where
  prog := search decode intOf
  start := {}
  exec s l o r s' l' :=
    ∃ fault : Option Exn, (∀ e ∈ fault, e.Internal) ∧ perform fault (s, l) o = (r, (s', l'))
  drift s s' := s' = { s with database := s'.database }

/-- A request in progress, or one that has ended. -/
abbrev Request := Thread HttpRequest Sessions Exn Res SearchResponse

/-- The books of a request. -/
def Request.ledger (th : Request) : Ledger := System.ledger Ledger.next {} th.history

/-- The answers that are recorded: 200 and 403. -/
def answered (r : Except Exn SearchResponse) : Bool := statusOf r = 200 ∨ statusOf r = 403

/-- The rows that an answered request calls for: one `ok` row for each app
searched, or one `denied` row, with the claims of the request's token. -/
def IsBatch (decode : String → Except JwtError Payload) (intOf : Json → Except ErrorType ℤ)
    (r : HttpRequest) (result : Except Exn SearchResponse) (rows : List SearchAuditLog) : Prop :=
  ∃ token payload clientId originApp, bearerToken r.authorization = .ok token ∧
    decode token = .ok payload ∧ payload.azp = .str clientId ∧
    knownClients.lookup clientId = some originApp ∧
    match result with
    | .ok response =>
        response.results.map Prod.fst = response.appsSearched ∧ response.appsSearched.Nodup ∧
          rows = response.results.map fun (app, s) =>
            { userId := payload.sub, app := some app, originApp, query := response.query,
              resultsCount := some s.resultsCount, status := "ok" }
    | .error e =>
        e = searchDenied ∧ ∃ body request, r.body = .ok body ∧
          SearchRequest.validate intOf body = .ok request ∧
          rows = [{ userId := payload.sub, app := none, originApp, query := request.query,
                    resultsCount := none, status := "denied" }]

/-- How the books of a request end. -/
def RequestEnd (decode : String → Except JwtError Payload) (intOf : Json → Except ErrorType ℤ)
    (r : HttpRequest) (g : Ledger) (result : Except Exn SearchResponse) : Prop :=
  (answered result = true ∧ ∃ rows, IsBatch decode intOf r result rows ∧ g.Settled rows) ∨
    (answered result = false ∧ g = {})

section Runs

variable {decode : String → Except JwtError Payload} {intOf : Json → Except ErrorType ℤ}

theorem answered_of_internal {e : Exn} (h : e.Internal) : answered (.error e) = false := by
  rcases h.status_eq with hs | hs <;> simp [answered, statusOf, hs]

/-- The books of a search that was let through end as those of its request. -/
theorem requestEnd_of_searchEnd {r : HttpRequest} {body : Json} {context : AuthContext}
    {request : SearchRequest} (hbody : r.body = .ok body)
    (hcontext : getAuthContext decode r.authorization = .ok context)
    (hrequest : SearchRequest.validate intOf body = .ok request) {g : Ledger}
    {result : Except Exn SearchResponse} (h : SearchEnd context request g result) :
    RequestEnd decode intOf r g result := by
  obtain ⟨token, payload, htoken, hdecode, hpayload⟩ := getAuthContext_eq_ok hcontext
  obtain ⟨huser, ⟨clientId, hazp, horigin⟩, -⟩ := contextOf_eq_ok hpayload
  cases result with
  | ok response =>
    obtain ⟨⟨-, happs, hkeys⟩, hsettled⟩ := h
    refine Or.inl ⟨rfl, _, ⟨token, payload, clientId, context.originApp, htoken, hdecode, hazp,
      horigin, hkeys.trans happs.symm, ?_, rfl⟩, ?_⟩
    · rw [happs]
      exact context.nodup_searchApps
    · rwa [← huser]
  | error e =>
    rcases h with ⟨rfl, -, hsettled⟩ | ⟨hinternal, -, rfl⟩
    · refine Or.inl ⟨rfl, _, ⟨token, payload, clientId, context.originApp, htoken, hdecode, hazp,
        horigin, rfl, body, request, hbody, hrequest, rfl⟩, ?_⟩
      rwa [← huser]
    · exact Or.inr ⟨answered_of_internal hinternal, rfl⟩

/-- **A request ends with its batch committed whole, or with its loss noted once,
or with nothing at all**, whatever its operations answer. -/
theorem obeys_search (r : HttpRequest) :
    (search decode intOf r).Obeys Op.MayAnswer Ledger.next Ledger.Open
      (RequestEnd decode intOf r) {} := by
  -- a refusal comes before any call
  apply Prog.obeys_bind
  apply Prog.obeys_ofExcept
  cases hbody : r.body with
  | error errors => exact Or.inr ⟨rfl, rfl⟩
  | ok body =>
    apply Prog.obeys_bind
    apply Prog.obeys_ofExcept
    cases hcontext : getAuthContext decode r.authorization with
    | error e =>
      refine Or.inr ⟨?_, rfl⟩
      rcases getAuthContext_eq_error hcontext with ⟨reason, rfl⟩ | ⟨msg, rfl⟩
      · rfl
      · exact answered_of_internal trivial
    | ok context =>
      apply Prog.obeys_bind
      apply Prog.obeys_ofExcept
      cases hrequest : SearchRequest.validate intOf body with
      | error errors => exact Or.inr ⟨rfl, rfl⟩
      | ok request =>
        apply (obeys_runSearch context request).mono
        intro g result h
        exact requestEnd_of_searchEnd hbody hcontext hrequest h

/-! ### The sums -/

/-- The log as batches in the order of their commits, each with the place of its
request; the counter and the error log as sums over the books. -/
structure Trail (before after : Shared) (ts : List Request)
    (batches : List (ℕ × List AuditRow)) : Prop where
  pending : ∀ th ∈ ts, th.locals.auditDb.pending = th.ledger.pending
  nodup : (batches.map Prod.fst).Nodup
  log : after.searchAuditLog = before.searchAuditLog ++ batches.flatMap Prod.snd
  batch : ∀ b ∈ batches, ∃ th rows, ts[b.1]? = some th ∧ th.ledger.committed = some rows ∧
    storeAll rows = .ok b.2
  committed : batches.length =
    (ts.map fun th => if th.ledger.committed.isSome then 1 else 0).sum
  counted : after.auditWriteFailures =
    before.auditWriteFailures + (ts.map fun th => th.ledger.counted).sum
  logged : ∀ message, after.errorLog.count message =
    before.errorLog.count message + (ts.map fun th => th.ledger.logged.count message).sum

theorem trail_nil (shared : Shared) : Trail shared shared [] [] where
  pending := by simp
  nodup := List.nodup_nil
  log := by simp
  batch := by simp
  committed := rfl
  counted := rfl
  logged := fun _ => rfl

section Steps

variable {before s s' : Shared} {ts : List Request} {batches : List (ℕ × List AuditRow)}

/-- A request that starts has empty books. -/
theorem Trail.spawn (h : Trail before s ts batches) (r : HttpRequest)
    (prog : Py SearchResponse) : Trail before s (ts ++ [⟨r, {}, [], prog⟩]) batches where
  pending := by
    intro th hth
    rcases List.mem_append.mp hth with hth | hth
    · exact h.pending th hth
    · rw [List.mem_singleton] at hth
      subst hth
      rfl
  nodup := h.nodup
  log := h.log
  batch := by
    intro b hb
    obtain ⟨th, rows, hth, hrest⟩ := h.batch b hb
    have hlt := (List.getElem?_eq_some_iff.mp hth).1
    exact ⟨th, rows, by rwa [List.getElem?_append_left hlt], hrest⟩
  committed := by
    rw [h.committed, List.map_append, List.sum_append]
    rfl
  counted := by
    rw [h.counted, List.map_append, List.sum_append]
    rfl
  logged := by
    intro message
    rw [h.logged, List.map_append, List.sum_append]
    rfl

/-- A request without a committed batch has none in the log. -/
theorem Trail.notMem (h : Trail before s ts batches) {i : ℕ} {th : Request}
    (hi : ts[i]? = some th) (hcommitted : th.ledger.committed = none) :
    ∀ b ∈ batches, b.1 ≠ i := by
  rintro b hb rfl
  obtain ⟨th', rows, hth', hrows, -⟩ := h.batch b hb
  rw [hi] at hth'
  cases hth'
  rw [hcommitted] at hrows
  cases hrows

/-- A call keeps the sums: a commit appends one batch, any other call none. -/
theorem Trail.call (h : Trail before s ts batches) {i : ℕ} {th th' : Request}
    (hi : ts[i]? = some th) (hcommitted : th.ledger.committed = none)
    (hbooked : Booked (s, th.locals) (s', th'.locals) th.ledger th'.ledger) :
    ∃ batches', Trail before s' (ts.set i th') batches' := by
  have hlt := (List.getElem?_eq_some_iff.mp hi).1
  have hpending : ∀ t ∈ ts.set i th', t.locals.auditDb.pending = t.ledger.pending := by
    intro t ht
    rcases List.mem_or_eq_of_mem_set ht with ht | rfl
    · exact h.pending t ht
    · exact hbooked.pending
  -- the request has no batch in the log, so replacing it moves none
  have hbatch : ∀ b ∈ batches, ∃ t rows, (ts.set i th')[b.1]? = some t ∧
      t.ledger.committed = some rows ∧ storeAll rows = .ok b.2 := by
    intro b hb
    obtain ⟨t, rows, ht, hrest⟩ := h.batch b hb
    exact ⟨t, rows, by rwa [List.getElem?_set_ne (h.notMem hi hcommitted b hb).symm], hrest⟩
  have hcounted : s'.auditWriteFailures = before.auditWriteFailures +
      ((ts.set i th').map fun t => t.ledger.counted).sum := by
    have hsum := sum_map_set (fun t : Request => t.ledger.counted) hi th'
    have hstep := hbooked.counted
    have hbefore := h.counted
    simp only at hstep
    omega
  have hlogged : ∀ message, s'.errorLog.count message = before.errorLog.count message +
      ((ts.set i th').map fun t => t.ledger.logged.count message).sum := by
    intro message
    have hsum := sum_map_set (fun t : Request => t.ledger.logged.count message) hi th'
    have hstep := hbooked.logged message
    have hbefore := h.logged message
    simp only at hstep
    omega
  have hsum := sum_map_set
    (fun t : Request => if t.ledger.committed.isSome then 1 else 0) hi th'
  rw [hcommitted] at hsum
  rcases hbooked.log with ⟨hnone, hlog⟩ | ⟨stored, hsome, hstore, hlog⟩
  · rw [hnone] at hsum
    exact ⟨batches, hpending, h.nodup, hlog.trans h.log, hbatch, h.committed.trans hsum.symm,
      hcounted, hlogged⟩
  · rw [hsome] at hsum
    -- a commit: its request has one batch more, and the batch goes last
    refine ⟨batches ++ [(i, stored)], hpending, ?_, ?_, ?_, ?_, hcounted, hlogged⟩
    · rw [List.map_append, List.nodup_append]
      refine ⟨h.nodup, by simp, ?_⟩
      intro a ha b hb
      obtain ⟨c, hc, rfl⟩ := List.mem_map.mp ha
      rw [List.map_singleton, List.mem_singleton] at hb
      rw [hb]
      exact h.notMem hi hcommitted c hc
    · rw [hlog, h.log, List.flatMap_append, List.append_assoc]
      simp
    · intro b hb
      rcases List.mem_append.mp hb with hb | hb
      · exact hbatch b hb
      · rw [List.mem_singleton] at hb
        subst hb
        exact ⟨th', _, List.getElem?_set_self hlt, hsome, hstore⟩
    · rw [List.length_append, h.committed]
      simpa using hsum.symm

end Steps

theorem mayAnswer_exec (s : Shared) (l : Sessions) (o : Op) (r : Except Exn (Res o)) (s' : Shared)
    (l' : Sessions) (h : (searchSystem decode intOf).exec s l o r s' l') : o.MayAnswer r := by
  obtain ⟨fault, hinternal, hperform⟩ := h
  have hmay := mayAnswer_perform hinternal (s, l) o
  rwa [hperform] at hmay

/-- **The sums hold in every state that is reached.** -/
theorem trail_of_reach {before after : Shared} {ts : List Request}
    (hr : (searchSystem decode intOf).Reach (before, []) (after, ts)) :
    ∃ batches, Trail before after ts batches := by
  refine System.inv_of_reach (I := fun s ts => ∃ batches, Trail before s ts batches)
    obeys_search mayAnswer_exec hr ⟨[], trail_nil before⟩ ?_ ?_ ?_
  · rintro s ts r ⟨batches, h⟩
    exact ⟨batches, h.spawn r _⟩
  · rintro s ts i r l history o k answer s' l' ⟨batches, h⟩ hi hopen ⟨fault, -, hperform⟩
    have hbooked := booked_perform hopen (w := (s, l)) (h.pending _ (List.mem_of_getElem? hi)) fault
    rw [hperform] at hbooked
    have hledger : Request.ledger ⟨r, l', history ++ [⟨o, answer⟩], k answer⟩ =
        (System.ledger Ledger.next {} history).next o answer :=
      System.ledger_append_singleton _ _ _ _ _
    refine h.call hi hopen.1 ?_
    rw [hledger]
    exact hbooked
  · rintro s s' ts ⟨batches, h⟩ hdrift
    refine ⟨batches, ?_⟩
    rw [hdrift]
    exact ⟨h.pending, h.nodup, h.log, h.batch, h.committed, h.counted, h.logged⟩

/-! ### The log next to the answers -/

/-- The request has been answered with a 200 or a 403. -/
def Request.isAnswered (th : Request) : Bool := th.prog.result.any answered

/-- The request has calls to make. -/
def Request.inProgress (th : Request) : Bool := th.prog.result.isNone

/-- The losses noted: the counter, and the increments of it that failed. -/
def Shared.losses (s : Shared) : ℕ :=
  s.auditWriteFailures + s.errorLog.count metricIncrementFailed

/-- The audit log next to the requests of a run. -/
structure Reconciled (decode : String → Except JwtError Payload) (intOf : Json → Except ErrorType ℤ)
    (before after : Shared) (ts : List Request) (batches : List (ℕ × List AuditRow)) : Prop where
  /-- No request has two batches. -/
  nodup : (batches.map Prod.fst).Nodup
  /-- The log is what it was, and the batches in the order of their commits. -/
  log : after.searchAuditLog = before.searchAuditLog ++ batches.flatMap Prod.snd
  /-- A batch is the whole batch of a request that ended in 200 or 403. -/
  batch : ∀ b ∈ batches, ∃ th result rows, ts[b.1]? = some th ∧ th.prog.result = some result ∧
    answered result = true ∧ IsBatch decode intOf th.tag result rows ∧ storeAll rows = .ok b.2
  /-- An answered request has its batch committed or its loss noted. -/
  answered_le : ts.countP Request.isAnswered + before.losses ≤ batches.length + after.losses
  /-- Nothing is noted for any other request that has ended. -/
  le_answered : batches.length + after.losses ≤
    ts.countP Request.isAnswered + ts.countP Request.inProgress + before.losses
  /-- Once all requests have ended, the numbers are equal, and each loss has been
  logged. -/
  ended : ts.countP Request.inProgress = 0 →
    ts.countP Request.isAnswered + before.losses = batches.length + after.losses ∧
      ts.countP Request.isAnswered + before.errorLog.count auditWriteFailed =
        batches.length + after.errorLog.count auditWriteFailed

theorem countP_eq_sum {α : Type} (p : α → Bool) (l : List α) :
    l.countP p = (l.map fun a => if p a then 1 else 0).sum := by
  induction l with
  | nil => rfl
  | cons a l ih => rw [List.countP_cons, ih, List.map_cons, List.sum_cons, Nat.add_comm]

/-- The batches and the losses noted are the entries of the books. -/
theorem Trail.accounts {before after : Shared} {ts : List Request}
    {batches : List (ℕ × List AuditRow)} (h : Trail before after ts batches) :
    batches.length + after.losses = before.losses + (ts.map fun th => th.ledger.entries).sum := by
  have hcommitted := h.committed
  have hcounted := h.counted
  have hlogged := h.logged metricIncrementFailed
  simp only [Ledger.entries, List.sum_map_add, Shared.losses]
  omega

/-- What the books of a request say, while it is in progress and once it has
ended. -/
theorem entries_of_obeys {th : Request}
    (h : th.prog.Obeys Op.MayAnswer Ledger.next Ledger.Open (RequestEnd decode intOf th.tag)
      th.ledger) :
    (∀ result, th.prog.result = some result → RequestEnd decode intOf th.tag th.ledger result) ∧
      (th.prog.result = none → th.ledger.committed = none ∧ th.ledger.entries ≤ 1) := by
  cases hprog : th.prog with
  | pure a =>
    rw [hprog] at h
    refine ⟨?_, nofun⟩
    intro result hresult
    cases hresult
    exact h
  | raise e =>
    rw [hprog] at h
    refine ⟨?_, nofun⟩
    intro result hresult
    cases hresult
    exact h
  | call o k =>
    rw [hprog] at h
    refine ⟨nofun, ?_⟩
    intro _
    exact ⟨h.1.1, h.1.2.1⟩

/-- The entries of a request's books: one for an answer, none for any other end,
and at most one in between. -/
theorem entries_bounds {th : Request}
    (h : th.prog.Obeys Op.MayAnswer Ledger.next Ledger.Open (RequestEnd decode intOf th.tag)
      th.ledger) :
    (if th.isAnswered then 1 else 0) ≤ th.ledger.entries ∧
      th.ledger.entries ≤ (if th.isAnswered then 1 else 0) + if th.inProgress then 1 else 0 := by
  obtain ⟨hend, hopen⟩ := entries_of_obeys h
  cases hresult : th.prog.result with
  | none =>
    have hle := (hopen hresult).2
    simpa [Request.isAnswered, Request.inProgress, hresult] using hle
  | some result =>
    simp only [Request.isAnswered, Request.inProgress, hresult, Option.any_some,
      Option.isNone_some]
    rcases hend result hresult with ⟨hanswered, rows, -, hsettled⟩ | ⟨hanswered, hledger⟩
    · rw [hanswered, hsettled.entries_eq]
      exact ⟨le_rfl, le_rfl⟩
    · rw [hanswered, hledger]
      exact ⟨le_rfl, le_rfl⟩

/-- A request that has ended has committed its batch or logged its loss exactly
where it was answered. -/
theorem committed_add_logged {th : Request}
    (h : th.prog.Obeys Op.MayAnswer Ledger.next Ledger.Open (RequestEnd decode intOf th.tag)
      th.ledger) (hended : th.inProgress = false) :
    (if th.ledger.committed.isSome then 1 else 0) + th.ledger.logged.count auditWriteFailed
      = if th.isAnswered then 1 else 0 := by
  obtain ⟨hend, -⟩ := entries_of_obeys h
  cases hresult : th.prog.result with
  | none => simp [Request.inProgress, hresult] at hended
  | some result =>
    simp only [Request.isAnswered, hresult, Option.any_some]
    rcases hend result hresult with ⟨hanswered, rows, -, hsettled⟩ | ⟨hanswered, hledger⟩
    · rw [hanswered, hsettled.committed_add_logged]
      rfl
    · rw [hanswered, hledger]
      rfl

/-- **The audit trail reconciles with the responses.**  In every state that any
number of requests reach in any interleaving, whatever their operations fail with:
the audit log is what it was and whole batches, at most one for a request, each
that of a request that ended in 200 or 403; and their number and the losses noted
make up the number of these requests. -/
theorem exists_reconciled (decode : String → Except JwtError Payload)
    (intOf : Json → Except ErrorType ℤ) {before after : Shared} {ts : List Request}
    (hr : (searchSystem decode intOf).Reach (before, []) (after, ts)) :
    ∃ batches, Reconciled decode intOf before after ts batches := by
  obtain ⟨batches, h⟩ := trail_of_reach hr
  have hobeys := System.obeys_of_reach (M := searchSystem decode intOf) obeys_search
    mayAnswer_exec hr
  have haccounts := h.accounts
  -- each answered request has an entry in the books, and any other at most while in progress
  have hlower : ts.countP Request.isAnswered ≤ (ts.map fun th => th.ledger.entries).sum := by
    rw [countP_eq_sum]
    apply List.sum_le_sum
    intro th hth
    exact (entries_bounds (hobeys th hth)).1
  have hupper : (ts.map fun th => th.ledger.entries).sum ≤
      ts.countP Request.isAnswered + ts.countP Request.inProgress := by
    rw [countP_eq_sum, countP_eq_sum, ← List.sum_map_add]
    apply List.sum_le_sum
    intro th hth
    exact (entries_bounds (hobeys th hth)).2
  refine ⟨batches, h.nodup, h.log, ?_, by omega, by omega, ?_⟩
  · intro b hb
    -- nothing is committed while in progress, so the request of a batch has ended
    obtain ⟨th, rows, hth, hcommitted, hstore⟩ := h.batch b hb
    obtain ⟨hend, hopen⟩ := entries_of_obeys (hobeys th (List.mem_of_getElem? hth))
    cases hresult : th.prog.result with
    | none =>
      rw [(hopen hresult).1] at hcommitted
      cases hcommitted
    | some result =>
      rcases hend result hresult with ⟨hanswered, rows', hbatch, hsettled⟩ | ⟨-, hledger⟩
      · obtain rfl := hsettled.eq_of_committed hcommitted
        exact ⟨th, result, rows, hth, hresult, hanswered, hbatch, hstore⟩
      · rw [hledger] at hcommitted
        cases hcommitted
  · intro hended
    refine ⟨by omega, ?_⟩
    have hsum : (ts.map fun th => (if th.ledger.committed.isSome then 1 else 0) +
        th.ledger.logged.count auditWriteFailed) =
        ts.map fun th => if th.isAnswered then 1 else 0 := by
      apply List.map_congr_left
      intro th hth
      apply committed_add_logged (hobeys th hth)
      rw [List.countP_eq_zero] at hended
      simpa using hended th hth
    have hlogged := h.logged auditWriteFailed
    have hcommitted := h.committed
    rw [countP_eq_sum, ← hsum, List.sum_map_add]
    omega

end Runs

/-! ### A small run -/

def HttpRequest.small : HttpRequest where
  authorization := some "Bearer t"
  body := .ok (.obj [("query", .str "an")])

/-- What may happen next to requests: one starts, one makes its next call, which fails
with an exception or not, or the database is replaced. -/
abbrev RequestTurn := System.Turn HttpRequest (Option { e : Exn // e.Internal }) Database

/-- The run of requests that turns tell. -/
def searchTurns (decode : String → Except JwtError Payload) (intOf : Json → Except ErrorType ℤ) :
    Shared × List Request → List RequestTurn → Option (List Shared × (Shared × List Request)) :=
  System.turns (searchSystem decode intOf) (fun f w o => perform (f.map Subtype.val) w o)
    fun database s => { s with database }

theorem visits_searchTurns {decode : String → Except JwtError Payload}
    {intOf : Json → Except ErrorType ℤ} {x y : Shared × List Request} {rest : List RequestTurn}
    {visited : List Shared} (h : searchTurns decode intOf x rest = some (visited, y)) :
    (searchSystem decode intOf).Visits x visited y := by
  refine System.visits_turns ?_ ?_ h
  · intro f s l o
    refine ⟨f.map Subtype.val, ?_, rfl⟩
    cases f with
    | none => simp
    | some e => simpa using e.2
  · intro d s
    rfl

/-- A request that has been answered 200 when the turns are over. -/
theorem exists_of_searchTurns {β : Type} (decode : String → Except JwtError Payload)
    (intOf : Json → Except ErrorType ℤ) (before : Shared) (rest : List RequestTurn) (i : ℕ)
    (f : Shared → SearchResponse → β) (b : β)
    (h : ((searchTurns decode intOf (before, []) rest).bind fun r => r.2.2[i]?.bind fun th =>
      th.prog.result.bind fun result => result.toOption.map (f r.2.1)) = some b) :
    ∃ visited s ts th response,
      searchTurns decode intOf (before, []) rest = some (visited, (s, ts)) ∧
      ts[i]? = some th ∧ th.prog.result = some (.ok response) ∧ f s response = b := by
  rw [Option.bind_eq_some_iff] at h
  obtain ⟨⟨visited, s, ts⟩, hturns, hrest⟩ := h
  rw [Option.bind_eq_some_iff] at hrest
  obtain ⟨th, hth, hrest⟩ := hrest
  rw [Option.bind_eq_some_iff] at hrest
  obtain ⟨result, hresult, hrest⟩ := hrest
  cases result with
  | error e => cases hrest
  | ok response => exact ⟨visited, s, ts, th, response, hturns, hth, hresult, Option.some.inj hrest⟩

/-- A connection that is gone. -/
def connectionLost : { e : Exn // e.Internal } :=
  ⟨.operationalError "server closed the connection", trivial⟩

/-- Two requests that take turns: between the statements of the first the database is
replaced, and the second cannot commit its audit rows. -/
def twoRequests (database : Database) : List RequestTurn :=
  [.spawn .small, .spawn .small, .exec 0 none, .exec 1 none, .drift database, .exec 0 none,
   .exec 1 none, .exec 1 none, .exec 0 none, .exec 1 (some connectionLost), .exec 0 none,
   .exec 1 none, .exec 1 none, .exec 1 none]

theorem exists_reconciled_small :
    let decode : String → Except JwtError Payload := fun _ => .ok .small
    ∃ visited after batches,
      searchTurns decode intOfInt ({ database := .small }, []) (twoRequests .small)
        = some (visited, after) ∧
      after.2.map (fun th => th.prog.result.map statusOf) = [some 200, some 200] ∧
      Reconciled decode intOfInt { database := .small } after.1 after.2 batches ∧
        batches.length = 1 ∧ after.1.losses = 1 := by
  intro decode
  have hrun : (searchTurns decode intOfInt ({ database := .small }, [])
      (twoRequests .small)).map (fun r => (r.2.2.map fun th => th.prog.result.map statusOf,
        r.2.2.countP Request.isAnswered, r.2.2.countP Request.inProgress, r.2.1.losses))
      = some ([some 200, some 200], 2, 0, 1) := by
    decide +kernel
  rw [Option.map_eq_some_iff] at hrun
  obtain ⟨⟨visited, after⟩, hturns, hvalues⟩ := hrun
  simp only [Prod.mk.injEq] at hvalues
  obtain ⟨hstatus, hanswered, hended, hlosses⟩ := hvalues
  have hreach := System.exists_visits_iff.mp ⟨visited, visits_searchTurns hturns⟩
  obtain ⟨batches, hreconciled⟩ := exists_reconciled decode intOfInt hreach
  refine ⟨visited, after, batches, hturns, hstatus, hreconciled, ?_, hlosses⟩
  -- two requests were answered, and one batch is lost
  obtain ⟨htotal, -⟩ := hreconciled.ended hended
  rw [hanswered, hlosses] at htotal
  exact Nat.add_right_cancel htotal.symm

end SnapSearch
