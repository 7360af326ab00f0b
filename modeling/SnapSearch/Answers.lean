import SnapSearch.Isolation
import SnapSearch.Wire

/-!
# What an answer tells

A client sees a status and a body.  It may learn from them what the token permits it to
see, and whether a statement could not be run for want of a database; nothing about rows
beyond its view, about what an exception says, or about the audit trail.  Whether it is
refused depends on none of that: its header and body decide.

## Main definitions

* `Exn.Alike`, `Faults.Alike` — failures that no answer tells apart.
* `AlikeResults` — results that no answer tells apart.
* `verdict` — what header and body decide of a request.

## Main results

* `alike_searchOutcome` — alike failures give alike results.
* `respond_eq_of_alike` — **the same answer, whatever is hidden.**
* `decided_of_visits` — **a refusal is decided by header and body alone.**
-/

namespace SnapSearch

/-! ### Failures -/

/-- Two exceptions from below with one status. -/
def Exn.Alike (e e' : Exn) : Prop := e.Internal ∧ e'.Internal ∧ e.status = e'.status

/-- Two failures, or none. -/
def AlikeFaults : Option Exn → Option Exn → Prop
  | none, none => True
  | some e, some e' => e.Alike e'
  | _, _ => False

/-- The statements of the search session fail alike; whatever else fails. -/
def Faults.Alike (faults faults' : Faults) : Prop :=
  ∀ o : Op, o.Reads .getDb → AlikeFaults (faults o) (faults' o)

/-- The same value, or exceptions that no answer tells apart. -/
def AlikeResults {α : Type} : Except Exn α → Except Exn α → Prop
  | .ok a, .ok a' => a = a'
  | .error e, .error e' => e = e' ∨ e.Alike e'
  | _, _ => False

theorem AlikeResults.of_eq {α : Type} {r r' : Except Exn α} (h : r = r') : AlikeResults r r' := by
  subst h
  cases r with
  | ok a => exact rfl
  | error e => exact Or.inl rfl

theorem AlikeResults.map {α β : Type} {r r' : Except Exn α} (h : AlikeResults r r') (f : α → β) :
    AlikeResults (r.map f) (r'.map f) := by
  cases r with
  | ok a =>
    cases r' with
    | ok a' => exact congrArg f h
    | error e => exact h.elim
  | error e =>
    cases r' with
    | ok a' => exact h.elim
    | error e' => exact h

section Results

variable {faults faults' : Faults}

/-- A statement gives alike results where it fails alike. -/
theorem alikeResults_of_fault {α : Type} {fault fault' : Option Exn} (r : Except Exn α) :
    AlikeFaults fault fault' → AlikeResults
      (match fault with | some e => .error e | none => r)
      (match fault' with | some e => .error e | none => r) := by
  intro h
  cases fault with
  | none =>
    cases fault' with
    | none => exact .of_eq rfl
    | some e => exact h.elim
  | some e =>
    cases fault' with
    | none => exact h.elim
    | some e' => exact Or.inr h

theorem Strategy.alike_result (h : faults.Alike faults') (s : Strategy) (db : Database)
    (query userId : String) (cursor : Option String) (limit : ℕ) :
    AlikeResults (s.result faults db .getDb query userId cursor limit)
      (s.result faults' db .getDb query userId cursor limit) := by
  cases s with
  | analytics =>
    cases cursor with
    | some cursor => exact .of_eq rfl
    | none => exact alikeResults_of_fault _ (h (.selectReports .getDb (analyticsStmt query)) rfl)
  | listing app =>
    simp only [Strategy.result]
    cases cursorId cursor with
    | error e => exact .of_eq rfl
    | ok u => exact alikeResults_of_fault _ (h (.selectRows app .getDb _) rfl)

/-- The loops stop at the same app, or collect the same. -/
theorem alike_collect (h : faults.Alike faults') (db : Database) (request : SearchRequest)
    (userId : String) (apps : List String) :
    AlikeResults (collect faults db request userId apps)
      (collect faults' db request userId apps) := by
  induction apps with
  | nil => exact .of_eq rfl
  | cons app apps ih =>
    rw [collect, collect]
    cases strategies.lookup app with
    | none => exact .of_eq rfl
    | some s =>
      have hs := s.alike_result h db request.query userId (request.cursorFor app) request.limit
      revert hs
      dsimp only
      cases s.result faults db .getDb request.query userId (request.cursorFor app)
        request.limit with
      | error e =>
        cases s.result faults' db .getDb request.query userId (request.cursorFor app)
          request.limit with
        | error e' => exact id
        | ok found => exact False.elim
      | ok found =>
        cases s.result faults' db .getDb request.query userId (request.cursorFor app)
          request.limit with
        | error e' => exact False.elim
        | ok found' =>
          rintro rfl
          exact ih.map _

/-- **Alike failures give alike results.** -/
theorem alike_searchOutcome (h : faults.Alike faults') (db : Database) (context : AuthContext)
    (request : SearchRequest) :
    AlikeResults (searchOutcome faults db context request).1
      (searchOutcome faults' db context request).1 := by
  rw [searchOutcome, searchOutcome]
  split
  · exact .of_eq rfl
  · have hcollect := alike_collect h db request context.userId context.searchApps
    revert hcollect
    cases collect faults db request context.userId context.searchApps with
    | error e =>
      cases collect faults' db request context.userId context.searchApps with
      | error e' => exact id
      | ok found => exact False.elim
    | ok found =>
      cases collect faults' db request context.userId context.searchApps with
      | error e' => exact False.elim
      | ok found' =>
        rintro rfl
        exact .of_eq rfl

end Results

/-! ### Answers -/

/-- The answers to exceptions that are alike are the same. -/
theorem respond_error_eq (isoformat : Timestamp → String) {e e' : Exn} (h : e.Alike e') :
    respond isoformat (.error e) = respond isoformat (.error e') := by
  obtain ⟨he, he', hstatus⟩ := h
  have hbody : (respond isoformat (.error e)).body = (respond isoformat (.error e')).body := by
    cases e <;> cases e' <;> first | exact he.elim | exact he'.elim | rfl | cases hstatus
  unfold respond at hbody ⊢
  simp only [statusOf, hstatus] at hbody ⊢
  rw [HttpResponse.mk.injEq]
  exact ⟨rfl, hbody⟩

theorem AlikeResults.respond_eq (isoformat : Timestamp → String)
    {r r' : Except Exn SearchResponse} (h : AlikeResults r r') :
    respond isoformat r = respond isoformat r' := by
  cases r with
  | ok response =>
    cases r' with
    | ok response' => exact congrArg (fun r => respond isoformat (.ok r)) h
    | error e => exact h.elim
  | error e =>
    cases r' with
    | ok response => exact h.elim
    | error e' =>
      rcases h with rfl | h
      · rfl
      · exact respond_error_eq isoformat h

/-- Two requests with one token that ask for the same, as far as the token permits. -/
structure SameAsk (decode : String → Except JwtError Payload) (intOf : Json → Except ErrorType ℤ)
    (context : AuthContext) (r r' : HttpRequest) : Prop where
  authorization_eq : r.authorization = r'.authorization
  context_eq : getAuthContext decode r.authorization = .ok context
  ask : r.body = r'.body ∨ ∃ body body' request request', r.body = .ok body ∧ r'.body = .ok body' ∧
    SearchRequest.validate intOf body = .ok request ∧
    SearchRequest.validate intOf body' = .ok request' ∧
    request.query = request'.query ∧ request.limit = request'.limit ∧
    ∀ app ∈ context.searchApps, request.cursorFor app = request'.cursorFor app

section Answers

variable {decode : String → Except JwtError Payload} {intOf : Json → Except ErrorType ℤ}
  {isoformat : Timestamp → String} {faults faults' : Faults} {w w' : World}
  {context : AuthContext} {r r' : HttpRequest}

/-- A request that is let through is searched for. -/
theorem search_eq_runSearch {body : Json} {request : SearchRequest} (hbody : r.body = .ok body)
    (hcontext : getAuthContext decode r.authorization = .ok context)
    (hrequest : SearchRequest.validate intOf body = .ok request) :
    search decode intOf r = runSearch context request .getDb .getAuditDb := by
  simp [search, hbody, hcontext, hrequest, Except.mapError, Prog.bind]

theorem respond_runSearch_eq {request request' : SearchRequest}
    (hquery : request.query = request'.query) (hlimit : request.limit = request'.limit)
    (hcursors : ∀ app ∈ context.searchApps, request.cursorFor app = request'.cursorFor app)
    (hview : SameView context w.1.database w'.1.database) (hfaults : faults.Alike faults') :
    respond isoformat ((runSearch context request .getDb .getAuditDb).runWith faults w).1 =
      respond isoformat ((runSearch context request' .getDb .getAuditDb).runWith faults' w').1 := by
  obtain ⟨_, -, hrun⟩ := run_runSearch faults w context request
  obtain ⟨_, -, hrun'⟩ := run_runSearch faults' w' context request'
  rw [hrun, hrun', ← searchOutcome_eq_of_sameView hview hquery hlimit hcursors]
  exact (alike_searchOutcome hfaults w.1.database context request).respond_eq isoformat

/-- **The same answer, whatever is hidden.**  Two requests with one token, which ask for
the same as far as it permits, get the same status and body where the databases agree on
the permitted view and the statements of the search session fail alike: whatever other
rows there are, whatever the exceptions say, whatever state the sessions, the audit log,
the counter and the error log are in, and whatever fails in the audit trail. -/
theorem respond_eq_of_alike (h : SameAsk decode intOf context r r')
    (hview : SameView context w.1.database w'.1.database) (hfaults : faults.Alike faults') :
    respond isoformat ((search decode intOf r).runWith faults w).1 =
      respond isoformat ((search decode intOf r').runWith faults' w').1 := by
  obtain ⟨hauth, hcontext, hsame | ⟨body, body', request, request', hbody, hbody', hrequest,
    hrequest', hquery, hlimit, hcursors⟩⟩ := h
  · obtain ⟨authorization, body⟩ := r
    obtain ⟨authorization', body'⟩ := r'
    obtain rfl : authorization = authorization' := hauth
    obtain rfl : body = body' := hsame
    rcases search_cases decode intOf ⟨authorization, body⟩ with
      ⟨e, hraise⟩ | ⟨body, context', request, -, hcontext', -, hsearch⟩
    · rw [hraise]
      rfl
    · obtain rfl : context' = context := Except.ok.inj (hcontext'.symm.trans hcontext)
      rw [hsearch]
      exact respond_runSearch_eq rfl rfl (fun _ _ => rfl) hview hfaults
  · rw [search_eq_runSearch hbody hcontext hrequest,
      search_eq_runSearch hbody' (hauth ▸ hcontext) hrequest']
    exact respond_runSearch_eq hquery hlimit hcursors hview hfaults

theorem respond_eq_of_alike_small :
    let decode : String → Except JwtError Payload := fun _ => .ok .small
    let down (text : String) : Faults := fun o =>
      match o with
      | .selectRows .caseManager _ _ => some (.operationalError text)
      | _ => none
    let refusing : Faults := fun o =>
      match o with
      | .commit _ => some (.dataError "value too long")
      | o => down "server closed the connection" o
    respond (fun _ => "") ((search decode intOfInt .small).runWith
        (down "could not connect to 10.0.0.5") ({ database := .small }, {})).1 =
      respond (fun _ => "") ((search decode intOfInt .small).runWith refusing
        ({ database := .small, auditWriteFailures := 7 }, {})).1 := by
  intro decode down refusing
  have hcontext : getAuthContext decode HttpRequest.small.authorization = .ok .small := by
    decide +kernel
  have hview : SameView .small .small .small :=
    ⟨rfl, fun _ => .refl _, fun _ _ _ => Iff.rfl, fun _ _ _ => Iff.rfl⟩
  have halike : (down "could not connect to 10.0.0.5").Alike refusing := by
    intro o ho
    cases o with
    | selectRows app c stmt =>
      cases app with
      | investigator => trivial
      | caseManager => exact ⟨trivial, trivial, rfl⟩
    | selectReports c stmt => trivial
    | _ => exact ho.elim
  exact respond_eq_of_alike ⟨rfl, hcontext, Or.inl rfl⟩ hview halike

end Answers

/-! ### What is decided before the database -/

section Verdict

variable {decode : String → Except JwtError Payload} {intOf : Json → Except ErrorType ℤ}

/-- What header and body decide of a request, with `require_search_permission` for the
last check: the context and the request to search with, or the refusal. -/
def verdict (decode : String → Except JwtError Payload) (intOf : Json → Except ErrorType ℤ)
    (r : HttpRequest) : Except Exn (AuthContext × SearchRequest) := do
  let body ← r.body.mapError .requestValidationError
  let context ← getAuthContext decode r.authorization
  let request ← (SearchRequest.validate intOf body).mapError .requestValidationError
  let context ← requireSearchPermission context
  return (context, request)

variable (decode intOf) in
/-- The endpoint next to its verdict: a refusal before any call, a search that will be
denied, or one that will not. -/
theorem search_cases_verdict (r : HttpRequest) :
    (∃ e, verdict decode intOf r = .error e ∧ search decode intOf r = .raise e) ∨
      ∃ context request, search decode intOf r = runSearch context request .getDb .getAuditDb ∧
        ((context.searchApps = [] ∧ verdict decode intOf r = .error searchDenied) ∨
          (context.searchApps ≠ [] ∧ verdict decode intOf r = .ok (context, request))) := by
  cases hbody : r.body with
  | error errors =>
    refine Or.inl ⟨.requestValidationError errors, ?_, ?_⟩
    · simp [verdict, hbody, Except.mapError, bind, Except.bind]
    · simp [search, hbody, Except.mapError, Prog.bind]
  | ok body =>
    cases hcontext : getAuthContext decode r.authorization with
    | error e =>
      refine Or.inl ⟨e, ?_, ?_⟩
      · simp [verdict, hbody, hcontext, Except.mapError, bind, Except.bind]
      · simp [search, hbody, hcontext, Except.mapError, Prog.bind]
    | ok context =>
      cases hrequest : SearchRequest.validate intOf body with
      | error errors =>
        refine Or.inl ⟨.requestValidationError errors, ?_, ?_⟩
        · simp [verdict, hbody, hcontext, hrequest, Except.mapError, bind, Except.bind]
        · simp [search, hbody, hcontext, hrequest, Except.mapError, Prog.bind]
      | ok request =>
        have hverdict : verdict decode intOf r =
            (requireSearchPermission context).map fun context => (context, request) := by
          simp [verdict, hbody, hcontext, hrequest, Except.mapError, bind, Except.bind, pure,
            Except.pure]
          cases requireSearchPermission context <;> rfl
        refine Or.inr ⟨context, request, search_eq_runSearch hbody hcontext hrequest, ?_⟩
        rw [hverdict, requireSearchPermission]
        by_cases happs : context.searchApps = []
        · exact Or.inl ⟨happs, by rw [if_pos happs]; rfl⟩
        · exact Or.inr ⟨happs, by rw [if_neg happs]; rfl⟩

/-- A search that is not denied ends with sections for the permitted apps, or with an
exception from below. -/
theorem ends_runSearch {context : AuthContext} {request : SearchRequest}
    (happs : context.searchApps ≠ []) :
    (runSearch context request .getDb .getAuditDb).Ends Op.MayAnswer fun r =>
      (∃ response, r = .ok response ∧ response.query = request.query ∧
        response.appsSearched = context.searchApps ∧
        response.results.map Prod.fst = context.searchApps) ∨
      ∃ e, r = .error e ∧ e.Internal := by
  rw [runSearch, if_neg happs]
  refine Prog.ends_bind ((ends_searchLoop_start .getDb request context).mono ?_)
  intro r hr
  cases r with
  | error e => exact Or.inr ⟨e, rfl, hr⟩
  | ok found =>
    refine Prog.ends_bind ((ends_write .getAuditDb _).mono ?_)
    rintro _ rfl
    exact Or.inl ⟨_, rfl, rfl, rfl, hr.1⟩

/-- **Whether a request is refused, and with what, is decided by its header and its body
alone**, in any interleaving, whatever the database holds and whatever fails.  A refused
request runs no statement of the search session, and a denied one is answered as
`require_search_permission` answers it; any other ends with sections for the permitted
apps or with an exception from below. -/
theorem decided_of_visits {x : Shared × List Request} {visited : List Shared} {s : Shared}
    {ts : List Request} (hv : (searchSystem decode intOf).Visits x visited (s, ts)) {i : ℕ}
    (hi : x.2.length ≤ i) {th : Request} (hth : ts[i]? = some th)
    {r : Except Exn SearchResponse} (hr : th.prog.result = some r) :
    (∀ e, verdict decode intOf th.tag = .error e → r = .error e ∧
      (∀ c ∈ th.history, Op.Audit .getAuditDb c.1) ∧ (e ≠ searchDenied → th.history = [])) ∧
    ∀ context request, verdict decode intOf th.tag = .ok (context, request) →
      (∃ response, r = .ok response ∧ response.query = request.query ∧
        response.appsSearched = context.searchApps ∧
        response.results.map Prod.fst = context.searchApps) ∨
      ∃ e, r = .error e ∧ (e.status = 500 ∨ e.status = 503) := by
  obtain ⟨hfollows, moments, -, hmade⟩ := System.seen_of_visits hv hi hth
  have hgives : (search decode intOf th.tag).Gives th.history r := hfollows.gives hr
  rcases search_cases_verdict decode intOf th.tag with
    ⟨e, hverdict, hsearch⟩ | ⟨context, request, hsearch, ⟨happs, hverdict⟩ | ⟨happs, hverdict⟩⟩
  · rw [hsearch] at hgives
    obtain ⟨hhistory, rfl⟩ := hgives
    rw [hverdict, hhistory]
    constructor
    · intro e' he
      cases he
      exact ⟨rfl, by simp, fun _ => rfl⟩
    · intro context request hok
      cases hok
  · rw [hsearch, runSearch, if_pos happs] at hgives
    obtain ⟨h₁, h₂, r₁, hhistory, hwrite, hrest⟩ := Prog.gives_bind.mp hgives
    -- the writer never raises, so the search is denied after it
    have hends : (write .getAuditDb (deniedRows context request.query)).Ends (fun _ _ => True)
        (· = .ok ()) := ends_write _ _
    obtain rfl := hwrite.ends hends fun _ _ => trivial
    obtain ⟨rfl, rfl⟩ := hrest
    rw [hverdict, hhistory, List.append_nil]
    constructor
    · intro e he
      cases he
      exact ⟨rfl, hwrite.calls (calls_write _ _), fun hne => absurd rfl hne⟩
    · intro context' request' hok
      cases hok
  · rw [hsearch] at hgives
    have hmay : ∀ c ∈ th.history, Op.MayAnswer c.1 c.2 := by
      intro c hc
      obtain ⟨moment, -, l, s', l', hexec⟩ := exists_of_forall₂_mem hmade hc
      exact mayAnswer_exec _ _ _ _ _ _ hexec
    rw [hverdict]
    constructor
    · intro e he
      cases he
    · intro context' request' heq
      cases heq
      rcases hgives.ends (ends_runSearch happs) hmay with hok | ⟨e, he, hinternal⟩
      · exact Or.inl hok
      · exact Or.inr ⟨e, he, hinternal.status_eq⟩

theorem decided_of_visits_small :
    let decode : String → Except JwtError Payload := fun _ =>
      .ok { Payload.small with resourceAccess := .obj [], resourceAccess_ne := nofun }
    let run := (search decode intOfInt .small).runWith noFaults ({ database := .small }, {})
    verdict decode intOfInt .small = .error searchDenied ∧ run.1 = .error searchDenied := by
  intro decode run
  have hverdict : verdict decode intOfInt .small = .error searchDenied := rfl
  obtain ⟨history, visited, hvisits, -⟩ :=
    exists_visits_runWith decode intOfInt .small { database := .small } []
  exact ⟨hverdict, ((decided_of_visits hvisits (Nat.zero_le 0) rfl
    (Prog.result_ofExcept run.1)).1 _ hverdict).1⟩

end Verdict

end SnapSearch
