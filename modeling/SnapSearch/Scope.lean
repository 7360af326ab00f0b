import SnapSearch.Ledger

/-!
# The scope of a search

Which apps are searched is decided by the token's `resource_access` and nothing
else, and what each app gives is decided by its own strategy and nothing else.

## Main definitions

* `OnItsOwn` — what the strategy of an app gives when it is run by itself.

## Main results

* `runSearch_scope` — **the scope of a response is the scope of its token**, and
  the section of an app does not depend on the other apps.
-/

namespace SnapSearch

/-- The strategy of the app, run by itself, gives the section and the count. -/
def OnItsOwn (faults : Faults) (shared : Shared) (request : SearchRequest) (userId app : String)
    (found : AppSection × ℕ) : Prop :=
  ∃ strategy, strategies.lookup app = some strategy ∧
    ((strategy.search .getDb request.query userId (request.cursorFor app)
      request.limit).runWith faults (shared, {})).1 = .ok found

/-- Where a strategy gives a result next to failures, it met none. -/
theorem Strategy.result_noFaults {strategy : Strategy} {faults : Faults} {db : Database}
    {session : Conn} {query userId : String} {cursor : Option String} {limit : ℕ}
    {found : AppSection × ℕ}
    (h : strategy.result faults db session query userId cursor limit = .ok found) :
    strategy.result noFaults db session query userId cursor limit = .ok found := by
  cases strategy with
  | analytics =>
    simp only [result] at h ⊢
    split at h
    · cases h
    · split at h
      · cases h
      · exact h
  | listing app =>
    simp only [result] at h ⊢
    split at h
    · cases h
    · split at h
      · cases h
      · exact h

section Scope

variable {faults faults' : Faults} {shared shared' : Shared} {request : SearchRequest}
  {userId app : String} {found found' : AppSection × ℕ}

theorem onItsOwn_of_result {strategy : Strategy}
    (h : strategy.result faults shared.database .getDb request.query userId
      (request.cursorFor strategy.appName) request.limit = .ok found) :
    OnItsOwn faults shared request userId strategy.appName found := by
  obtain ⟨_, hrun, -⟩ := strategy.run_search faults (shared, {}) .getDb
    request.query userId (request.cursorFor strategy.appName) request.min_limit
  exact ⟨strategy, lookup_strategies strategy, by rw [hrun, h]⟩

/-- What a strategy gives by itself is decided by the database and the request. -/
theorem OnItsOwn.unique (h : OnItsOwn faults shared request userId app found)
    (h' : OnItsOwn faults' shared' request userId app found')
    (hdb : shared.database = shared'.database) : found = found' := by
  obtain ⟨strategy, hlookup, hrun⟩ := h
  obtain ⟨strategy', hlookup', hrun'⟩ := h'
  obtain rfl : strategy = strategy' := Option.some.inj (hlookup.symm.trans hlookup')
  obtain ⟨_, hresult, -⟩ := strategy.run_search faults (shared, {}) .getDb
    request.query userId (request.cursorFor app) request.min_limit
  obtain ⟨_, hresult', -⟩ := strategy.run_search faults' (shared', {}) .getDb
    request.query userId (request.cursorFor app) request.min_limit
  rw [hresult] at hrun
  rw [hresult'] at hrun'
  -- neither run met a failure, so both read the same
  have hok := Strategy.result_noFaults hrun
  have hok' := Strategy.result_noFaults hrun'
  simp only [hdb] at hok
  rw [hok] at hok'
  exact Except.ok.inj hok'

/-- The count of a strategy is what its section reports. -/
theorem OnItsOwn.count_eq (hfaults : ∀ o, ∀ e ∈ faults o, e.Internal)
    (h : OnItsOwn faults shared request userId app found) : found.2 = found.1.resultsCount := by
  obtain ⟨strategy, -, hrun⟩ := h
  have hcounted := (strategy.ends_search .getDb request.query userId (request.cursorFor app)
    request.limit).run (fun w o => perform (faults o) w o)
    (fun w o => mayAnswer_perform (hfaults o) w o) (shared, {})
  rw [Py.runWith] at hrun
  rwa [hrun] at hcounted

/-- What a response is made of: the section and the count that the strategy of each
permitted app gives by itself. -/
theorem of_runSearch_eq_ok {context : AuthContext} {response : SearchResponse}
    (h : ((runSearch context request .getDb .getAuditDb).runWith faults (shared, {})).1
      = .ok response) :
    ∃ found : List (String × AppSection × ℕ),
      found.map Prod.fst = context.searchApps ∧
      (∀ f ∈ found, OnItsOwn faults shared request context.userId f.1 f.2) ∧
      response = ⟨request.query, context.searchApps, sectionsOf found⟩ ∧
      ∃ w₁, (w₁ = (shared, {}) ∨ w₁ = World.begin (shared, {}) .getDb) ∧
        ((runSearch context request .getDb .getAuditDb).runWith faults (shared, {})).2
          = ((recordSearchOk .getAuditDb context request.query (countsOf found)).runWith
              faults w₁).2 := by
  obtain ⟨w₁, hw₁, hrun⟩ := run_runSearch faults (shared, {}) context request
  rw [hrun] at h ⊢
  rw [searchOutcome] at h ⊢
  split at h
  · cases h
  · next happs =>
    rw [if_neg happs]
    cases hc : collect faults shared.database request context.userId context.searchApps with
    | error e =>
      simp only [hc] at h
      cases h
    | ok found =>
      simp only [hc] at h ⊢
      cases h
      refine ⟨found, map_fst_of_collect hc, ?_, rfl, w₁, hw₁, rfl⟩
      intro f hf
      obtain ⟨strategy, hname, hresult⟩ := result_of_mem_collect hc f hf
      rw [hname]
      exact onItsOwn_of_result hresult

/-- Which searches are denied. -/
theorem status_runSearch_eq_403_iff (hfaults : ∀ o, ∀ e ∈ faults o, e.Internal)
    (context : AuthContext) :
    statusOf ((runSearch context request .getDb .getAuditDb).runWith faults (shared, {})).1 = 403 ↔
      context.searchApps = [] := by
  constructor
  · intro hstatus
    obtain ⟨g, hend, -⟩ := exists_searchEnd hfaults context request (w := (shared, {})) rfl
    revert hstatus hend
    cases ((runSearch context request .getDb .getAuditDb).runWith faults (shared, {})).1 with
    | ok response =>
      intro hstatus
      simp [statusOf] at hstatus
    | error e =>
      rintro hstatus (⟨-, happs, -⟩ | ⟨hinternal, -, -⟩)
      · exact happs
      · rw [statusOf] at hstatus
        rcases hinternal.status_eq with h | h <;> omega
  · intro happs
    rw [run_runSearch_of_denied happs]
    rfl

/-- The audit rows of a response: one for each section with its count, or none where
their write fails. -/
theorem exists_stored_recordSearchOk (faults : Faults) (context : AuthContext)
    (request : SearchRequest) (found : List (String × AppSection × ℕ)) {w₁ : World}
    (hw₁ : w₁ = (shared, {}) ∨ w₁ = World.begin (shared, {}) .getDb) :
    let after := ((recordSearchOk .getAuditDb context request.query
      (countsOf found)).runWith faults w₁).2.1
    ∃ stored, after.searchAuditLog = shared.searchAuditLog ++ stored ∧
      (¬WriteFails faults .getAuditDb (okRows context request.query (countsOf found)) ∧
          stored.map (fun row => (row.app, row.resultsCount)) =
            found.map (fun f => (some f.1, some f.2.2)) ∨
        WriteFails faults .getAuditDb (okRows context request.query (countsOf found)) ∧
          stored = [] ∧ after.errorLog.count auditWriteFailed
            = shared.errorLog.count auditWriteFailed + 1) := by
  have hshared : w₁.1 = shared := by
    rcases hw₁ with rfl | rfl <;> rfl
  have hpending : w₁.2.auditDb.pending = [] := by
    rcases hw₁ with rfl | rfl <;> rfl
  obtain ⟨stored, hlog, hstored⟩ := exists_stored_runWith_write faults
    (okRows context request.query (countsOf found)) hpending
  rw [hshared] at hlog hstored
  refine ⟨stored, hlog, ?_⟩
  rcases hstored with ⟨hstores, hstore⟩ | hlost
  · refine Or.inl ⟨hstores, ?_⟩
    rw [map_of_storeAll hstore, okRows, countsOf, List.map_map, List.map_map]
    rfl
  · exact Or.inr hlost

/-- The section of an app in what the loop collects. -/
theorem lookup_sectionsOf {found : List (String × AppSection × ℕ)}
    (hnodup : (found.map Prod.fst).Nodup) {f : String × AppSection × ℕ} (hf : f ∈ found) :
    (sectionsOf found).lookup f.1 = some f.2.1 := by
  have hkeys : (sectionsOf found).map Prod.fst = found.map Prod.fst := by
    rw [sectionsOf, List.map_map]
    rfl
  exact lookup_eq_some_of_mem (d := sectionsOf found) (by rwa [hkeys])
    (List.mem_map_of_mem (f := fun f : String × AppSection × ℕ => (f.1, f.2.1)) hf)

/-- **The section of an app depends on its own strategy only**: two users with the
same id that may both search it, whatever else they may search, find the same
section in the responses to one request on one database. -/
theorem lookup_results_eq {context context' : AuthContext} {response response' : SearchResponse}
    (hsub : context.userId = context'.userId) (hdb : shared.database = shared'.database)
    (h : ((runSearch context request .getDb .getAuditDb).runWith faults (shared, {})).1
      = .ok response)
    (h' : ((runSearch context' request .getDb .getAuditDb).runWith faults' (shared', {})).1
      = .ok response')
    (happ : app ∈ context.searchApps) (happ' : app ∈ context'.searchApps) :
    ∃ s, response.results.lookup app = some s ∧ response'.results.lookup app = some s := by
  obtain ⟨found, hkeys, hown, rfl, -⟩ := of_runSearch_eq_ok h
  obtain ⟨found', hkeys', hown', rfl, -⟩ := of_runSearch_eq_ok h'
  rw [← hkeys] at happ
  rw [← hkeys'] at happ'
  obtain ⟨f, hf, rfl⟩ := List.mem_map.mp happ
  obtain ⟨f', hf', hname⟩ := List.mem_map.mp happ'
  have hfound := hown f hf
  have hfound' := hown' f' hf'
  rw [hname, ← hsub] at hfound'
  -- both responses hold what the strategy gives by itself
  have heq := hfound.unique hfound' hdb
  refine ⟨f.2.1, lookup_sectionsOf ?_ hf, ?_⟩
  · rw [hkeys]
    exact context.nodup_searchApps
  · rw [← hname, heq]
    refine lookup_sectionsOf ?_ hf'
    rw [hkeys']
    exact context'.nodup_searchApps

/-- **The scope of a response is the scope of its token.**  Whatever an accepted
`resource_access` holds, a search is denied exactly where no known client's own
entry has the role `search`; the apps of a response, of its sections and of its
audit rows are the apps of the entries that have it, in declaration order; each
section and its count are what the strategy of its app gives by itself; and a user
with the same id and another accepted `resource_access` that grants the app too
finds the same section.  The audit rows are missing exactly where their write fails,
and that is logged. -/
theorem runSearch_scope (hfaults : ∀ o, ∀ e ∈ faults o, e.Internal) {resourceAccess : Json}
    {permissions : List String} (h : normalizePermissions resourceAccess = .ok permissions)
    (userId originApp : String) (request : SearchRequest) (shared : Shared) :
    let run := (runSearch ⟨userId, originApp, permissions⟩ request .getDb .getAuditDb).runWith
      faults (shared, {})
    (statusOf run.1 = 403 ↔
      ∀ client ∈ knownClients, "search" ∉ rolesGranted resourceAccess client.1) ∧
    ∀ response, run.1 = .ok response →
      response.appsSearched = grantedApps resourceAccess ∧
      response.results.map Prod.fst = grantedApps resourceAccess ∧
      (∃ found : List (String × AppSection × ℕ),
        found.map Prod.fst = grantedApps resourceAccess ∧
        (∀ f ∈ found, OnItsOwn faults shared request userId f.1 f.2 ∧
          f.2.2 = f.2.1.resultsCount) ∧
        response.results = sectionsOf found ∧
        (∃ w₁, (w₁ = (shared, {}) ∨ w₁ = World.begin (shared, {}) .getDb) ∧
          run.2 = ((recordSearchOk .getAuditDb ⟨userId, originApp, permissions⟩ request.query
            (countsOf found)).runWith faults w₁).2) ∧
        ∃ stored, run.2.1.searchAuditLog = shared.searchAuditLog ++ stored ∧
          (¬WriteFails faults .getAuditDb
              (okRows ⟨userId, originApp, permissions⟩ request.query (countsOf found)) ∧
            stored.map (fun row => (row.app, row.resultsCount)) =
              found.map (fun f => (some f.1, some f.2.2)) ∨
          WriteFails faults .getAuditDb
              (okRows ⟨userId, originApp, permissions⟩ request.query (countsOf found)) ∧
            stored = [] ∧ run.2.1.errorLog.count auditWriteFailed
              = shared.errorLog.count auditWriteFailed + 1)) ∧
      ∀ (faults' : Faults) (resourceAccess' : Json) (permissions' : List String)
        (originApp' : String) (shared' : Shared) (response' : SearchResponse),
        normalizePermissions resourceAccess' = .ok permissions' →
        shared.database = shared'.database →
        ((runSearch ⟨userId, originApp', permissions'⟩ request .getDb .getAuditDb).runWith
          faults' (shared', {})).1 = .ok response' →
        ∀ app ∈ grantedApps resourceAccess, app ∈ grantedApps resourceAccess' →
          ∃ s, response.results.lookup app = some s ∧ response'.results.lookup app = some s := by
  intro run
  have happs : AuthContext.searchApps ⟨userId, originApp, permissions⟩
      = grantedApps resourceAccess := searchApps_eq_grantedApps h
  constructor
  · rw [← grantedApps_eq_nil_iff, ← happs]
    exact status_runSearch_eq_403_iff hfaults _
  · intro response hresponse
    obtain ⟨found, hkeys, hown, hmade, w₁, hw₁, hhanded⟩ := of_runSearch_eq_ok hresponse
    obtain ⟨stored, hlog, hstored⟩ := exists_stored_recordSearchOk faults
      ⟨userId, originApp, permissions⟩ request found hw₁
    rw [← hhanded] at hlog hstored
    rw [happs] at hkeys hmade
    have hresults : response.results.map Prod.fst = found.map Prod.fst := by
      rw [hmade, sectionsOf, List.map_map]
      rfl
    have hcounted : ∀ f ∈ found, OnItsOwn faults shared request userId f.1 f.2 ∧
        f.2.2 = f.2.1.resultsCount :=
      fun f hf => ⟨hown f hf, (hown f hf).count_eq hfaults⟩
    refine ⟨by rw [hmade], hresults.trans hkeys, ⟨found, hkeys, hcounted, by rw [hmade],
      ⟨w₁, hw₁, hhanded⟩, stored, hlog, hstored⟩, ?_⟩
    intro faults' resourceAccess' permissions' originApp' shared' response' h' hdb hresponse' app
      happ happ'
    have happs' : AuthContext.searchApps ⟨userId, originApp', permissions'⟩
        = grantedApps resourceAccess' := searchApps_eq_grantedApps h'
    rw [← happs] at happ
    rw [← happs'] at happ'
    refine lookup_results_eq ?_ hdb hresponse hresponse' happ happ'
    rfl

end Scope

/-- A user of both listing apps, and one of the first only, of the same id. -/
theorem runSearch_scope_small :
    let run := (runSearch .small .small .getDb .getAuditDb).runWith noFaults
      ({ database := .small }, {})
    let run' := (runSearch { AuthContext.small with permissions := ["investigator:search"] } .small
      .getDb .getAuditDb).runWith noFaults ({ database := .small }, {})
    ∃ response response', run.1 = .ok response ∧ run'.1 = .ok response' ∧
      response.appsSearched = ["investigator", "case-manager"] ∧
      ∃ s, response.results.lookup "investigator" = some s ∧
        response'.results.lookup "investigator" = some s := by
  intro run run'
  obtain ⟨response, hresponse⟩ := exists_eq_ok_of_isOk (x := run.1) (by decide +kernel)
  obtain ⟨response', hresponse'⟩ := exists_eq_ok_of_isOk (x := run'.1) (by decide +kernel)
  have hfaults : ∀ o, ∀ e ∈ noFaults o, e.Internal := by simp [noFaults]
  have hpermissions : normalizePermissions Payload.small.resourceAccess
      = .ok AuthContext.small.permissions := rfl
  obtain ⟨happs, -, -, hsame⟩ := (runSearch_scope hfaults hpermissions _ _ .small
    { database := .small }).2 response hresponse
  refine ⟨response, response', hresponse, hresponse', happs, ?_⟩
  exact hsame noFaults (.obj [("investigator-api", .obj [("roles", .arr [.str "search"])])]) _ _ _
    response' rfl rfl hresponse' "investigator" (by decide) (by decide)

end SnapSearch
