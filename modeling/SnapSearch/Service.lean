import SnapSearch.Audit
import SnapSearch.Strategies

/-!
# The search service

`app/services/search/service.py` and the endpoint in `app/api/search.py`: every
permitted app is searched in turn, the search is recorded in the audit trail, and
the sections are returned together.

## Main definitions

* `searchLoop`, `runSearch` — `run_search`.
* `HttpRequest`, `search` — the endpoint.
* `collect`, `searchOutcome` — what a search gives and what it records, as a
  function of the database.

## Main results

* `run_runSearch` — **a search gives its outcome and writes its rows**, with
  whatever failures.
-/

namespace SnapSearch

/-! ### The service -/

/-- The loop of `run_search` over the permitted apps. -/
def searchLoop (db : Conn) (request : SearchRequest) (userId : String) :
    List String → List (String × AppSection) → List (String × ℕ) →
      Py (List (String × AppSection) × List (String × ℕ))
  | [], results, resultsPerApp => return (results, resultsPerApp)
  | appName :: apps, results, resultsPerApp =>
      match strategies.lookup appName with
      | none => throw (.keyError appName)
      | some strategy => do
          let found ← strategy.search db request.query userId (request.cursorFor appName)
            request.limit
          searchLoop db request userId apps (setItem results appName found.1)
            (resultsPerApp ++ [(appName, found.2)])

/-- The answer to a user without any search permission. -/
def searchDenied : Exn := .httpException 403 "no search permission in any application" []

/-- `run_search`. -/
def runSearch (context : AuthContext) (request : SearchRequest) (db auditDb : Conn) :
    Py SearchResponse :=
  if context.searchApps = [] then do
    -- the row is written before the 403 is raised
    recordSearchDenied auditDb context request.query
    throw searchDenied
  else do
    -- a cursor of an app that is not permitted is never looked up
    let (results, resultsPerApp) ← searchLoop db request context.userId context.searchApps [] []
    recordSearchOk auditDb context request.query resultsPerApp
    return { query := request.query, appsSearched := context.searchApps, results }

/-! ### The endpoint -/

/-- A request as the framework hands it over: a header, and the decoded body or
what was wrong with its text. -/
structure HttpRequest where
  authorization : Option String
  body : Except (List FieldError) Json

/-- `POST /api/v1/search`: a body that is no JSON is refused first, then the
dependencies run, then the body is validated. -/
def search (decode : String → Except JwtError Payload) (intOf : Json → Except ErrorType ℤ)
    (r : HttpRequest) : Py SearchResponse := do
  let body ← .ofExcept (r.body.mapError .requestValidationError)
  let context ← .ofExcept (getAuthContext decode r.authorization)
  let request ← .ofExcept ((SearchRequest.validate intOf body).mapError .requestValidationError)
  runSearch context request .getDb .getAuditDb

/-- The status of the answer to a request. -/
def statusOf : Except Exn SearchResponse → ℕ
  | .ok _ => 200
  | .error e => e.status

/-! ### What a search gives -/

/-- What the loop collects on a database: a section and a count for every app. -/
def collect (faults : Faults) (db : Database) (request : SearchRequest) (userId : String) :
    List String → Except Exn (List (String × AppSection × ℕ))
  | [] => .ok []
  | appName :: apps =>
      match strategies.lookup appName with
      | none => .error (.keyError appName)
      | some strategy =>
          match strategy.result faults db .getDb request.query userId (request.cursorFor appName)
            request.limit with
          | .error e => .error e
          | .ok found =>
              (collect faults db request userId apps).map ((appName, found) :: ·)

/-- The sections collected. -/
def sectionsOf (found : List (String × AppSection × ℕ)) : List (String × AppSection) :=
  found.map fun f => (f.1, f.2.1)

/-- The counts collected. -/
def countsOf (found : List (String × AppSection × ℕ)) : List (String × ℕ) :=
  found.map fun f => (f.1, f.2.2)

/-- What a search gives on a database, and the rows it hands to the writer. -/
def searchOutcome (faults : Faults) (db : Database) (context : AuthContext)
    (request : SearchRequest) : Except Exn SearchResponse × Option (List SearchAuditLog) :=
  if context.searchApps = [] then
    (.error searchDenied, some (deniedRows context request.query))
  else
    match collect faults db request context.userId context.searchApps with
    | .error e => (.error e, none)
    | .ok found =>
        (.ok { query := request.query, appsSearched := context.searchApps,
               results := sectionsOf found },
          some (okRows context request.query (countsOf found)))

/-- The apps collected are the ones searched, in their order. -/
theorem map_fst_of_collect {faults : Faults} {db : Database} {request : SearchRequest}
    {userId : String} {apps : List String} {found : List (String × AppSection × ℕ)}
    (h : collect faults db request userId apps = .ok found) : found.map Prod.fst = apps := by
  induction apps generalizing found with
  | nil =>
    cases h
    rfl
  | cons app apps ih =>
    rw [collect] at h
    split at h
    · cases h
    · split at h
      · cases h
      · cases hrest : collect faults db request userId apps with
        | error e =>
          rw [hrest] at h
          cases h
        | ok rest =>
          rw [hrest] at h
          cases h
          rw [List.map_cons, ih hrest]

/-- Each section and its count are what the strategy of the app gives on its own. -/
theorem result_of_mem_collect {faults : Faults} {db : Database} {request : SearchRequest}
    {userId : String} {apps : List String} {found : List (String × AppSection × ℕ)}
    (h : collect faults db request userId apps = .ok found) :
    ∀ f ∈ found, ∃ s : Strategy, f.1 = s.appName ∧
      s.result faults db .getDb request.query userId (request.cursorFor s.appName) request.limit
        = .ok f.2 := by
  induction apps generalizing found with
  | nil =>
    cases h
    simp
  | cons app apps ih =>
    rw [collect] at h
    split at h
    · cases h
    · next s hs =>
      -- the strategy found is the one registered under the app's name
      obtain rfl := eq_appName_of_lookup_strategies hs
      split at h
      · cases h
      · next f hf =>
        cases hrest : collect faults db request userId apps with
        | error e =>
          rw [hrest] at h
          cases h
        | ok rest =>
          rw [hrest] at h
          cases h
          rw [List.forall_mem_cons]
          exact ⟨⟨s, rfl, hf⟩, ih hrest⟩

theorem nodup_sectionsOf {faults : Faults} {db : Database} {request : SearchRequest}
    {userId : String} {context : AuthContext} {found : List (String × AppSection × ℕ)}
    (h : collect faults db request userId context.searchApps = .ok found) :
    ((sectionsOf found).map Prod.fst).Nodup := by
  have hmap : (sectionsOf found).map Prod.fst = found.map Prod.fst := by
    rw [sectionsOf, List.map_map]
    rfl
  rw [hmap, map_fst_of_collect h]
  exact context.nodup_searchApps

/-- The strategies of the permitted apps. -/
def AuthContext.strategies (context : AuthContext) : List Strategy :=
  Strategy.all.filter fun s => s.appName ++ ":" ++ "search" ∈ context.permissions

theorem AuthContext.map_appName_strategies (context : AuthContext) :
    context.strategies.map Strategy.appName = context.searchApps := by
  rw [strategies, searchApps, ← map_appName_all, List.filter_map]
  rfl

/-- Where every strategy gives a result, the loop collects them. -/
theorem collect_of_forall {faults : Faults} {db : Database} {request : SearchRequest}
    {userId : String} {found : Strategy → AppSection × ℕ} {ss : List Strategy}
    (h : ∀ s ∈ ss, s.result faults db .getDb request.query userId (request.cursorFor s.appName)
      request.limit = .ok (found s)) :
    collect faults db request userId (ss.map Strategy.appName)
      = .ok (ss.map fun s => (s.appName, found s)) := by
  induction ss with
  | nil => rfl
  | cons s ss ih =>
    rw [List.forall_mem_cons] at h
    rw [List.map_cons, collect]
    simp only [lookup_strategies, h.1, ih h.2]
    rfl

/-! ### The run of a search -/

section Runs

variable (faults : Faults) (w : World)

@[simp] theorem begin_begin (c : Conn) : (w.begin c).begin c = w.begin c := by
  cases c <;> rfl

/-- The loop gives what it collects, and opens a transaction at most. -/
theorem run_searchLoop (request : SearchRequest) (userId : String) (apps : List String)
    (results : List (String × AppSection)) (resultsPerApp : List (String × ℕ)) :
    ∃ w', (searchLoop .getDb request userId apps results resultsPerApp).runWith faults w =
        ((collect faults w.1.database request userId apps).map fun found =>
          ((sectionsOf found).foldl (fun d item => setItem d item.1 item.2) results,
            resultsPerApp ++ countsOf found), w') ∧
      (w' = w ∨ w' = w.begin .getDb) := by
  induction apps generalizing w results resultsPerApp with
  | nil => exact ⟨w, by simp [searchLoop, collect, Except.map, sectionsOf, countsOf], Or.inl rfl⟩
  | cons app apps ih =>
    rw [searchLoop, collect]
    cases hl : strategies.lookup app with
    | none => exact ⟨w, rfl, Or.inl rfl⟩
    | some strategy =>
      obtain ⟨w₁, hrun, hw₁⟩ := strategy.run_search faults w .getDb request.query userId
        (request.cursorFor app) request.min_limit
      simp only [Prog.bind_eq]
      cases hres : strategy.result faults w.1.database .getDb request.query userId
          (request.cursorFor app) request.limit with
      | error e =>
        rw [hres] at hrun
        exact ⟨w₁, Py.runWith_bind_of_error hrun, hw₁⟩
      | ok found =>
        rw [hres] at hrun
        obtain ⟨w₂, hrest, hw₂⟩ := ih w₁ (setItem results app found.1)
          (resultsPerApp ++ [(app, found.2)])
        -- searching opens a transaction and changes nothing
        have hdb : w₁.1.database = w.1.database := by
          rcases hw₁ with rfl | rfl <;> rfl
        refine ⟨w₂, ?_, ?_⟩
        · rw [Py.runWith_bind_of_ok hrun, hrest, hdb]
          cases collect faults w.1.database request userId apps with
          | error e => rfl
          | ok rest => simp [Except.map, sectionsOf, countsOf]
        · rcases hw₁ with rfl | rfl <;> rcases hw₂ with rfl | rfl <;> simp

/-- The loop of a search starts with nothing, so it gives just what it collects. -/
theorem run_searchLoop_start (context : AuthContext) (request : SearchRequest) :
    ∃ w', (searchLoop .getDb request context.userId context.searchApps [] []).runWith faults w =
        ((collect faults w.1.database request context.userId context.searchApps).map fun found =>
          (sectionsOf found, countsOf found), w') ∧
      (w' = w ∨ w' = w.begin .getDb) := by
  obtain ⟨w', hloop, hw'⟩ := run_searchLoop faults w request context.userId context.searchApps [] []
  refine ⟨w', ?_, hw'⟩
  rw [hloop]
  cases hc : collect faults w.1.database request context.userId context.searchApps with
  | error e => rfl
  | ok found =>
    -- the apps are distinct, so setting their sections one by one keeps the order
    have hdict := dictOf_of_nodup (nodup_sectionsOf hc)
    unfold dictOf at hdict
    simp only [Except.map, hdict, List.nil_append]

/-- **A search gives its outcome and writes its rows**, with whatever failures:
it opens a transaction in the search session at most, then the writer runs. -/
theorem run_runSearch (context : AuthContext) (request : SearchRequest) :
    ∃ w₁, (w₁ = w ∨ w₁ = w.begin .getDb) ∧
      (runSearch context request .getDb .getAuditDb).runWith faults w =
        ((searchOutcome faults w.1.database context request).1,
          match (searchOutcome faults w.1.database context request).2 with
          | none => w₁
          | some rows => ((write .getAuditDb rows).runWith faults w₁).2) := by
  rw [runSearch, searchOutcome]
  split
  · obtain ⟨w', hwrite, -, -⟩ := runWith_write faults w .getAuditDb
      (deniedRows context request.query)
    refine ⟨w, Or.inl rfl, ?_⟩
    simp only [hwrite]
    exact Py.runWith_bind_of_ok hwrite
  · obtain ⟨w₁, hloop, hw₁⟩ := run_searchLoop_start faults w context request
    refine ⟨w₁, hw₁, ?_⟩
    simp only [Prog.bind_eq]
    cases hc : collect faults w.1.database request context.userId context.searchApps with
    | error e =>
      rw [hc] at hloop
      exact Py.runWith_bind_of_error hloop
    | ok found =>
      rw [hc] at hloop
      obtain ⟨w', hwrite, -, -⟩ := runWith_write faults w₁ .getAuditDb
        (okRows context request.query (countsOf found))
      simp only [hwrite]
      exact (Py.runWith_bind_of_ok hloop).trans (Py.runWith_bind_of_ok hwrite)

variable {faults w} in
/-- A user without any search permission is denied, whatever fails. -/
theorem run_runSearch_of_denied {context : AuthContext} (happs : context.searchApps = [])
    (request : SearchRequest) :
    ((runSearch context request .getDb .getAuditDb).runWith faults w).1 = .error searchDenied := by
  obtain ⟨_, -, hrun⟩ := run_runSearch faults w context request
  rw [hrun, searchOutcome, if_pos happs]

end Runs

/-! ### The rows of an outcome -/

/-- The audit rows of a response: one `ok` row for each section, with the number
of results in it. -/
def okBatch (context : AuthContext) (response : SearchResponse) : List SearchAuditLog :=
  response.results.map fun (app, s) =>
    { userId := context.userId, app := some app, originApp := context.originApp,
      query := response.query, resultsCount := some s.resultsCount, status := "ok" }

/-- The sections and counts that the loop may come to have. -/
def Tallied (apps : List String) (r : List (String × AppSection) × List (String × ℕ)) : Prop :=
  r.1.map Prod.fst = apps ∧ r.2 = r.1.map fun item => (item.1, item.2.resultsCount)

theorem calls_searchLoop (session : Conn) (request : SearchRequest) (userId : String)
    (apps : List String) (results : List (String × AppSection)) (counts : List (String × ℕ)) :
    (searchLoop session request userId apps results counts).Calls (Op.Reads session) := by
  induction apps generalizing results counts with
  | nil => trivial
  | cons app apps ih =>
    rw [searchLoop]
    cases strategies.lookup app with
    | none => trivial
    | some strategy =>
      apply Prog.calls_bind (strategy.calls_search session _ _ _ _)
      intro found
      exact ih _ _

/-- How the loop may end. -/
def LoopEnd (apps : List String) :
    Except Exn (List (String × AppSection) × List (String × ℕ)) → Prop
  | .ok found => Tallied apps found
  | .error e => e.Internal

/-- **The loop ends with a section and its count for every app**, whatever the
database answers. -/
theorem ends_searchLoop (session : Conn) (request : SearchRequest) (userId : String)
    {done apps : List String} (hnodup : (done ++ apps).Nodup)
    {results : List (String × AppSection)} {counts : List (String × ℕ)}
    (h : Tallied done (results, counts)) :
    (searchLoop session request userId apps results counts).Ends Op.MayAnswer
      (LoopEnd (done ++ apps)) := by
  induction apps generalizing done results counts with
  | nil =>
    rw [searchLoop, List.append_nil]
    exact h
  | cons app apps ih =>
    rw [searchLoop]
    cases strategies.lookup app with
    | none => trivial
    | some strategy =>
      apply Prog.ends_bind
      apply (strategy.ends_search session _ _ _ _).mono
      intro r hr
      cases r with
      | error e => exact hr
      | ok found =>
        -- the app has not been searched yet, so its section goes last
        have hnew : app ∉ results.map Prod.fst := by
          rw [h.1]
          intro hmem
          exact (List.nodup_append.mp hnodup).2.2 _ hmem _ List.mem_cons_self rfl
        have htally : Tallied (done ++ [app])
            (setItem results app found.1, counts ++ [(app, found.2)]) := by
          have hcounts : counts = results.map fun item => (item.1, item.2.resultsCount) := h.2
          have hcount : found.2 = found.1.resultsCount := hr
          rw [setItem_of_notMem hnew]
          refine ⟨by rw [List.map_append, h.1]; rfl, ?_⟩
          rw [hcounts, hcount, List.map_append]
          rfl
        have hrest := ih (by rwa [List.append_assoc]) htally
        rwa [List.append_assoc] at hrest

/-- The loop of a search starts with nothing done. -/
theorem ends_searchLoop_start (session : Conn) (request : SearchRequest) (context : AuthContext) :
    (searchLoop session request context.userId context.searchApps [] []).Ends Op.MayAnswer
      (LoopEnd context.searchApps) := by
  have hstart : Tallied [] ([], []) := ⟨rfl, rfl⟩
  exact ends_searchLoop session request context.userId context.nodup_searchApps hstart

theorem okRows_eq_okBatch {context : AuthContext} {query : String} {apps : List String}
    {found : List (String × AppSection) × List (String × ℕ)} (h : Tallied apps found) :
    okRows context query found.2 = okBatch context ⟨query, apps, found.1⟩ := by
  rw [okRows, h.2, List.map_map]
  rfl

/-- What a search collects is an end of its loop. -/
theorem loopEnd_collect {faults : Faults} (hfaults : ∀ o, ∀ e ∈ faults o, e.Internal)
    (db : Database) (context : AuthContext) (request : SearchRequest) :
    LoopEnd context.searchApps
      ((collect faults db request context.userId context.searchApps).map fun found =>
        (sectionsOf found, countsOf found)) := by
  obtain ⟨w', hloop, -⟩ := run_searchLoop_start faults ({ database := db }, {}) context request
  have hends := (ends_searchLoop_start .getDb request context).run
    (fun w o => perform (faults o) w o) (fun w o => mayAnswer_perform (hfaults o) w o)
    ({ database := db }, {})
  rw [Py.runWith] at hloop
  rwa [hloop] at hends

/-- What a search collects is tallied. -/
theorem tallied_of_collect {faults : Faults} (hfaults : ∀ o, ∀ e ∈ faults o, e.Internal)
    {db : Database} {context : AuthContext} {request : SearchRequest}
    {found : List (String × AppSection × ℕ)}
    (h : collect faults db request context.userId context.searchApps = .ok found) :
    Tallied context.searchApps (sectionsOf found, countsOf found) := by
  have hend := loopEnd_collect hfaults db context request
  rwa [h] at hend

/-- What a search fails with comes from below. -/
theorem internal_of_collect {faults : Faults} (hfaults : ∀ o, ∀ e ∈ faults o, e.Internal)
    {db : Database} {context : AuthContext} {request : SearchRequest} {e : Exn}
    (h : collect faults db request context.userId context.searchApps = .error e) : e.Internal := by
  have hend := loopEnd_collect hfaults db context request
  rwa [h] at hend

/-! ### A small search -/

/-- A token of a user of both listing apps. -/
def Payload.small : Payload where
  sub := "00000000-0000-0000-0000-000000000007"
  azp := .str "investigator-api"
  resourceAccess := .obj
    [("investigator-api", .obj [("roles", .arr [.str "search"])]),
      ("case-manager-api", .obj [("roles", .arr [.str "search"])])]
  azp_ne := nofun
  resourceAccess_ne := nofun

/-- What the token says. -/
def AuthContext.small : AuthContext where
  userId := "00000000-0000-0000-0000-000000000007"
  originApp := "investigator"
  permissions := ["investigator:search", "case-manager:search"]

/-- A search one row at a time. -/
def SearchRequest.small : SearchRequest where
  query := "an"
  limit := 1
  cursors := none
  min_query := by decide
  max_query := by decide
  min_limit := by decide
  max_limit := by decide
  cursors_ok := rfl

end SnapSearch
