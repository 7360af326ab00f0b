import SnapSearch.Lib.Visits
import SnapSearch.Trail

/-!
# The moments a response is made of

A search runs one statement for each permitted app, each on the tables as they are
when it runs.  While other requests and writers go on in between, the sections of
one response may show different moments; what each shows is the state of one
moment of the request's own run, and the moments come in the order of the apps.

## Main definitions

* `FoundAt`, `ShownAt` — a section is what the strategy of its app gives at a moment.

## Main results

* `Strategy.gives_search` — a strategy makes at most one call, and gives what it
  gives on the state that call was answered on.
* `exists_moments` — **each section of a response is what its strategy gives at one
  moment of the request's run.**
* `eq_runOn_of_visits` — **on a database that stays as it is, a request next to any
  others gives what it gives alone.**
-/

namespace SnapSearch

/-! ### One call for each strategy -/

/-- A program of at most one call, which raises the exception of that call. -/
def AtMostOneCall {α : Type} (session : Conn) (p : Py α) : Prop :=
  (∃ e, p = .raise e) ∨ ∃ (o : Op) (f : Res o → Except Exn α), o.Reads session ∧
    p = .call o fun x => .ofExcept (x.bind f)

/-- One call, and then no other. -/
theorem atMostOneCall_bind {α : Type} {session : Conn} {o : Op} (ho : o.Reads session)
    {g : Res o → Py α} (hg : ∀ a, ∃ r, g a = .ofExcept r) :
    AtMostOneCall session ((Prog.perform o).bind g) := by
  choose f hf using hg
  refine Or.inr ⟨o, f, ho, ?_⟩
  show (Prog.call o fun x => (Prog.ofExcept x).bind g) = _
  congr 1
  funext x
  cases x with
  | error e => rfl
  | ok a => exact hf a

theorem AtMostOneCall.map {α β : Type} {session : Conn} {p : Py α} (h : AtMostOneCall session p)
    (f : α → β) : AtMostOneCall session (p.bind fun a => .pure (f a)) := by
  rcases h with ⟨e, rfl⟩ | ⟨o, g, hreads, rfl⟩
  · exact Or.inl ⟨e, rfl⟩
  · refine Or.inr ⟨o, fun a => (g a).map f, hreads, ?_⟩
    show (Prog.call o fun x => (Prog.ofExcept (x.bind g)).bind fun a => .pure (f a)) = _
    congr 1
    funext x
    cases x with
    | error e => rfl
    | ok a =>
      show ((Prog.ofExcept (g a)).bind fun a => .pure (f a)) = Prog.ofExcept ((g a).map f)
      cases g a <;> rfl

/-- **A strategy makes at most one call.** -/
theorem Strategy.atMostOneCall_search (strategy : Strategy) (session : Conn)
    (query userId : String) (cursor : Option String) (limit : ℕ) :
    AtMostOneCall session (strategy.search session query userId cursor limit) := by
  cases strategy with
  | analytics =>
    refine AtMostOneCall.map ?_ fun r : AnalyticsSection × ℕ => (AppSection.analytics r.1, r.2)
    cases cursor with
    | some c => exact Or.inl ⟨_, rfl⟩
    | none =>
      refine atMostOneCall_bind (o := .selectReports session (analyticsStmt query)) rfl ?_
      intro rows
      exact ⟨.ok (analyticsSectionOf rows), rfl⟩
  | listing app =>
    refine AtMostOneCall.map ?_ fun r : ListSection app.Item × ℕ => (app.toSection r.1, r.2)
    rw [Paginated.search_eq]
    unfold pagedSearch
    cases hcursor : cursorId cursor with
    | error e => exact Or.inl ⟨e, rfl⟩
    | ok u =>
      refine atMostOneCall_bind (o := .selectRows app session
        (pagedStmt app (app.conditions query userId) limit u)) rfl ?_
      intro rows
      simp only [Prog.bind_eq]
      cases hnext : nextCursorOf app rows (List.map app.itemOfRow (List.take limit rows)) limit with
      | error e => exact ⟨.error e, rfl⟩
      | ok next => exact ⟨.ok (⟨_, next⟩, _), rfl⟩

/-! ### Moments -/

section Moments

variable {decode : String → Except JwtError Payload} {intOf : Json → Except ErrorType ℤ}

/-- A result that is the exception of one of the statements run. -/
def RaisedBy {α : Type} (h : List ((o : Op) × Except Exn (Res o))) (r : Except Exn α) : Prop :=
  ∃ (o : Op) (e : Exn), o.Reads .getDb ∧ ⟨o, .error e⟩ ∈ h ∧ r = .error e

theorem RaisedBy.mono {α β : Type} {h h' : List ((o : Op) × Except Exn (Res o))}
    {r : Except Exn α} {r' : Except Exn β} (hr : RaisedBy h r) (hsub : h ⊆ h')
    (herror : ∀ e, r = .error e → r' = .error e) : RaisedBy h' r' := by
  obtain ⟨o, e, hreads, hmem, he⟩ := hr
  exact ⟨o, e, hreads, hsub hmem, herror e he⟩

/-- A call that did not fail was answered from the shared state. -/
theorem eq_answer_of_made {s : Shared} {o : Op} {x : Except Exn (Res o)}
    (hmade : (searchSystem decode intOf).Made s ⟨o, x⟩) :
    (∃ e, x = .error e) ∨ ∃ l, (perform none (s, l) o).1 = x := by
  obtain ⟨l, s', l', fault, -, hperform⟩ := hmade
  cases fault with
  | none => exact Or.inr ⟨l, by rw [hperform]⟩
  | some e =>
    cases o with
    | logException message => exact Or.inr ⟨l, congrArg Prod.fst hperform⟩
    | _ => exact Or.inl ⟨e, (congrArg Prod.fst hperform).symm⟩

/-- **A strategy gives what it gives on the state its call was answered on**, unless
it raises the exception of that call. -/
theorem Strategy.gives_search (strategy : Strategy) {query userId : String}
    {cursor : Option String} {limit : ℕ} (hlimit : 1 ≤ limit)
    {h : List ((o : Op) × Except Exn (Res o))} {r : Except Exn (AppSection × ℕ)}
    (hgives : (strategy.search .getDb query userId cursor limit).Gives h r)
    {moments : List Shared} (hmade : List.Forall₂ (searchSystem decode intOf).Made moments h) :
    RaisedBy h r ∨
      (∃ s, moments = [s] ∧
        r = strategy.result noFaults s.database .getDb query userId cursor limit) ∨
      (moments = [] ∧ ∃ e, r = .error e ∧
        ∀ db, strategy.result noFaults db .getDb query userId cursor limit = .error e) := by
  -- what the strategy gives when it runs alone
  have hrun := fun w => strategy.run_search noFaults w .getDb query userId cursor hlimit
  rcases strategy.atMostOneCall_search .getDb query userId cursor limit with
    ⟨e, hsearch⟩ | ⟨o, f, hreads, hsearch⟩
  · rw [hsearch] at hgives hrun
    obtain ⟨rfl, rfl⟩ := hgives
    cases hmade
    refine Or.inr (Or.inr ⟨rfl, e, rfl, ?_⟩)
    intro db
    obtain ⟨w', hrun, -⟩ := hrun ({ database := db }, {})
    exact (congrArg Prod.fst hrun).symm
  · rw [hsearch] at hgives hrun
    obtain ⟨x, h', rfl, hrest⟩ := hgives
    obtain ⟨rfl, rfl⟩ := Prog.gives_ofExcept.mp hrest
    cases hmade with
    | @cons s _ moments _ hmade hnil =>
      cases hnil
      rcases eq_answer_of_made hmade with ⟨e, rfl⟩ | ⟨l, hx⟩
      · exact Or.inl ⟨o, e, hreads, List.mem_singleton_self _, rfl⟩
      · obtain ⟨w', hrun, -⟩ := hrun (s, l)
        rw [Py.runWith_call, Py.runWith_ofExcept] at hrun
        refine Or.inr (Or.inl ⟨s, rfl, ?_⟩)
        rw [← hx]
        exact congrArg Prod.fst hrun

/-- A section and its count are what the strategy of the app gives at a moment. -/
def FoundAt (request : SearchRequest) (userId : String) (s : Shared)
    (found : String × AppSection × ℕ) : Prop :=
  ∃ strategy : Strategy, found.1 = strategy.appName ∧
    strategy.result noFaults s.database .getDb request.query userId (request.cursorFor found.1)
      request.limit = .ok found.2

/-- A section is what the strategy of the app gives at a moment. -/
def ShownAt (request : SearchRequest) (userId : String) (s : Shared)
    (item : String × AppSection) : Prop :=
  ∃ count, FoundAt request userId s (item.1, item.2, count)

/-- Where all moments show one database, what was found is what the loop collects. -/
theorem collect_of_foundAt {request : SearchRequest} {userId : String} {db : Database}
    {moments : List Shared} {found : List (String × AppSection × ℕ)}
    (hfound : List.Forall₂ (FoundAt request userId) moments found)
    (hdb : ∀ s ∈ moments, s.database = db) :
    collect noFaults db request userId (found.map Prod.fst) = .ok found := by
  induction hfound with
  | nil => rfl
  | @cons s f moments found hfirst _ ih =>
    rw [List.forall_mem_cons] at hdb
    obtain ⟨strategy, happ, hresult⟩ := hfirst
    rw [hdb.1, happ] at hresult
    rw [List.map_cons, collect, happ]
    simp only [lookup_strategies, hresult, ih hdb.2]
    rw [← happ]
    rfl

/-- How a path of the loop ends: with the exception of one of its statements, with
sections found at the moments of its calls, or as the loop ends on any database
that the moments show. -/
def LoopAt (request : SearchRequest) (userId : String) (apps : List String)
    (results : List (String × AppSection)) (counts : List (String × ℕ)) (moments : List Shared)
    (r : Except Exn (List (String × AppSection) × List (String × ℕ))) : Prop :=
  (∃ found, List.Forall₂ (FoundAt request userId) moments found ∧ found.map Prod.fst = apps ∧
      r = .ok ((sectionsOf found).foldl (fun d item => setItem d item.1 item.2) results,
        counts ++ countsOf found)) ∨
    (∃ e, r = .error e ∧ ∀ db, (∀ s ∈ moments, s.database = db) →
      collect noFaults db request userId apps = .error e)

theorem gives_searchLoop {request : SearchRequest} {userId : String} {apps : List String}
    {results : List (String × AppSection)} {counts : List (String × ℕ)}
    {h : List ((o : Op) × Except Exn (Res o))}
    {r : Except Exn (List (String × AppSection) × List (String × ℕ))}
    (hgives : (searchLoop .getDb request userId apps results counts).Gives h r)
    {moments : List Shared} (hmade : List.Forall₂ (searchSystem decode intOf).Made moments h) :
    RaisedBy h r ∨ LoopAt request userId apps results counts moments r := by
  induction apps generalizing results counts h moments with
  | nil =>
    obtain ⟨rfl, rfl⟩ := hgives
    cases hmade
    exact Or.inr (Or.inl ⟨[], .nil, rfl, by simp [sectionsOf, countsOf]⟩)
  | cons app apps ih =>
    rw [searchLoop] at hgives
    cases hlookup : strategies.lookup app with
    | none =>
      rw [hlookup] at hgives
      obtain ⟨rfl, rfl⟩ := hgives
      refine Or.inr (Or.inr ⟨_, rfl, ?_⟩)
      intro db _
      rw [collect, hlookup]
    | some strategy =>
      rw [hlookup] at hgives
      obtain rfl := eq_appName_of_lookup_strategies hlookup
      obtain ⟨h₁, h₂, r₁, rfl, hfirst, hrest⟩ := Prog.gives_bind.mp hgives
      obtain ⟨moments₁, moments₂, rfl, hmade₁, hmade₂⟩ := exists_append_of_forall₂ hmade
      -- the exception of the strategy ends the loop
      have hraise : ∀ e, r₁ = .error e → r = .error e := by
        intro e he
        subst he
        exact hrest.2
      rcases strategy.gives_search request.min_limit hfirst hmade₁ with
        hraised | ⟨s, rfl, hresult⟩ | ⟨rfl, e, he, hall⟩
      · exact Or.inl (hraised.mono (List.subset_append_left _ _) hraise)
      · cases hr₁ : r₁ with
        | error e =>
          refine Or.inr (Or.inr ⟨e, hraise e hr₁, ?_⟩)
          intro db hdb
          rw [collect, hlookup]
          rw [hr₁, hdb s (by simp)] at hresult
          simp only [← hresult]
        | ok f =>
          rw [hr₁] at hrest hresult
          rcases ih hrest hmade₂ with hraised | ⟨found, hfound, hmap, hr⟩ | ⟨e, he, hall⟩
          · exact Or.inl (hraised.mono (List.subset_append_right _ _) fun _ he => he)
          · refine Or.inr (Or.inl ⟨(strategy.appName, f) :: found,
              .cons ⟨strategy, rfl, hresult.symm⟩ hfound, by rw [List.map_cons, hmap], ?_⟩)
            rw [hr]
            simp [sectionsOf, countsOf]
          · refine Or.inr (Or.inr ⟨e, he, ?_⟩)
            intro db hdb
            rw [collect, hlookup]
            rw [hdb s (by simp)] at hresult
            simp only [← hresult]
            rw [hall db fun s' hs' => hdb s' (List.mem_append_right _ hs')]
            rfl
      · refine Or.inr (Or.inr ⟨e, hraise e he, ?_⟩)
        intro db _
        rw [collect, hlookup]
        simp only [hall db]

/-! ### Whole searches -/

/-- How a path of a search ends, unless one of its statements failed: denied, with
the sections found at the moments of its first calls, or as its loop ends on any
database that the moments show. -/
def SearchAt (context : AuthContext) (request : SearchRequest) (moments : List Shared)
    (r : Except Exn SearchResponse) : Prop :=
  (context.searchApps = [] ∧ r = .error searchDenied) ∨
    (context.searchApps ≠ [] ∧ ∃ read rest found, moments = read ++ rest ∧
      List.Forall₂ (FoundAt request context.userId) read found ∧
      found.map Prod.fst = context.searchApps ∧
      r = .ok { query := request.query, appsSearched := context.searchApps,
                results := sectionsOf found }) ∨
    (context.searchApps ≠ [] ∧ ∃ e, r = .error e ∧
      ∀ db, (∀ s ∈ moments, s.database = db) →
        collect noFaults db request context.userId context.searchApps = .error e)

theorem gives_runSearch {context : AuthContext} {request : SearchRequest}
    {h : List ((o : Op) × Except Exn (Res o))} {r : Except Exn SearchResponse}
    (hgives : (runSearch context request .getDb .getAuditDb).Gives h r)
    {moments : List Shared} (hmade : List.Forall₂ (searchSystem decode intOf).Made moments h) :
    RaisedBy h r ∨ SearchAt context request moments r := by
  -- the writer never raises
  have hwrite : ∀ {h rows r}, (write .getAuditDb rows).Gives h r → r = .ok () := by
    intro h rows r hgives
    have hends : (write .getAuditDb rows).Ends (fun _ _ => True) (· = .ok ()) := ends_write _ rows
    exact hgives.ends hends fun _ _ => trivial
  unfold runSearch at hgives
  split at hgives
  · next happs =>
    obtain ⟨h₁, h₂, r₁, -, hfirst, hrest⟩ := Prog.gives_bind.mp hgives
    obtain rfl := hwrite hfirst
    exact Or.inr (Or.inl ⟨happs, hrest.2⟩)
  · next happs =>
    obtain ⟨h₁, h₂, r₁, rfl, hloop, hrest⟩ := Prog.gives_bind.mp hgives
    obtain ⟨moments₁, moments₂, rfl, hmade₁, hmade₂⟩ := exists_append_of_forall₂ hmade
    rcases gives_searchLoop hloop hmade₁ with
      hraised | ⟨found, hfound, hmap, rfl⟩ | ⟨e, rfl, hall⟩
    · refine Or.inl (hraised.mono (List.subset_append_left _ _) ?_)
      intro e he
      subst he
      exact hrest.2
    · obtain ⟨h₃, h₄, r₃, -, hfirst, hend⟩ := Prog.gives_bind.mp hrest
      obtain rfl := hwrite hfirst
      refine Or.inr (Or.inr (Or.inl ⟨happs, moments₁, moments₂, found, rfl, hfound, hmap, ?_⟩))
      -- the apps are distinct, so setting their sections one by one keeps the order
      have hnodup : ((sectionsOf found).map Prod.fst).Nodup := by
        rw [sectionsOf, List.map_map]
        show (found.map Prod.fst).Nodup
        rw [hmap]
        exact context.nodup_searchApps
      have hdict := dictOf_of_nodup hnodup
      unfold dictOf at hdict
      rw [hend.2, hdict]
    · refine Or.inr (Or.inr (Or.inr ⟨happs, e, hrest.2, ?_⟩))
      intro db hdb
      exact hall db fun s hs => hdb s (List.mem_append_left _ hs)

/-- On one database a search gives its outcome there. -/
theorem SearchAt.eq_searchOutcome {context : AuthContext} {request : SearchRequest}
    {moments : List Shared} {r : Except Exn SearchResponse}
    (h : SearchAt context request moments r) {db : Database}
    (hdb : ∀ s ∈ moments, s.database = db) :
    r = (searchOutcome noFaults db context request).1 := by
  unfold searchOutcome
  rcases h with ⟨happs, rfl⟩ | ⟨happs, read, rest, found, rfl, hfound, hmap, rfl⟩ |
    ⟨happs, e, rfl, hall⟩
  · rw [if_pos happs]
  · have hcollect := collect_of_foundAt hfound fun s hs => hdb s (List.mem_append_left _ hs)
    rw [hmap] at hcollect
    rw [if_neg happs, hcollect]
  · rw [if_neg happs, hall db hdb]

/-- A request is refused before any call, or let through to a search. -/
theorem search_cases (decode : String → Except JwtError Payload) (intOf : Json → Except ErrorType ℤ)
    (r : HttpRequest) :
    (∃ e, search decode intOf r = .raise e) ∨
      ∃ body context request, r.body = .ok body ∧
        getAuthContext decode r.authorization = .ok context ∧
        SearchRequest.validate intOf body = .ok request ∧
        search decode intOf r = runSearch context request .getDb .getAuditDb := by
  unfold search
  cases hbody : r.body with
  | error errors => exact Or.inl ⟨_, rfl⟩
  | ok body =>
    cases hcontext : getAuthContext decode r.authorization with
    | error e => exact Or.inl ⟨_, rfl⟩
    | ok context =>
      cases hrequest : SearchRequest.validate intOf body with
      | error errors =>
        refine Or.inl ⟨.requestValidationError errors, ?_⟩
        simp [hrequest, Except.mapError, Prog.bind]
      | ok request =>
        refine Or.inr ⟨body, context, request, rfl, rfl, hrequest, ?_⟩
        simp [hrequest, Except.mapError, Prog.bind]

/-! ### Requests in a run -/

/-- No operation changes the database. -/
theorem database_perform (fault : Option Exn) (w : World) (o : Op) :
    (perform fault w o).2.1.database = w.1.database := by
  cases fault with
  | some e => cases o <;> rfl
  | none =>
    cases o with
    | commit c =>
      simp only [perform, answer]
      split <;> rfl
    | _ => rfl

/-- No run changes the database. -/
theorem database_runWith {α : Type} (p : Py α) (faults : Faults) (w : World) :
    (p.runWith faults w).2.1.database = w.1.database := by
  induction p generalizing w with
  | pure a => rfl
  | raise e => rfl
  | call o k ih => exact (ih _ _).trans (database_perform (faults o) w o)

/-- A request run alone, next to others that stay as they are, visits states of its
database. -/
theorem exists_visits_runWith (decode : String → Except JwtError Payload)
    (intOf : Json → Except ErrorType ℤ) (r : HttpRequest) (s : Shared) (ts : List Request) :
    let run := (search decode intOf r).runWith noFaults (s, {})
    ∃ history visited, (searchSystem decode intOf).Visits (s, ts) visited
      (run.2.1, ts ++ [⟨r, run.2.2, history, .ofExcept run.1⟩]) ∧
      ∀ y ∈ visited, y.database = s.database := by
  intro run
  obtain ⟨history, visited, hvisits, hdb⟩ := System.visits_run (M := searchSystem decode intOf)
    (P := fun y => y.database = s.database) (fun w o => perform (noFaults o) w o)
    (fun s l o => ⟨none, by simp, rfl⟩) (fun s l o h => (database_perform _ _ _).trans h) ts
    r (search decode intOf r) rfl {} []
  have hspawn : (searchSystem decode intOf).Visits (s, ts)
      [s] (s, ts ++ [⟨r, {}, [], search decode intOf r⟩]) :=
    .tail (.refl _) (.spawn r _ _)
  refine ⟨history, _, hspawn.trans hvisits, ?_⟩
  rw [List.singleton_append, List.forall_mem_cons]
  exact ⟨rfl, hdb⟩

/-- A response was put together from what was found at moments of the request's run. -/
theorem exists_found_of_visits {x : Shared × List Request} {visited : List Shared} {s : Shared}
    {ts : List Request} (hv : (searchSystem decode intOf).Visits x visited (s, ts)) {i : ℕ}
    (hi : x.2.length ≤ i) {th : Request} (hth : ts[i]? = some th) {response : SearchResponse}
    (hr : th.prog.result = some (.ok response)) :
    ∃ body context request, th.tag.body = .ok body ∧
      getAuthContext decode th.tag.authorization = .ok context ∧
      SearchRequest.validate intOf body = .ok request ∧
      ∃ moments found, moments.Sublist visited ∧
        List.Forall₂ (FoundAt request context.userId) moments found ∧
        found.map Prod.fst = context.searchApps ∧
        response = { query := request.query, appsSearched := context.searchApps,
                     results := sectionsOf found } := by
  obtain ⟨hfollows, moments, hsub, hmade⟩ := System.seen_of_visits hv hi hth
  have hgives : (search decode intOf th.tag).Gives th.history (.ok response) := hfollows.gives hr
  rcases search_cases decode intOf th.tag with
    ⟨e, hraise⟩ | ⟨body, context, request, hbody, hcontext, hrequest, hsearch⟩
  · rw [hraise] at hgives
    cases hgives.2
  · rw [hsearch] at hgives
    rcases gives_runSearch hgives hmade with
      ⟨o, e, -, -, he⟩ | ⟨-, he⟩ | ⟨-, read, rest, found, rfl, hfound, hmap, hresponse⟩ |
        ⟨-, e, he, -⟩
    · cases he
    · cases he
    · exact ⟨body, context, request, hbody, hcontext, hrequest, read, found,
        (List.sublist_append_left _ _).trans hsub, hfound, hmap, Except.ok.inj hresponse⟩
    · cases he

/-- **Each section of a response is what its strategy gives at one moment of the
request's run.**  However requests interleave, fail and are written past: the
sections of a 200 are those of the permitted apps, in their order, and each is what
the strategy gives on its own on the database as it was at a moment between the
request's start and its answer; the moments come in the order of the sections. -/
theorem exists_moments {x : Shared × List Request} {visited : List Shared} {s : Shared}
    {ts : List Request} (hv : (searchSystem decode intOf).Visits x visited (s, ts)) {i : ℕ}
    (hi : x.2.length ≤ i) {th : Request} (hth : ts[i]? = some th) {response : SearchResponse}
    (hr : th.prog.result = some (.ok response)) :
    ∃ body context request, th.tag.body = .ok body ∧
      getAuthContext decode th.tag.authorization = .ok context ∧
      SearchRequest.validate intOf body = .ok request ∧
      response.query = request.query ∧ response.appsSearched = context.searchApps ∧
      response.results.map Prod.fst = context.searchApps ∧
      ∃ moments : List Shared, moments.Sublist visited ∧
        List.Forall₂ (ShownAt request context.userId) moments response.results := by
  obtain ⟨body, context, request, hbody, hcontext, hrequest, moments, found, hsub, hfound, hmap,
    rfl⟩ := exists_found_of_visits hv hi hth hr
  have hkeys : (sectionsOf found).map Prod.fst = found.map Prod.fst := by
    rw [sectionsOf, List.map_map]
    rfl
  refine ⟨body, context, request, hbody, hcontext, hrequest, rfl, rfl, hkeys.trans hmap,
    moments, hsub, ?_⟩
  show List.Forall₂ _ moments (found.map fun f => (f.1, f.2.1))
  rw [List.forall₂_map_right_iff]
  apply hfound.imp
  intro s f hf
  exact ⟨f.2.2, hf⟩

/-- The cases are gone before the first request asks for them: its sections are those
of two moments. -/
theorem exists_moments_small :
    let decode : String → Except JwtError Payload := fun _ => .ok .small
    ∃ visited s ts th response context request,
      searchTurns decode intOfInt ({ database := .small }, [])
        (twoRequests (Database.small.withTable .caseManager .empty))
          = some (visited, (s, ts)) ∧
      ts[0]? = some th ∧ th.prog.result = some (.ok response) ∧
      response.results.map (fun s => (s.1, s.2.resultsCount))
        = [("investigator", 2), ("case-manager", 0)] ∧
      getAuthContext decode th.tag.authorization = .ok context ∧
      ∃ moments : List Shared, moments.Sublist visited ∧
        List.Forall₂ (ShownAt request context.userId) moments response.results := by
  intro decode
  obtain ⟨visited, s, ts, th, response, hturns, hth, hresult, hcounts⟩ :=
    exists_of_searchTurns decode intOfInt { database := .small }
      (twoRequests (Database.small.withTable .caseManager .empty)) 0
      (fun _ response => response.results.map fun s => (s.1, s.2.resultsCount))
      [("investigator", 2), ("case-manager", 0)] (by decide +kernel)
  obtain ⟨body, context, request, -, hcontext, -, -, -, -, moments, hsub, hshown⟩ :=
    exists_moments (visits_searchTurns hturns) (Nat.zero_le 0) hth hresult
  exact ⟨visited, s, ts, th, response, context, request, hturns, hth, hresult, hcounts, hcontext,
    moments, hsub, hshown⟩

/-- **On a database that stays as it is, a request next to any others gives what it
gives alone**, unless one of its own statements failed: then it ends with the very
exception of that statement. -/
theorem eq_runOn_of_visits {x : Shared × List Request} {visited : List Shared} {s : Shared}
    {ts : List Request} (hv : (searchSystem decode intOf).Visits x visited (s, ts))
    {db : Database} (hdb : ∀ s ∈ visited, s.database = db) {i : ℕ} (hi : x.2.length ≤ i)
    {th : Request} (hth : ts[i]? = some th) {result : Except Exn SearchResponse}
    (hr : th.prog.result = some result) :
    result = (search decode intOf th.tag).runOn db ∨ RaisedBy th.history result := by
  obtain ⟨hfollows, moments, hsub, hmade⟩ := System.seen_of_visits hv hi hth
  have hgives : (search decode intOf th.tag).Gives th.history result := hfollows.gives hr
  rcases search_cases decode intOf th.tag with
    ⟨e, hraise⟩ | ⟨body, context, request, -, -, -, hsearch⟩
  · rw [hraise] at hgives ⊢
    exact Or.inl hgives.2
  · rw [hsearch] at hgives ⊢
    rcases gives_runSearch hgives hmade with hraised | hat
    · exact Or.inr hraised
    · left
      rw [hat.eq_searchOutcome fun s hs => hdb s (hsub.subset hs)]
      obtain ⟨w₁, -, hrun⟩ := run_runSearch noFaults ({ database := db }, {}) context request
      exact (congrArg Prod.fst hrun).symm

/-- The second request gives what it gives alone, though its audit rows are lost. -/
theorem eq_runOn_of_visits_small :
    let decode : String → Except JwtError Payload := fun _ => .ok .small
    ∃ visited s ts th response,
      searchTurns decode intOfInt ({ database := .small }, []) (twoRequests .small)
        = some (visited, (s, ts)) ∧
      ts[1]? = some th ∧ th.prog.result = some (.ok response) ∧ s.auditWriteFailures = 1 ∧
      (search decode intOfInt th.tag).runOn .small = .ok response := by
  intro decode
  obtain ⟨visited, s, ts, th, response, hturns, hth, hresult, hfailures⟩ :=
    exists_of_searchTurns decode intOfInt { database := .small } (twoRequests .small) 1
      (fun s _ => s.auditWriteFailures) 1 (by decide +kernel)
  have hdb : ∀ s ∈ visited, s.database = .small := by
    refine System.forall_of_turns (P := fun s : Shared => s.database = .small) ?_ ?_ rfl hturns
    · intro f s l o hs
      exact (database_perform _ (s, l) o).trans hs
    · intro d hd s hs
      simpa [twoRequests] using hd
  refine ⟨visited, s, ts, th, response, hturns, hth, hresult, hfailures, ?_⟩
  rcases eq_runOn_of_visits (visits_searchTurns hturns) hdb (Nat.zero_le 1) hth hresult with
    halone | ⟨-, e, -, -, he⟩
  · exact halone.symm
  · cases he

end Moments

end SnapSearch
