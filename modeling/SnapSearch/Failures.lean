import SnapSearch.Service

/-!
# How a search fails

Several branches of the search are there for a state that other modules exclude: an
app without a strategy, a cursor for the analytics app, a cursor that is no UUID, a
page that is cut with nothing on it.  Each is excluded far from where it would
raise, by the token, by the request's validators or by the bound of its limit.

What is left are the 403 and the exceptions of the statements themselves, and a
statement on a database that answers fails for a value bound to it only.

## Main definitions

* `raisedByReads` — the exceptions that the statements of a search have raised.
* `Op.Accepted` — a statement whose bound values the server takes.
* `NothingRefused` — no statement of a search is refused for a value.

## Main results

* `runSearch_raises` — **a search raises its 403 or what one of its statements
  raised**, whatever the statements answer.
* `nothingRefused_iff` — for which requests no value is refused.
-/

namespace SnapSearch

/-! ### The branches that are excluded -/

/-- The apps searched have a strategy each. -/
theorem exists_strategy_of_mem_appNames {app : String} (h : app ∈ appNames) :
    ∃ s : Strategy, app = s.appName := by
  rw [← map_appName_all, List.mem_map] at h
  obtain ⟨s, -, rfl⟩ := h
  exact ⟨s, rfl⟩

/-- The cursors of a request are UUIDs. -/
theorem SearchRequest.exists_cursorId (request : SearchRequest) (appName : String) :
    ∃ u, cursorId (request.cursorFor appName) = .ok u := by
  cases hcursor : request.cursorFor appName with
  | none => exact ⟨none, rfl⟩
  | some cursor =>
    obtain ⟨u, hu⟩ := exists_parse_of_cursorFor hcursor
    exact ⟨some u, by simp [cursorId, hu]⟩

/-- A page that is cut has a last item. -/
theorem exists_nextCursorOf (app : Paginated) (rows : List app.Row) {limit : ℕ}
    (hlimit : 1 ≤ limit) :
    ∃ next, nextCursorOf app rows ((rows.take limit).map app.itemOfRow) limit = .ok next := by
  unfold nextCursorOf
  split
  · next hlt =>
    have hne : (rows.take limit).map app.itemOfRow ≠ [] := by
      rw [← List.length_pos_iff_ne_nil, List.length_map, List.length_take]
      omega
    rw [List.getLast?_eq_some_getLast hne]
    exact ⟨_, rfl⟩
  · exact ⟨none, rfl⟩

/-! ### What a search raises -/

/-- The exceptions that the statements of a search have raised. -/
def raisedByReads (raised : List Exn) (o : Op) (r : Except Exn (Res o)) : List Exn :=
  match o, r with
  | .selectReports _ _, .error e => raised ++ [e]
  | .selectRows _ _ _, .error e => raised ++ [e]
  | _, _ => raised

/-- A program ends with a value or with an exception that a statement raised. -/
def OnlyRaised {α : Type} (raised : List Exn) : Except Exn α → Prop
  | .ok _ => True
  | .error e => e ∈ raised

section Raises

variable {may : (o : Op) → Except Exn (Res o) → Prop} {session : Conn} {query userId : String}
  {cursor : Option String} {limit : ℕ}

theorem obeys_selectReports (stmt : CountByMonth AnalyticsReport) (raised : List Exn) :
    (selectReports session stmt).Obeys may raisedByReads (fun _ _ => True) OnlyRaised raised := by
  refine ⟨trivial, ?_⟩
  intro r _
  apply Prog.obeys_ofExcept
  cases r with
  | ok rows => trivial
  | error e => simp [OnlyRaised, raisedByReads]

theorem obeys_selectRows (app : Paginated) (stmt : Select app.Row) (raised : List Exn) :
    (selectRows app session stmt).Obeys may raisedByReads (fun _ _ => True) OnlyRaised raised := by
  refine ⟨trivial, ?_⟩
  intro r _
  apply Prog.obeys_ofExcept
  cases r with
  | ok rows => trivial
  | error e => simp [OnlyRaised, raisedByReads]

/-- A listing strategy raises what its statement does. -/
theorem Paginated.obeys_search (app : Paginated) {u : Option Uuid}
    (hcursor : cursorId cursor = .ok u) (hlimit : 1 ≤ limit) (raised : List Exn) :
    (app.search session query userId cursor limit).Obeys may raisedByReads (fun _ _ => True)
      OnlyRaised raised := by
  rw [search_eq, pagedSearch, hcursor]
  apply Prog.obeys_bind
  apply Prog.obeys_bind
  apply (obeys_selectRows app _ raised).mono
  intro raised' r hr
  cases r with
  | error e => exact hr
  | ok rows =>
    obtain ⟨next, hnext⟩ := exists_nextCursorOf app rows hlimit
    simp only [hnext]
    trivial

/-- A strategy raises what its statement does. -/
theorem Strategy.obeys_search (strategy : Strategy) {u : Option Uuid}
    (hcursor : cursorId cursor = .ok u) (hanalytics : strategy = .analytics → cursor = none)
    (hlimit : 1 ≤ limit) (raised : List Exn) :
    (strategy.search session query userId cursor limit).Obeys may raisedByReads (fun _ _ => True)
      OnlyRaised raised := by
  cases strategy with
  | analytics =>
    rw [hanalytics rfl]
    apply Prog.obeys_bind
    apply Prog.obeys_bind
    apply (obeys_selectReports _ raised).mono
    intro raised' r hr
    cases r with
    | error e => exact hr
    | ok rows => trivial
  | listing app =>
    apply Prog.obeys_bind
    apply (app.obeys_search hcursor hlimit raised).mono
    intro raised' r hr
    cases r with
    | error e => exact hr
    | ok found => trivial

/-- **The loop raises what a statement does**, whatever the statements answer. -/
theorem obeys_searchLoop (request : SearchRequest) {apps : List String}
    (happs : ∀ app ∈ apps, app ∈ appNames) (results : List (String × AppSection))
    (counts : List (String × ℕ)) (raised : List Exn) :
    (searchLoop session request userId apps results counts).Obeys may raisedByReads
      (fun _ _ => True) OnlyRaised raised := by
  induction apps generalizing results counts raised with
  | nil => trivial
  | cons app apps ih =>
    rw [List.forall_mem_cons] at happs
    obtain ⟨strategy, rfl⟩ := exists_strategy_of_mem_appNames happs.1
    obtain ⟨u, hcursor⟩ := request.exists_cursorId strategy.appName
    have hanalytics : strategy = .analytics → request.cursorFor strategy.appName = none := by
      rintro rfl
      exact request.cursorFor_analytics
    unfold searchLoop
    simp only [lookup_strategies]
    apply Prog.obeys_bind
    apply (strategy.obeys_search hcursor hanalytics request.min_limit raised).mono
    intro raised' r hr
    cases r with
    | error e => exact hr
    | ok found => exact ih happs.2 _ _ _

/-- The writer raises nothing, and none of its operations is a statement of the
search. -/
theorem obeys_raised_write (session : Conn) (rows : List SearchAuditLog) (raised : List Exn) :
    (write session rows).Obeys may raisedByReads (fun _ _ => True)
      (fun raised' r => raised' = raised ∧ r = .ok ()) raised := by
  refine Prog.obeys_of_calls ?_ (fun _ _ => trivial) (calls_write session rows)
    (ends_write session rows)
  intro o r ho
  cases o with
  | selectReports c stmt => exact ho.elim
  | selectRows app c stmt => exact ho.elim
  | _ => rfl

end Raises

/-- **A search raises its 403 or what one of its statements raised**, whatever its
operations answer: no other branch that raises is ever taken. -/
theorem runSearch_raises (context : AuthContext) (request : SearchRequest) :
    (runSearch context request .getDb .getAuditDb).Obeys (fun _ _ => True) raisedByReads
      (fun _ _ => True)
      (fun raised r => ∀ e, r = .error e → e = searchDenied ∨ e ∈ raised) [] := by
  unfold runSearch
  split
  · apply Prog.obeys_bind
    apply (obeys_raised_write _ _ _).mono
    rintro raised r ⟨-, rfl⟩ e he
    exact Or.inl (Except.error.inj he).symm
  · apply Prog.obeys_bind
    apply (obeys_searchLoop request context.searchApps_sublist.subset [] [] []).mono
    intro raised r hr
    cases r with
    | error e =>
      rintro _ ⟨⟩
      exact Or.inr hr
    | ok found =>
      apply Prog.obeys_bind
      apply (obeys_raised_write _ _ _).mono
      intro raised' r hok
      rw [hok.2]
      intro e he
      cases he

/-! ### The values bound -/

/-- A statement whose bound values the server takes. -/
def Op.Accepted (srv : Server) : Op → Prop
  | .selectReports _ stmt => Condition.checkAll srv stmt.conditions = .ok ()
  | .selectRows _ _ stmt => Condition.checkAll srv stmt.conditions = .ok ()
  | _ => True

/-- No statement of a search binds a value that a server refuses, and a search returns
a response, raises its 403, or ends with a failure of the database it has met. -/
def NothingRefused (context : AuthContext) (request : SearchRequest) : Prop :=
  (∀ srv, (runSearch context request .getDb .getAuditDb).Calls (Op.Accepted srv)) ∧
    ∀ (faults : Faults) (w : World),
      match ((runSearch context request .getDb .getAuditDb).runWith faults w).1 with
      | .ok _ => True
      | .error e => e = searchDenied ∨ ∃ o, faults o = some e

section Values

variable {faults : Faults} {db : Database} {session : Conn} {query userId : String}
  {cursor : Option String} {limit : ℕ}

theorem Strategy.calls_search_accepted (srv : Server) {strategy : Strategy}
    (haccepts : strategy.Accepts query userId) (session : Conn) (cursor : Option String)
    (limit : ℕ) :
    (strategy.search session query userId cursor limit).Calls (Op.Accepted srv) := by
  cases strategy with
  | analytics =>
    refine Prog.calls_bind ?_ fun _ => trivial
    cases cursor with
    | none =>
      apply Prog.calls_bind
      · apply Prog.calls_perform
        exact (checkAll_analyticsStmt_eq_ok_iff srv).mpr haccepts.1
      · intro rows
        trivial
    | some c => trivial
  | listing app =>
    refine Prog.calls_bind ?_ fun _ => trivial
    rw [Paginated.search_eq]
    apply Prog.calls_bind (Prog.calls_ofExcept _)
    intro u
    apply Prog.calls_bind
    · apply Prog.calls_perform
      show Condition.checkAll srv (pagedStmt app (app.conditions query userId) limit u).conditions
        = .ok ()
      rw [Paginated.checkAll_pagedStmt]
      exact (app.checkAll_conditions_eq_ok_iff srv).mpr (haccepts.2 app rfl)
    · intro rows
      apply Prog.calls_bind (Prog.calls_ofExcept _)
      intro nextCursor
      trivial

/-- Where its values are taken, the statement of a strategy fails with a failure of
the run only. -/
theorem Strategy.fault_of_result {strategy : Strategy} (haccepts : strategy.Accepts query userId)
    {u : Option Uuid} (hcursor : cursorId cursor = .ok u)
    (hanalytics : strategy = .analytics → cursor = none) {e : Exn}
    (h : strategy.result faults db session query userId cursor limit = .error e) :
    ∃ o, faults o = some e := by
  cases strategy with
  | analytics =>
    rw [hanalytics rfl] at h
    simp only [result] at h
    split at h
    · next hfault =>
      cases h
      exact ⟨_, hfault⟩
    · rw [(analyticsOf_eq_ok_iff db).mpr ⟨haccepts.1, rfl⟩] at h
      cases h
  | listing app =>
    simp only [result, hcursor] at h
    split at h
    · next hfault =>
      cases h
      exact ⟨_, hfault⟩
    · rw [(Paginated.pageOf_eq_ok_iff db u limit).mpr ⟨haccepts.2 app rfl, rfl⟩] at h
      cases h

variable {request : SearchRequest} {apps : List String}

theorem calls_searchLoop_accepted (srv : Server)
    (haccepts : ∀ s : Strategy, s.appName ∈ apps → s.Accepts request.query userId)
    (results : List (String × AppSection)) (counts : List (String × ℕ)) :
    (searchLoop session request userId apps results counts).Calls (Op.Accepted srv) := by
  induction apps generalizing results counts with
  | nil => trivial
  | cons app apps ih =>
    unfold searchLoop
    cases hl : strategies.lookup app with
    | none => trivial
    | some strategy =>
      obtain rfl := eq_appName_of_lookup_strategies hl
      apply Prog.calls_bind
      · exact strategy.calls_search_accepted srv (haccepts strategy List.mem_cons_self) _ _ _
      · intro found
        apply ih
        intro s hs
        exact haccepts s (List.mem_cons_of_mem _ hs)

theorem fault_of_collect
    (haccepts : ∀ s : Strategy, s.appName ∈ apps → s.Accepts request.query userId)
    (happs : ∀ app ∈ apps, app ∈ appNames) {e : Exn}
    (h : collect faults db request userId apps = .error e) : ∃ o, faults o = some e := by
  induction apps with
  | nil => cases h
  | cons app apps ih =>
    rw [List.forall_mem_cons] at happs
    obtain ⟨s, rfl⟩ := exists_strategy_of_mem_appNames happs.1
    obtain ⟨u, hcursor⟩ := request.exists_cursorId s.appName
    have hanalytics : s = .analytics → request.cursorFor s.appName = none := by
      rintro rfl
      exact request.cursorFor_analytics
    simp only [collect, lookup_strategies] at h
    split at h
    · next hresult =>
      cases h
      exact Strategy.fault_of_result (haccepts s List.mem_cons_self) hcursor hanalytics hresult
    · cases hrest : collect faults db request userId apps with
      | ok rest =>
        rw [hrest] at h
        cases h
      | error e' =>
        rw [hrest] at h
        cases h
        refine ih ?_ happs.2 hrest
        intro s' hs'
        exact haccepts s' (List.mem_cons_of_mem _ hs')

/-- Where the loop has collected every section, each strategy's values were taken. -/
theorem accepts_of_collect {found : List (String × AppSection × ℕ)}
    (h : collect noFaults db request userId apps = .ok found) {s : Strategy}
    (hs : s.appName ∈ apps) : s.Accepts request.query userId := by
  rw [← map_fst_of_collect h, List.mem_map] at hs
  obtain ⟨f, hf, hname⟩ := hs
  obtain ⟨s', hs', hresult⟩ := result_of_mem_collect h f hf
  obtain rfl := Strategy.appName_injective (hs'.symm.trans hname)
  exact (Strategy.of_result_eq_ok hresult).1

end Values

/-- Every strategy of a search has its values taken where the query can be sent and,
if the user's own cases are searched, the subject is a UUID. -/
theorem forall_accepts_iff (context : AuthContext) (query : String) :
    (∀ s : Strategy, s.appName ∈ context.searchApps → s.Accepts query context.userId) ↔
      (context.searchApps ≠ [] → Storable query) ∧
        ("case-manager" ∈ context.searchApps → (Uuid.pgIn context.userId).isSome) := by
  constructor
  · intro h
    refine ⟨?_, ?_⟩
    · intro hne
      obtain ⟨app, happ⟩ := List.exists_mem_of_ne_nil _ hne
      obtain ⟨s, rfl⟩ := exists_strategy_of_mem_appNames (context.searchApps_sublist.subset happ)
      exact (h s happ).1
    · intro hcases
      exact ((h (.listing .caseManager) hcases).2 .caseManager rfl).2 rfl
  · intro h s hs
    obtain ⟨hquery, huser⟩ := h
    have hstorable := hquery (List.ne_nil_of_mem hs)
    refine ⟨hstorable, ?_⟩
    rintro app rfl
    refine ⟨hstorable, ?_⟩
    rintro rfl
    exact huser hs

/-- Where no value is refused, every strategy has its values taken. -/
theorem NothingRefused.accepts {context : AuthContext} {request : SearchRequest}
    (h : NothingRefused context request) {s : Strategy} (hs : s.appName ∈ context.searchApps) :
    s.Accepts request.query context.userId := by
  -- on a database that answers, a search that ends well has collected every section
  have hrun := h.2 noFaults ({ database := .small }, {})
  obtain ⟨w₁, -, houtcome⟩ := run_runSearch noFaults ({ database := .small }, {}) context request
  rw [houtcome, searchOutcome, if_neg (List.ne_nil_of_mem hs)] at hrun
  cases hc : collect noFaults .small request context.userId context.searchApps with
  | ok found => exact accepts_of_collect hc hs
  | error e =>
    simp only [hc] at hrun
    rcases hrun with rfl | ⟨o, ho⟩
    · exact (internal_of_collect (by simp [noFaults]) hc).elim
    · cases ho

/-- **No value is refused** just where the query can be sent and, if the user's own
cases are searched, the subject is a UUID. -/
theorem nothingRefused_iff (context : AuthContext) (request : SearchRequest) :
    NothingRefused context request ↔
      (context.searchApps ≠ [] → Storable request.query) ∧
        ("case-manager" ∈ context.searchApps → (Uuid.pgIn context.userId).isSome) := by
  rw [← forall_accepts_iff]
  constructor
  · intro h s hs
    exact h.accepts hs
  · intro haccepts
    refine ⟨?_, ?_⟩
    · intro srv
      have hwrite : ∀ rows, (write .getAuditDb rows).Calls (Op.Accepted srv) := by
        intro rows
        refine (calls_write .getAuditDb rows).mono ?_
        intro o ho
        cases o with
        | selectReports c stmt => exact ho.elim
        | selectRows app c stmt => exact ho.elim
        | _ => trivial
      unfold runSearch
      split
      · exact Prog.calls_bind (hwrite _) fun _ => trivial
      · apply Prog.calls_bind (calls_searchLoop_accepted srv haccepts [] [])
        intro found
        exact Prog.calls_bind (hwrite _) fun _ => trivial
    · intro faults w
      obtain ⟨w₁, -, houtcome⟩ := run_runSearch faults w context request
      rw [houtcome, searchOutcome]
      by_cases happs : context.searchApps = []
      · rw [if_pos happs]
        exact Or.inl rfl
      · rw [if_neg happs]
        cases hc : collect faults w.1.database request context.userId context.searchApps with
        | ok found => trivial
        | error e =>
          exact Or.inr (fault_of_collect haccepts context.searchApps_sublist.subset hc)

/-- A search for a text with U+0000 in it, which no validator refuses. -/
def SearchRequest.nulQuery : SearchRequest :=
  { SearchRequest.small with
    query := String.ofList ['a', Char.ofNat 0, 'b']
    min_query := by decide
    max_query := by decide }

/-- An accepted token and an accepted body make the database refuse a value. -/
theorem nulQuery_refused :
    ¬∀ (decode : String → Except JwtError Payload) (authorization : Option String)
      (intOf : Json → Except ErrorType ℤ) (body : Json) (context : AuthContext)
      (request : SearchRequest),
      getAuthContext decode authorization = .ok context →
      SearchRequest.validate intOf body = .ok request → NothingRefused context request := by
  intro h
  have hrefused := h (fun _ => .ok .small) (some "Bearer t") intOfInt
    (.obj [("query", .str (String.ofList ['a', Char.ofNat 0, 'b'])), ("limit", .int 1)])
    .small .nulQuery rfl rfl
  have haccepts := hrefused.accepts (s := .listing .investigator) (by decide)
  exact absurd haccepts.1 (by decide)

end SnapSearch
