import SnapSearch.Lib.Keyset
import SnapSearch.Schemas
import SnapSearch.Session

/-!
# The strategies

One strategy per application (`app/services/search`): it builds a statement, runs
it in the session it is given, and makes a section of what comes back.  The two
that list rows differ in their conditions only.

## Main definitions

* `pagedSearch` — the body the listing strategies share.
* `investigatorSearch`, `caseManagerSearch`, `analyticsSearch` — the strategies.
* `Strategy`, `strategies` — the registry.
* `Paginated.pageOf`, `analyticsOf` — what a strategy returns, as a function of
  the database.

## Main results

* `Paginated.run_search` — **a listing strategy returns a keyset page.**
* `Strategy.run_search` — what the run of a strategy gives and what it leaves.
-/

namespace SnapSearch

/-! ### Listing rows -/

/-- `UUID(cursor)`, where there is a cursor. -/
def cursorId : Option String → Except Exn (Option Uuid)
  | none => .ok none
  | some cursor =>
      match Uuid.parse cursor with
      | none => .error .valueError
      | some u => .ok (some u)

/-- The statement of a listing strategy.  The condition of the cursor is added
after the limit. -/
def pagedStmt (app : Paginated) (conditions : List (Condition app.Row)) (limit : ℕ)
    (cursor : Option Uuid) : Select app.Row :=
  -- clauses may come in any order: the cursor narrows the rows before they are cut
  let stmt := ((({} : Select app.Row).whereAll conditions).orderBy app.id).limit (limit + 1)
  match cursor with
  | none => stmt
  | some u => stmt.whereAll [.uuidGt app.id u]

/-- `str(items[-1].id) if len(rows) > limit else None`. -/
def nextCursorOf (app : Paginated) (rows : List app.Row) (items : List app.Item) (limit : ℕ) :
    Except Exn (Option String) :=
  if limit < rows.length then
    match items.getLast? with
    | none => .error (.indexError "list index out of range")
    | some item => .ok (some (app.itemId item).str)
  else .ok none

/-- The body that `InvestigatorStrategy.search` and `CaseManagerStrategy.search`
share. -/
def pagedSearch (app : Paginated) (conditions : List (Condition app.Row)) (session : Conn)
    (cursor : Option String) (limit : ℕ) : Py (ListSection app.Item × ℕ) := do
  let cursor ← .ofExcept (cursorId cursor)
  let rows ← selectRows app session (pagedStmt app conditions limit cursor)
  let items := (rows.take limit).map app.itemOfRow
  let nextCursor ← .ofExcept (nextCursorOf app rows items limit)
  return ({ items, nextCursor }, items.length)

/-- The entity types a search may return. -/
def searchableTypes : List String := ["pessoa", "empresa", "transacao", "documento"]

/-- The conditions of `InvestigatorStrategy.search`. -/
def investigatorConditions (query : String) : List (Condition InvestigatorEntity) :=
  [.isIn InvestigatorEntity.type searchableTypes,
   .ilike InvestigatorEntity.name (likePattern query)]

/-- The conditions of `CaseManagerStrategy.search`: only the user's own cases. -/
def caseManagerConditions (query userId : String) : List (Condition CaseManagerCase) :=
  [.uuidEq CaseManagerCase.assignedTo userId,
   .ilike CaseManagerCase.title (likePattern query)]

/-- `InvestigatorStrategy.search`. -/
def investigatorSearch (session : Conn) (query _userId : String) (cursor : Option String)
    (limit : ℕ) : Py (InvestigatorSection × ℕ) :=
  pagedSearch .investigator (investigatorConditions query) session cursor limit

/-- `CaseManagerStrategy.search`. -/
def caseManagerSearch (session : Conn) (query userId : String) (cursor : Option String)
    (limit : ℕ) : Py (CaseManagerSection × ℕ) :=
  pagedSearch .caseManager (caseManagerConditions query userId) session cursor limit

/-! ### Counting -/

/-- The statement of `AnalyticsStrategy.search`. -/
def analyticsStmt (query : String) : CountByMonth AnalyticsReport :=
  { conditions := [.ilike AnalyticsReport.content (likePattern query)]
    column := AnalyticsReport.createdAt }

/-- The section made of the counted rows, and its total. -/
def analyticsSectionOf (rows : List (String × ℕ)) : AnalyticsSection × ℕ :=
  -- the total is summed over the dictionary, not counted by the database
  let byMonth := dictOf rows
  let total := (byMonth.map Prod.snd).sum
  ({ totalMatched := total, byMonth }, total)

/-- `AnalyticsStrategy.search`. -/
def analyticsSearch (session : Conn) (query _userId : String) (cursor : Option String)
    (_limit : ℕ) : Py (AnalyticsSection × ℕ) :=
  match cursor with
  | some _ =>
      throw (.assertionError "analytics is not paginated; the schema validator must reject this")
  | none => do
      let rows ← selectReports session (analyticsStmt query)
      return analyticsSectionOf rows

/-! ### The registry -/

/-- The strategies behind the one `search` signature. -/
inductive Strategy
  | analytics
  | listing (app : Paginated)
  deriving DecidableEq

/-- `app_name`. -/
def Strategy.appName : Strategy → String
  | analytics => "analytics"
  | listing .investigator => "investigator"
  | listing .caseManager => "case-manager"

/-- The conditions of a listing app. -/
def Paginated.conditions (query userId : String) : (app : Paginated) → List (Condition app.Row)
  | investigator => investigatorConditions query
  | caseManager => caseManagerConditions query userId

/-- The search of a listing app. -/
def Paginated.search (session : Conn) (query userId : String) (cursor : Option String) (limit : ℕ) :
    (app : Paginated) → Py (ListSection app.Item × ℕ)
  | investigator => investigatorSearch session query userId cursor limit
  | caseManager => caseManagerSearch session query userId cursor limit

/-- `strategy.search(…)`. -/
def Strategy.search (session : Conn) (query userId : String) (cursor : Option String) (limit : ℕ) :
    Strategy → Py (AppSection × ℕ)
  | analytics => do
      let (s, count) ← analyticsSearch session query userId cursor limit
      return (.analytics s, count)
  | listing app => do
      let (s, count) ← app.search session query userId cursor limit
      return (app.toSection s, count)

/-- One of each, in the order of the registry. -/
def Strategy.all : List Strategy := [.analytics, .listing .investigator, .listing .caseManager]

/-- `_STRATEGIES`. -/
def strategies : List (String × Strategy) :=
  dictOf (Strategy.all.map fun strategy => (strategy.appName, strategy))

theorem Strategy.mem_all (strategy : Strategy) : strategy ∈ all := by
  rcases strategy with _ | app
  · decide
  · cases app <;> decide

theorem Strategy.appName_injective : Function.Injective appName := by
  have h : ∀ s ∈ all, ∀ s' ∈ all, s.appName = s'.appName → s = s' := by decide
  intro s s' hname
  exact h s s.mem_all s' s'.mem_all hname

/-- The apps that list rows are the ones a cursor may name. -/
theorem Paginated.appName_mem_paginatedApps (app : Paginated) :
    (Strategy.listing app).appName ∈ paginatedApps := by
  cases app <;> decide

/-- The analytics app has no cursor. -/
theorem SearchRequest.cursorFor_analytics (request : SearchRequest) :
    request.cursorFor Strategy.analytics.appName = none :=
  cursorFor_eq_none (by decide)

/-- **Every app has its strategy.** -/
theorem lookup_strategies (strategy : Strategy) :
    strategies.lookup strategy.appName = some strategy := by
  have h : ∀ s ∈ Strategy.all, strategies.lookup s.appName = some s := by decide
  exact h strategy strategy.mem_all

theorem eq_appName_of_lookup_strategies {app : String} {strategy : Strategy}
    (h : strategies.lookup app = some strategy) : app = strategy.appName := by
  have hall : ∀ item ∈ strategies, item.1 = item.2.appName := by decide
  exact hall _ (mem_of_lookup_eq_some h)

theorem map_appName_all : Strategy.all.map Strategy.appName = appNames := rfl

/-! ### What a listing strategy returns -/

namespace Paginated

variable (app : Paginated)

/-- The rows that satisfy the `WHERE` clause of an app's search. -/
def matching (db : Database) (query userId : String) : List app.Row :=
  (db.table app).rows.filter (Condition.holdsAll db.server (app.conditions query userId))

theorem nodup_matching (db : Database) (query userId : String) :
    ((app.matching db query userId).map app.id).Nodup :=
  (db.table app).nodup.sublist (List.filter_sublist.map _)

/-- The values the database accepts in an app's search: a text that the driver
can send and, for the user's own cases, a UUID. -/
def Accepts (query userId : String) : Prop :=
  Storable query ∧ (app = .caseManager → (Uuid.pgIn userId).isSome)

instance (query userId : String) : Decidable (app.Accepts query userId) :=
  inferInstanceAs (Decidable (_ ∧ _))

theorem checkAll_conditions_eq_ok_iff (srv : Server) {query userId : String} :
    Condition.checkAll srv (app.conditions query userId) = .ok () ↔ app.Accepts query userId := by
  -- the types are constants, so only the client's values can be refused
  have htypes : ∀ value ∈ searchableTypes, Storable value := by decide
  rw [Condition.checkAll_eq_ok_iff, Accepts]
  cases app with
  | investigator =>
    have hin : (Condition.isIn InvestigatorEntity.type searchableTypes).check srv = .ok () := by
      rw [Condition.check, if_pos htypes]
    by_cases hq : Storable query <;>
      simp [conditions, investigatorConditions, hin, Condition.check_ilike_likePattern, hq]
  | caseManager =>
    by_cases hq : Storable query <;>
      simp [conditions, caseManagerConditions, Condition.check_uuidEq_eq_ok_iff,
        Condition.check_ilike_likePattern, hq]

/-- The section of a page. -/
def sectionOf (page : Keyset.Page app.Row Uuid) : ListSection app.Item :=
  { items := page.items.map app.itemOfRow, nextCursor := page.next.map Uuid.str }

/-- What a listing strategy returns on a database: a page of the matching rows,
and how many items it has. -/
def pageOf (db : Database) (query userId : String) (cursor : Option Uuid) (limit : ℕ) :
    Except Exn (ListSection app.Item × ℕ) :=
  (Condition.checkAll db.server (app.conditions query userId)).map fun _ =>
    let s := app.sectionOf (Keyset.page app.id (app.matching db query userId) cursor limit)
    (s, s.items.length)

variable {app}

theorem pageOf_eq_ok_iff (db : Database) {query userId : String} (cursor : Option Uuid) (limit : ℕ)
    {found : ListSection app.Item × ℕ} :
    app.pageOf db query userId cursor limit = .ok found ↔ app.Accepts query userId ∧ found =
      let s := app.sectionOf (Keyset.page app.id (app.matching db query userId) cursor limit)
      (s, s.items.length) := by
  rw [pageOf, ← app.checkAll_conditions_eq_ok_iff db.server]
  cases Condition.checkAll db.server (app.conditions query userId) with
  | error e => simp [Except.map]
  | ok v => simp [Except.map, eq_comm]

/-- The cursor of a page is bound as a UUID, which is never refused. -/
theorem checkAll_pagedStmt (srv : Server) (conditions : List (Condition app.Row)) (limit : ℕ)
    (cursor : Option Uuid) :
    Condition.checkAll srv (pagedStmt app conditions limit cursor).conditions
      = Condition.checkAll srv conditions := by
  cases cursor with
  | none => simp [pagedStmt, Select.whereAll, Select.orderBy, Select.limit]
  | some u =>
    have hcheck : ∀ d ∈ [Condition.uuidGt app.id u], d.check srv = .ok () := by
      simp [Condition.check]
    simp [pagedStmt, Select.whereAll, Select.orderBy, Select.limit,
      Condition.checkAll_append hcheck]

/-- The statement looks up one row more than the limit, after the cursor. -/
theorem execute_pagedStmt (srv : Server) (conditions : List (Condition app.Row)) (limit : ℕ)
    (cursor : Option Uuid) (rows : List app.Row) :
    (pagedStmt app conditions limit cursor).execute srv rows =
      (Condition.checkAll srv conditions).map fun _ =>
        (Keyset.remaining app.id (rows.filter (Condition.holdsAll srv conditions)) cursor).take
          (limit + 1) := by
  rw [Select.execute, checkAll_pagedStmt]
  cases cursor with
  | none => simp [pagedStmt, Select.whereAll, Select.orderBy, Select.limit, Keyset.remaining]
  | some u =>
    -- filtering by both conditions is filtering twice
    have hfilter :
        (rows.filter fun r => Condition.holdsAll srv (conditions ++ [.uuidGt app.id u]) r)
        = (rows.filter (Condition.holdsAll srv conditions)).filter fun r => u < app.id r := by
      rw [List.filter_filter]
      apply List.filter_congr
      intro r _
      simp [Condition.holdsAll, Condition.holds, Bool.and_comm]
    simp [pagedStmt, Select.whereAll, Select.orderBy, Select.limit, hfilter, Keyset.remaining]

/-- The next cursor is the one of the keyset page. -/
theorem nextCursorOf_eq {rows : List app.Row} {cursor : Option Uuid} {limit : ℕ}
    (hlimit : 1 ≤ limit) :
    nextCursorOf app ((Keyset.remaining app.id rows cursor).take (limit + 1))
      ((((Keyset.remaining app.id rows cursor).take (limit + 1)).take limit).map app.itemOfRow)
      limit = .ok ((Keyset.page app.id rows cursor limit).next.map Uuid.str) := by
  have hlen : limit < ((Keyset.remaining app.id rows cursor).take (limit + 1)).length ↔
      limit < (Keyset.remaining app.id rows cursor).length := by
    rw [List.length_take]
    omega
  rw [nextCursorOf, Keyset.page_next]
  simp only [hlen, List.take_take, Nat.min_eq_left (Nat.le_succ limit), List.getLast?_map]
  split
  · next hlt =>
    -- at least one item was kept, so the last one exists
    have hne : (Keyset.remaining app.id rows cursor).take limit ≠ [] := by
      rw [← List.length_pos_iff_ne_nil, List.length_take]
      omega
    rw [List.getLast?_eq_some_getLast hne]
    simp
  · rfl

variable (faults : Faults) (w : World)

theorem search_eq (session : Conn) (query userId : String) (cursor : Option String) (limit : ℕ) :
    app.search session query userId cursor limit
      = pagedSearch app (app.conditions query userId) session cursor limit := by
  cases app <;> rfl

/-- **A listing strategy returns a keyset page** of the matching rows, unless its
cursor is no UUID or its statement fails. -/
theorem run_search (app : Paginated) (session : Conn) (query userId : String)
    (cursor : Option String) {limit : ℕ} (hlimit : 1 ≤ limit) :
    (app.search session query userId cursor limit).runWith faults w =
      match cursorId cursor with
      | .error e => (.error e, w)
      | .ok u =>
          match faults (.selectRows app session
            (pagedStmt app (app.conditions query userId) limit u)) with
          | some e => (.error e, w)
          | none => (app.pageOf w.1.database query userId u limit, w.begin session) := by
  rw [search_eq, pagedSearch]
  simp only [Prog.bind_eq]
  cases hc : cursorId cursor with
  | error e => rfl
  | ok u =>
    simp only [Prog.ofExcept_ok, Prog.bind]
    have hsel := Py.runWith_selectRows faults w app session
      (pagedStmt app (app.conditions query userId) limit u)
    cases hf : faults (.selectRows app session
      (pagedStmt app (app.conditions query userId) limit u)) with
    | some e =>
      rw [hf] at hsel
      exact Py.runWith_bind_of_error hsel
    | none =>
      rw [hf] at hsel
      simp only [execute_pagedStmt] at hsel
      unfold pageOf
      cases hcheck : Condition.checkAll w.1.database.server (app.conditions query userId) with
      | error e =>
        rw [hcheck] at hsel
        exact Py.runWith_bind_of_error hsel
      | ok v =>
        rw [hcheck] at hsel
        rw [Py.runWith_bind_of_ok hsel, nextCursorOf_eq hlimit]
        simp [sectionOf, Keyset.page_items, matching, List.take_take, Prog.bind, Except.map]

end Paginated

/-! ### What a strategy returns -/

/-- The reports whose content matches. -/
def analyticsMatching (db : Database) (query : String) : List AnalyticsReport :=
  db.analyticsReports.rows.filter
    (Condition.holdsAll db.server (analyticsStmt query).conditions)

/-- The section of the matching reports, and their number. -/
def analyticsFound (db : Database) (query : String) : AnalyticsSection × ℕ :=
  analyticsSectionOf
    (groupCount ((analyticsMatching db query).map fun r => db.server.monthLabel r.createdAt))

/-- What the analytics strategy returns on a database. -/
def analyticsOf (db : Database) (query : String) : Except Exn (AnalyticsSection × ℕ) :=
  (Condition.checkAll db.server (analyticsStmt query).conditions).map fun _ =>
    analyticsFound db query

theorem checkAll_analyticsStmt_eq_ok_iff (srv : Server) {query : String} :
    Condition.checkAll srv (analyticsStmt query).conditions = .ok () ↔ Storable query := by
  rw [Condition.checkAll_eq_ok_iff]
  by_cases hq : Storable query <;>
    simp [analyticsStmt, Condition.check_ilike_likePattern, hq]

theorem analyticsOf_eq_ok_iff (db : Database) {query : String} {found : AnalyticsSection × ℕ} :
    analyticsOf db query = .ok found ↔ Storable query ∧ found = analyticsFound db query := by
  rw [analyticsOf, ← checkAll_analyticsStmt_eq_ok_iff db.server]
  cases Condition.checkAll db.server (analyticsStmt query).conditions with
  | error e => simp [Except.map]
  | ok v => simp [Except.map, eq_comm]

/-- What a strategy gives on a database, with the failures it meets there. -/
def Strategy.result (faults : Faults) (db : Database) (session : Conn) (query userId : String)
    (cursor : Option String) (limit : ℕ) : Strategy → Except Exn (AppSection × ℕ)
  | analytics =>
      match cursor with
      | some _ => .error
          (.assertionError "analytics is not paginated; the schema validator must reject this")
      | none =>
          match faults (.selectReports session (analyticsStmt query)) with
          | some e => .error e
          | none => (analyticsOf db query).map fun r => (.analytics r.1, r.2)
  | listing app =>
      match cursorId cursor with
      | .error e => .error e
      | .ok u =>
          match faults (.selectRows app session
            (pagedStmt app (app.conditions query userId) limit u)) with
          | some e => .error e
          | none => (app.pageOf db query userId u limit).map fun r => (app.toSection r.1, r.2)

section Runs

variable (faults : Faults) (w : World)

theorem run_analyticsSearch (session : Conn) (query userId : String) (cursor : Option String)
    (limit : ℕ) :
    (analyticsSearch session query userId cursor limit).runWith faults w =
      match cursor with
      | some _ => (.error
          (.assertionError "analytics is not paginated; the schema validator must reject this"), w)
      | none =>
          match faults (.selectReports session (analyticsStmt query)) with
          | some e => (.error e, w)
          | none => (analyticsOf w.1.database query, w.begin session) := by
  cases cursor with
  | some c => rfl
  | none =>
    have hsel := Py.runWith_selectReports faults w session (analyticsStmt query)
    simp only [analyticsSearch, Prog.bind_eq]
    cases hf : faults (.selectReports session (analyticsStmt query)) with
    | some e =>
      rw [hf] at hsel
      exact Py.runWith_bind_of_error hsel
    | none =>
      rw [hf] at hsel
      -- what the statement returns, made into a section
      have hmap : ((analyticsStmt query).execute w.1.database.server
          w.1.database.analyticsReports.rows).map analyticsSectionOf
          = analyticsOf w.1.database query := by
        rw [CountByMonth.execute, analyticsOf]
        cases Condition.checkAll w.1.database.server (analyticsStmt query).conditions <;> rfl
      rw [← hmap]
      exact Py.runWith_bind_pure hsel

/-- The run of a strategy gives its result, and opens a transaction at most. -/
theorem Strategy.run_search (strategy : Strategy) (session : Conn) (query userId : String)
    (cursor : Option String) {limit : ℕ} (hlimit : 1 ≤ limit) :
    ∃ w', (strategy.search session query userId cursor limit).runWith faults w =
        (strategy.result faults w.1.database session query userId cursor limit, w') ∧
      (w' = w ∨ w' = w.begin session) := by
  cases strategy with
  | analytics =>
    have h := run_analyticsSearch faults w session query userId cursor limit
    simp only [search, result, Prog.bind_eq]
    split at h
    · exact ⟨w, Py.runWith_bind_pure h, Or.inl rfl⟩
    · split at h
      · exact ⟨w, Py.runWith_bind_pure h, Or.inl rfl⟩
      · exact ⟨w.begin session, Py.runWith_bind_pure h, Or.inr rfl⟩
  | listing app =>
    have h := app.run_search faults w session query userId cursor hlimit
    simp only [search, result, Prog.bind_eq]
    split at h
    · exact ⟨w, Py.runWith_bind_pure h, Or.inl rfl⟩
    · split at h
      · exact ⟨w, Py.runWith_bind_pure h, Or.inl rfl⟩
      · exact ⟨w.begin session, Py.runWith_bind_pure h, Or.inr rfl⟩

end Runs

/-! ### Accepted values -/

/-- The values that a strategy binds are taken. -/
def Strategy.Accepts (query userId : String) (strategy : Strategy) : Prop :=
  Storable query ∧ ∀ app, strategy = .listing app → app.Accepts query userId

/-- What a strategy finds on a database that accepts its values. -/
def Strategy.found (db : Database) (query userId : String) (cursor : Paginated → Option Uuid)
    (limit : ℕ) : Strategy → AppSection × ℕ
  | analytics => (.analytics (analyticsFound db query).1, (analyticsFound db query).2)
  | listing app =>
      let s := app.sectionOf
        (Keyset.page app.id (app.matching db query userId) (cursor app) limit)
      (app.toSection s, s.items.length)

/-- The cursor text of a strategy: none for the one that does not list rows. -/
def Strategy.cursorText (cursor : Paginated → Option Uuid) : Strategy → Option String
  | analytics => none
  | listing app => (cursor app).map Uuid.str

theorem cursorId_map_str (cursor : Option Uuid) : cursorId (cursor.map Uuid.str) = .ok cursor := by
  cases cursor with
  | none => rfl
  | some u => simp [cursorId]

/-- On accepted values a strategy gives what it finds. -/
theorem Strategy.result_of_accepts (strategy : Strategy) {db : Database} {session : Conn}
    {query userId : String} (hquery : Storable query)
    (haccepts : ∀ app, strategy = .listing app → app.Accepts query userId)
    (cursor : Paginated → Option Uuid) (limit : ℕ) :
    strategy.result noFaults db session query userId (strategy.cursorText cursor) limit =
      .ok (strategy.found db query userId cursor limit) := by
  cases strategy with
  | analytics =>
    have h := (analyticsOf_eq_ok_iff db).mpr ⟨hquery, rfl⟩
    simp [result, cursorText, noFaults, h, found, Except.map]
  | listing app =>
    have h := (app.pageOf_eq_ok_iff db (cursor app) limit).mpr ⟨haccepts app rfl, rfl⟩
    simp [result, cursorText, cursorId_map_str, noFaults, h, found, Except.map]

/-- The total of the analytics section is the number of matching reports. -/
theorem analyticsFound_snd (db : Database) (query : String) :
    (analyticsFound db query).2 = (analyticsMatching db query).length := by
  rw [analyticsFound, analyticsSectionOf, dictOf_of_nodup (nodup_groupCount _), sum_groupCount,
    List.length_map]

/-- What a strategy gives on a healthy database is what it finds from some cursor. -/
theorem Strategy.exists_eq_found {strategy : Strategy} {db : Database} {session : Conn}
    {query userId : String} {cursor : Option String} {limit : ℕ} {found : AppSection × ℕ}
    (h : strategy.result noFaults db session query userId cursor limit = .ok found) :
    ∃ cursors, found = strategy.found db query userId cursors limit := by
  cases strategy with
  | analytics =>
    simp only [result, noFaults] at h
    split at h
    · cases h
    · cases hof : analyticsOf db query with
      | error e =>
        rw [hof] at h
        cases h
      | ok v =>
        rw [hof] at h
        cases h
        obtain ⟨-, rfl⟩ := (analyticsOf_eq_ok_iff db).mp hof
        exact ⟨fun _ => none, rfl⟩
  | listing app =>
    simp only [result, noFaults] at h
    split at h
    · cases h
    · next u _ =>
      cases hof : app.pageOf db query userId u limit with
      | error e =>
        rw [hof] at h
        cases h
      | ok v =>
        rw [hof] at h
        cases h
        obtain ⟨-, rfl⟩ := (app.pageOf_eq_ok_iff db u limit).mp hof
        exact ⟨fun _ => u, rfl⟩

/-- What a result on a healthy database says about its values. -/
theorem Strategy.of_result_eq_ok {strategy : Strategy} {db : Database} {session : Conn}
    {query userId : String} {cursor : Option String} {limit : ℕ} {found : AppSection × ℕ}
    (h : strategy.result noFaults db session query userId cursor limit = .ok found) :
    strategy.Accepts query userId ∧
      match strategy with
      | analytics => found.2 = (analyticsMatching db query).length
      | listing _ => found.2 ≤ limit := by
  cases strategy with
  | analytics =>
    simp only [result, noFaults] at h
    split at h
    · cases h
    · cases hof : analyticsOf db query with
      | error e =>
        rw [hof] at h
        cases h
      | ok v =>
        rw [hof] at h
        cases h
        obtain ⟨hquery, rfl⟩ := (analyticsOf_eq_ok_iff db).mp hof
        exact ⟨⟨hquery, nofun⟩, analyticsFound_snd db query⟩
  | listing app =>
    simp only [result, noFaults] at h
    split at h
    · cases h
    · next u hcursor =>
      cases hof : app.pageOf db query userId u limit with
      | error e =>
        rw [hof] at h
        cases h
      | ok v =>
        rw [hof] at h
        cases h
        obtain ⟨haccepts, rfl⟩ := (Paginated.pageOf_eq_ok_iff db u limit).mp hof
        refine ⟨⟨haccepts.1, ?_⟩, ?_⟩
        · rintro _ ⟨⟩
          exact haccepts
        · simp only [Paginated.sectionOf, List.length_map, Keyset.page_items, List.length_take]
          omega

/-! ### What a strategy calls, and what it counts -/

/-- The statements run in a session. -/
def Op.Reads (session : Conn) : Op → Prop
  | .selectReports c _ => c = session
  | .selectRows _ c _ => c = session
  | _ => False

/-- A strategy reads in the session it is given, and calls nothing else. -/
theorem Strategy.calls_search (strategy : Strategy) (session : Conn) (query userId : String)
    (cursor : Option String) (limit : ℕ) :
    (strategy.search session query userId cursor limit).Calls (Op.Reads session) := by
  cases strategy with
  | analytics =>
    refine Prog.calls_bind ?_ fun _ => trivial
    cases cursor with
    | none =>
      refine Prog.calls_bind (Prog.calls_perform rfl) ?_
      intro rows
      trivial
    | some c => trivial
  | listing app =>
    refine Prog.calls_bind ?_ fun _ => trivial
    rw [Paginated.search_eq]
    apply Prog.calls_bind (Prog.calls_ofExcept _)
    intro u
    refine Prog.calls_bind (Prog.calls_perform rfl) ?_
    intro rows
    apply Prog.calls_bind (Prog.calls_ofExcept _)
    intro nextCursor
    trivial

/-- How the search of a strategy may end. -/
def Counted : Except Exn (AppSection × ℕ) → Prop
  | .ok found => found.2 = found.1.resultsCount
  | .error e => e.Internal

theorem counted_toSection (app : Paginated) (s : ListSection app.Item) :
    Counted (.ok (app.toSection s, s.items.length)) := (app.resultsCount_toSection s).symm

/-- **The count of a strategy is what its section reports**, whatever the database
answers, and its exceptions come from below. -/
theorem Strategy.ends_search (strategy : Strategy) (session : Conn) (query userId : String)
    (cursor : Option String) (limit : ℕ) :
    (strategy.search session query userId cursor limit).Ends Op.MayAnswer Counted := by
  cases strategy with
  | analytics =>
    refine Prog.ends_bind ?_
    cases cursor with
    | some c => trivial
    | none =>
      apply Prog.ends_bind
      apply Prog.ends_perform.mono
      intro r hr
      cases r with
      | error e => exact hr e rfl
      | ok rows => rfl
  | listing app =>
    apply Prog.ends_bind
    rw [Paginated.search_eq]
    apply Prog.ends_bind
    apply Prog.ends_ofExcept
    cases hcursor : cursorId cursor with
    | error e =>
      unfold cursorId at hcursor
      split at hcursor
      · cases hcursor
      · split at hcursor <;> cases hcursor
        trivial
    | ok u =>
      apply Prog.ends_bind
      apply Prog.ends_perform.mono
      intro r hr
      cases r with
      | error e => exact hr e rfl
      | ok rows =>
        apply Prog.ends_bind
        apply Prog.ends_ofExcept
        cases hnext : nextCursorOf app rows (List.map app.itemOfRow (List.take limit rows))
          limit with
        | error e =>
          unfold nextCursorOf at hnext
          split at hnext
          · split at hnext <;> cases hnext
            trivial
          · cases hnext
        | ok next => exact counted_toSection app ⟨_, next⟩

end SnapSearch
