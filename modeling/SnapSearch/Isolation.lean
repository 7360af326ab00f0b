import SnapSearch.Service

/-!
# What a search depends on

A search sees the database through the statements of the permitted strategies
only.  Two databases that agree on the rows these statements may select give the
same response and the same audit rows, whatever else they hold.

## Main definitions

* `SameView` — two databases agree on what a user is permitted to see.
* `SameButDatabase` — two worlds differ in their databases at most.

## Main results

* `result_eq_of_sameView` — a permitted strategy cannot tell the databases apart.
* `runSearch_eq_of_sameView` — **neither can a search**, in its response or in
  what it records.
-/

namespace SnapSearch

/-! ### The permitted view -/

/-- Two databases agree on what a user is permitted to see: of the reports, their
contents and dates as a multiset; of the entities, those of a searchable type; of
the cases, the user's own. -/
structure SameView (context : AuthContext) (db db' : Database) : Prop where
  server : db.server = db'.server
  reports : "analytics" ∈ context.searchApps →
    (db.analyticsReports.rows.map fun r => (r.content, r.createdAt)).Perm
      (db'.analyticsReports.rows.map fun r => (r.content, r.createdAt))
  entities : "investigator" ∈ context.searchApps → ∀ row : InvestigatorEntity,
    row.type ∈ searchableTypes →
      (row ∈ db.investigatorEntities.rows ↔ row ∈ db'.investigatorEntities.rows)
  cases : "case-manager" ∈ context.searchApps → ∀ row : CaseManagerCase,
    Uuid.pgIn context.userId = some row.assignedTo →
      (row ∈ db.caseManagerCases.rows ↔ row ∈ db'.caseManagerCases.rows)

section View

variable {context : AuthContext} {db db' : Database}

/-- The matching rows of a permitted app are the same. -/
theorem mem_matching_iff_of_sameView (h : SameView context db db') {app : Paginated}
    (happ : (Strategy.listing app).appName ∈ context.searchApps) (query : String)
    (row : app.Row) :
    row ∈ app.matching db query context.userId ↔ row ∈ app.matching db' query context.userId := by
  rw [Paginated.matching, Paginated.matching, ← h.server, List.mem_filter, List.mem_filter,
    and_congr_left_iff]
  -- only a row that satisfies the conditions matters, and those are in both or in neither
  intro hmatch
  cases app with
  | investigator =>
    refine h.entities happ row ?_
    simp only [Paginated.conditions, investigatorConditions, Condition.holdsAll, List.all_cons,
      Bool.and_eq_true] at hmatch
    exact of_decide_eq_true hmatch.1
  | caseManager =>
    refine h.cases happ row ?_
    simp only [Paginated.conditions, caseManagerConditions, Condition.holdsAll, List.all_cons,
      Bool.and_eq_true] at hmatch
    exact of_decide_eq_true hmatch.1

/-- A report matches by its content alone. -/
theorem holdsAll_analyticsStmt (srv : Server) (query : String) (r : AnalyticsReport) :
    Condition.holdsAll srv (analyticsStmt query).conditions r
      = (Condition.ilike Prod.fst (likePattern query)).holds srv (r.content, r.createdAt) := by
  simp only [Condition.holdsAll, analyticsStmt, List.all_cons, List.all_nil, Bool.and_true,
    Condition.holds]

/-- The matching reports have the same labels, up to their order. -/
theorem perm_labels_of_sameView (h : SameView context db db')
    (happ : Strategy.analytics.appName ∈ context.searchApps) (query : String) :
    ((analyticsMatching db query).map fun r => db.server.monthLabel r.createdAt).Perm
      ((analyticsMatching db' query).map fun r => db'.server.monthLabel r.createdAt) := by
  -- a label is made from the content and the date of a report alone
  have hlabels : ∀ rows : List AnalyticsReport,
      (rows.filter (Condition.holdsAll db.server (analyticsStmt query).conditions)).map
          (fun r => db.server.monthLabel r.createdAt)
        = ((rows.map fun r => (r.content, r.createdAt)).filter
            ((Condition.ilike Prod.fst (likePattern query)).holds db.server)).map
              fun p => db.server.monthLabel p.2 := by
    intro rows
    have hfilter : rows.filter (Condition.holdsAll db.server (analyticsStmt query).conditions)
        = rows.filter fun r => (Condition.ilike Prod.fst (likePattern query)).holds db.server
            (r.content, r.createdAt) :=
      List.filter_congr fun r _ => holdsAll_analyticsStmt db.server query r
    rw [hfilter, List.filter_map, List.map_map]
    simp only [Function.comp_def]
  rw [analyticsMatching, analyticsMatching, ← h.server, hlabels, hlabels]
  exact ((h.reports happ).filter _).map _

/-- **A permitted strategy cannot tell the databases apart.** -/
theorem result_eq_of_sameView (h : SameView context db db') {s : Strategy}
    (happ : s.appName ∈ context.searchApps) (faults : Faults) (session : Conn) (query : String)
    (cursor : Option String) (limit : ℕ) :
    s.result faults db session query context.userId cursor limit
      = s.result faults db' session query context.userId cursor limit := by
  cases s with
  | analytics =>
    have hfound : analyticsFound db query = analyticsFound db' query := by
      rw [analyticsFound, analyticsFound, groupCount_perm (perm_labels_of_sameView h happ query)]
    have hof : analyticsOf db query = analyticsOf db' query := by
      rw [analyticsOf, analyticsOf, hfound, h.server]
    simp only [Strategy.result, hof]
  | listing app =>
    have hpage : ∀ u, app.pageOf db query context.userId u limit
        = app.pageOf db' query context.userId u limit := by
      intro u
      -- the tables may store the rows in different orders
      have hremaining := Keyset.remaining_congr (app.nodup_matching db query context.userId)
        (app.nodup_matching db' query context.userId) (mem_matching_iff_of_sameView h happ query) u
      simp only [Paginated.pageOf, h.server, Keyset.page, hremaining]
    simp only [Strategy.result, hpage]

end View

/-! ### Two searches -/

/-- The loops over the permitted apps collect the same. -/
theorem collect_eq_of_sameView {context : AuthContext} {db db' : Database}
    (h : SameView context db db') {r r' : SearchRequest} (hquery : r.query = r'.query)
    (hlimit : r.limit = r'.limit) (faults : Faults) {apps : List String}
    (happs : ∀ app ∈ apps, app ∈ context.searchApps ∧ r.cursorFor app = r'.cursorFor app) :
    collect faults db r context.userId apps = collect faults db' r' context.userId apps := by
  induction apps with
  | nil => rfl
  | cons app apps ih =>
    rw [List.forall_mem_cons] at happs
    rw [collect, collect, ih happs.2]
    -- a permitted app is in the registry
    have hname : ∃ s : Strategy, s.appName = app ∧ strategies.lookup app = some s := by
      have hmem := happs.1.1
      rw [← context.map_appName_strategies, List.mem_map] at hmem
      obtain ⟨s, -, rfl⟩ := hmem
      exact ⟨s, rfl, lookup_strategies s⟩
    obtain ⟨s, rfl, hs⟩ := hname
    simp only [hs, ← happs.1.2, ← hquery, ← hlimit, result_eq_of_sameView h happs.1.1]

/-- What two searches give and hand to the writer is the same. -/
theorem searchOutcome_eq_of_sameView {context : AuthContext} {db db' : Database}
    (h : SameView context db db') {r r' : SearchRequest} (hquery : r.query = r'.query)
    (hlimit : r.limit = r'.limit)
    (hcursors : ∀ app ∈ context.searchApps, r.cursorFor app = r'.cursorFor app)
    (faults : Faults) :
    searchOutcome faults db context r = searchOutcome faults db' context r' := by
  rw [searchOutcome, searchOutcome, hquery,
    collect_eq_of_sameView h hquery hlimit faults fun app happ => ⟨happ, hcursors app happ⟩]

/-- Two worlds that differ in their databases at most, and in whether the search
session has a transaction. -/
def SameButDatabase (w w' : World) : Prop :=
  w'.1 = { w.1 with database := w'.1.database } ∧ w'.2.auditDb = w.2.auditDb

/-- An operation of the audit trail does the same in both. -/
theorem perform_audit_rel {w w' : World} {o : Op} (ho : o.Audit .getAuditDb)
    (h : SameButDatabase w w') (fault : Option Exn) :
    (perform fault w o).1 = (perform fault w' o).1 ∧
      SameButDatabase (perform fault w o).2 (perform fault w' o).2 := by
  obtain ⟨⟨db, log, failures, errors⟩, sessions⟩ := w
  obtain ⟨⟨db', log', failures', errors'⟩, sessions'⟩ := w'
  obtain ⟨hshared, haudit⟩ := h
  simp only [Shared.mk.injEq, true_and] at hshared haudit
  obtain ⟨rfl, rfl, rfl⟩ := hshared
  cases o with
  | addAll c rows =>
    cases ho
    cases fault <;> simp [perform, answer, SameButDatabase, haudit]
  | commit c =>
    cases ho
    cases fault with
    | some e => simp [perform, SameButDatabase, haudit]
    | none =>
      simp only [perform, answer, Sessions.get_auditDb, haudit]
      cases storeAll sessions.auditDb.pending <;> simp [SameButDatabase, haudit]
  | rollback c =>
    cases ho
    cases fault <;> simp [perform, answer, SameButDatabase, haudit]
  | counterAdd amount => cases fault <;> simp [perform, answer, SameButDatabase, haudit]
  | logException message => cases fault <;> simp [perform, answer, SameButDatabase, haudit]
  | _ => exact ho.elim

theorem runWith_write_rel (faults : Faults) {w w' : World} (h : SameButDatabase w w')
    (rows : List SearchAuditLog) :
    SameButDatabase ((write .getAuditDb rows).runWith faults w).2
      ((write .getAuditDb rows).runWith faults w').2 :=
  (Prog.run_rel (R := SameButDatabase) (fun _ _ o ho hw => perform_audit_rel ho hw (faults o))
    (calls_write .getAuditDb rows) h).2

/-- **A search cannot tell two databases apart that agree on the permitted view**:
with the same query, limit and cursors of permitted apps, it ends alike and leaves
the same audit log, counter and error log. -/
theorem runSearch_eq_of_sameView (faults : Faults) (context : AuthContext) (r r' : SearchRequest)
    (hquery : r.query = r'.query) (hlimit : r.limit = r'.limit)
    (hcursors : ∀ app ∈ context.searchApps, r.cursorFor app = r'.cursorFor app)
    (shared : Shared) (db db' : Database) (h : SameView context db db') :
    let run := (runSearch context r .getDb .getAuditDb).runWith faults
      ({ shared with database := db }, {})
    let run' := (runSearch context r' .getDb .getAuditDb).runWith faults
      ({ shared with database := db' }, {})
    run.1 = run'.1 ∧ run'.2.1 = { run.2.1 with database := db' } := by
  intro run run'
  obtain ⟨w₁, hw₁, hrun⟩ := run_runSearch faults ({ shared with database := db }, {})
    context r
  obtain ⟨w₁', hw₁', hrun'⟩ := run_runSearch faults ({ shared with database := db' }, {})
    context r'
  have hdb' : w₁'.1.database = db' := by
    rcases hw₁' with rfl | rfl <;> rfl
  -- the writer starts from the same audit session
  have hsame : SameButDatabase w₁ w₁' := by
    rcases hw₁ with rfl | rfl <;> rcases hw₁' with rfl | rfl <;> exact ⟨rfl, rfl⟩
  have houtcome := searchOutcome_eq_of_sameView h hquery hlimit hcursors faults
  simp only [run, run', hrun, hrun', houtcome, true_and]
  cases (searchOutcome faults db' context r').2 with
  | none => rw [hsame.1, hdb']
  | some rows =>
    obtain ⟨w₂, hwrite, hdatabase, -⟩ := runWith_write faults w₁' .getAuditDb rows
    have hdb₂ : ((write .getAuditDb rows).runWith faults w₁').2.1.database = db' := by
      rw [hwrite]
      exact hdatabase.trans hdb'
    have hrel := (runWith_write_rel faults hsame rows).1
    rw [hdb₂] at hrel
    exact hrel

/-- A user of one app. -/
def AuthContext.investigatorOnly : AuthContext :=
  { AuthContext.small with permissions := ["investigator:search"] }

/-- The small search with a cursor for an app the user may not search. -/
def SearchRequest.strayCursor : SearchRequest :=
  { SearchRequest.small with
    cursors := some [("case-manager", "00000000-0000-0000-0000-000000000004")]
    cursors_ok := checkCursorItems_eq_ok_iff.mpr (by decide +kernel) }

/-- The small database without what the user of one app may not see: no vehicle,
no case and no report. -/
def Database.investigatorView : Database :=
  { Database.small with
    analyticsReports := .empty
    investigatorEntities := ⟨Database.small.investigatorEntities.rows.take 2, by decide⟩
    caseManagerCases := .empty }

theorem sameView_small : SameView .investigatorOnly .small .investigatorView := by
  have happs : AuthContext.investigatorOnly.searchApps = ["investigator"] := by decide
  refine ⟨rfl, ?_, ?_, ?_⟩
  · rw [happs]
    intro h
    exact absurd h (by decide)
  · intro _ row hrow
    refine ⟨?_, List.mem_of_mem_take⟩
    intro h
    -- the third entity is the vehicle
    simp only [Database.small, List.mem_cons, List.not_mem_nil, or_false] at h
    rcases h with rfl | rfl | rfl
    · exact List.mem_cons_self
    · exact List.mem_cons_of_mem _ List.mem_cons_self
    · exact absurd hrow (by decide)
  · rw [happs]
    intro h
    exact absurd h (by decide)

theorem runSearch_eq_of_sameView_small :
    let shared : Shared := { database := .small }
    let run := (runSearch .investigatorOnly .small .getDb .getAuditDb).runWith noFaults
      ({ shared with database := .small }, {})
    let run' := (runSearch .investigatorOnly .strayCursor .getDb .getAuditDb).runWith noFaults
      ({ shared with database := .investigatorView }, {})
    run.1 = run'.1 ∧ run'.2.1 = { run.2.1 with database := .investigatorView } := by
  have happs : AuthContext.investigatorOnly.searchApps = ["investigator"] := by decide
  refine runSearch_eq_of_sameView noFaults .investigatorOnly .small .strayCursor rfl rfl ?_ _
    .small .investigatorView sameView_small
  rw [happs]
  decide

end SnapSearch
