import SnapSearch.Service

/-!
# The audit trail next to the search

The audit rows of a search are written before the search is answered, in a
session of their own.  Whatever fails there does not change the answer; and on a
healthy database the rows are lost for their values only.

## Main definitions

* `Faults.withoutAudit` — the same failures, none of them in the audit trail.
* `auditRows` — the rows that belong to an outcome.
* `Recorded`, `CountedAsLost` — what may have become of them.

## Main results

* `runSearch_withoutAudit` — **failures of the audit trail change nothing but the
  trail.**
* `recorded_iff` — **which rows a healthy database takes**; the others are counted
  as lost.
-/

namespace SnapSearch

/-! ### Failures of the audit trail -/

/-- The same failures, without those of the audit trail. -/
def Faults.withoutAudit (faults : Faults) : Faults
  | .selectReports c stmt => faults (.selectReports c stmt)
  | .selectRows app c stmt => faults (.selectRows app c stmt)
  | _ => none

section Failures

variable (faults : Faults) (w : World)

/-- The loop meets none of the failures of the audit trail. -/
theorem run_searchLoop_withoutAudit (request : SearchRequest) (userId : String)
    (apps : List String) (results : List (String × AppSection)) (counts : List (String × ℕ)) :
    (searchLoop .getDb request userId apps results counts).runWith faults w
      = (searchLoop .getDb request userId apps results counts).runWith faults.withoutAudit w := by
  have hstep : ∀ (s t : World) (o : Op), o.Reads .getDb → s = t →
      (perform (faults o) s o).1 = (perform (faults.withoutAudit o) t o).1 ∧
        (perform (faults o) s o).2 = (perform (faults.withoutAudit o) t o).2 := by
    rintro s _ o ho rfl
    cases o with
    | selectReports c stmt => exact ⟨rfl, rfl⟩
    | selectRows app c stmt => exact ⟨rfl, rfl⟩
    | _ => exact ho.elim
  have h := Prog.run_rel (R := Eq) hstep
    (calls_searchLoop .getDb request userId apps results counts) (rfl : w = w)
  exact Prod.ext h.1 h.2

/-- **Failures of the audit trail change nothing but the trail**: the recorders
never raise, whatever their operations answer; the search ends as it would
without these failures, with the 403 where no app is permitted; and neither the
database nor the search session shows them. -/
theorem runSearch_withoutAudit (context : AuthContext) (request : SearchRequest) :
    (∀ (may : (o : Op) → Except Exn (Res o) → Prop) (session : Conn) (query : String)
        (resultsPerApp : List (String × ℕ)) (rows : List SearchAuditLog),
      (recordSearchOk session context query resultsPerApp).Ends may (· = .ok ()) ∧
        (recordSearchDenied session context query).Ends may (· = .ok ()) ∧
        (write session rows).Ends may (· = .ok ())) ∧
    let run := (runSearch context request .getDb .getAuditDb).runWith faults w
    let run' := (runSearch context request .getDb .getAuditDb).runWith faults.withoutAudit w
    run.1 = run'.1 ∧ (context.searchApps = [] → run.1 = .error searchDenied) ∧
      run.2.1.database = w.1.database ∧ run'.2.1.database = w.1.database ∧
      run.2.2.db = run'.2.2.db := by
  refine ⟨fun _ session _ _ _ => ⟨ends_write session _, ends_write session _,
    ends_write session _⟩, ?_⟩
  rw [runSearch]
  split
  · next happs =>
    obtain ⟨w₁, h₁, hdb₁, hget₁⟩ := runWith_write faults w .getAuditDb
      (deniedRows context request.query)
    obtain ⟨w₂, h₂, hdb₂, hget₂⟩ := runWith_write faults.withoutAudit w
      .getAuditDb (deniedRows context request.query)
    simp only [Prog.bind_eq, recordSearchDenied, Py.runWith_bind_of_ok h₁,
      Py.runWith_bind_of_ok h₂]
    exact ⟨rfl, fun _ => rfl, hdb₁, hdb₂,
      (hget₁ .getDb (by decide)).trans (hget₂ .getDb (by decide)).symm⟩
  · next happs =>
    simp only [happs, false_implies, true_and, Prog.bind_eq]
    -- the loop runs the same, so the writers start from the same world
    have hloop := run_searchLoop_withoutAudit faults w request context.userId context.searchApps
      [] []
    obtain ⟨w₁, hrun, hw₁⟩ := run_searchLoop_start faults w context request
    have hdb : w₁.1.database = w.1.database := by
      rcases hw₁ with rfl | rfl <;> rfl
    rw [hrun] at hloop
    cases hc : collect faults w.1.database request context.userId context.searchApps with
    | error e =>
      rw [hc] at hrun hloop
      rw [Py.runWith_bind_of_error hrun, Py.runWith_bind_of_error hloop.symm]
      exact ⟨rfl, hdb, hdb, rfl⟩
    | ok found =>
      rw [hc] at hrun hloop
      obtain ⟨w₂, h₂, hdb₂, hget₂⟩ := runWith_write faults w₁ .getAuditDb
        (okRows context request.query (countsOf found))
      obtain ⟨w₃, h₃, hdb₃, hget₃⟩ := runWith_write faults.withoutAudit w₁
        .getAuditDb (okRows context request.query (countsOf found))
      rw [Py.runWith_bind_of_ok hrun, Py.runWith_bind_of_ok hloop.symm]
      simp only [recordSearchOk, Py.runWith_bind_of_ok h₂, Py.runWith_bind_of_ok h₃]
      exact ⟨rfl, hdb₂.trans hdb, hdb₃.trans hdb,
        (hget₂ .getDb (by decide)).trans (hget₃ .getDb (by decide)).symm⟩

end Failures

/-! ### The rows of an outcome -/

/-- The rows that belong to an outcome: one for each section of a response, one
for a 403, none for a strategy's exception. -/
def auditRows (context : AuthContext) (request : SearchRequest) :
    Except Exn SearchResponse → Option (List SearchAuditLog)
  | .ok response => some (okBatch context response)
  | .error _ => if context.searchApps = [] then some (deniedRows context request.query) else none

/-- The writer is handed the rows of the outcome. -/
theorem searchOutcome_snd {faults : Faults} (hfaults : ∀ o, ∀ e ∈ faults o, e.Internal)
    (db : Database) (context : AuthContext) (request : SearchRequest) :
    (searchOutcome faults db context request).2
      = auditRows context request (searchOutcome faults db context request).1 := by
  unfold searchOutcome
  split
  · next happs => rw [auditRows, if_pos happs]
  · next happs =>
    cases hc : collect faults db request context.userId context.searchApps with
    | error e => simp only [auditRows, if_neg happs]
    | ok found =>
      simp only [auditRows, ← okRows_eq_okBatch (tallied_of_collect hfaults hc)]

/-! ### A healthy database -/

/-- The rows have been committed. -/
def Recorded (before after : Shared) (rows : List SearchAuditLog) : Prop :=
  ∃ stored, storeAll rows = .ok stored ∧
    after.searchAuditLog = before.searchAuditLog ++ stored

/-- No row has been committed, and the failure is logged and counted. -/
def CountedAsLost (before after : Shared) : Prop :=
  after.searchAuditLog = before.searchAuditLog ∧
    after.auditWriteFailures = before.auditWriteFailures + 1 ∧
    after.errorLog = before.errorLog ++ [auditWriteFailed]

/-- The values that the columns take: the subject is a UUID, the query has no
U+0000, and the number of matching reports fits an `integer`. -/
def Recordable (db : Database) (context : AuthContext) (request : SearchRequest) : Prop :=
  (Uuid.pgIn context.userId).isSome ∧ Storable request.query ∧
    ("analytics" ∈ context.searchApps →
      (analyticsMatching db request.query).length ≤ maxInteger)

theorem storable_of_mem_appNames {app : String} (h : app ∈ appNames) : Storable app := by
  have hall : ∀ app ∈ appNames, Storable app := by decide
  exact hall app h

/-- The app a token comes from is a known one. -/
theorem originApp_mem_appNames {decode : String → Except JwtError Payload}
    {authorization : Option String} {context : AuthContext}
    (h : getAuthContext decode authorization = .ok context) : context.originApp ∈ appNames := by
  obtain ⟨_, _, -, -, hcontext⟩ := getAuthContext_eq_ok h
  obtain ⟨-, ⟨clientId, -, hlookup⟩, -⟩ := contextOf_eq_ok hcontext
  exact List.mem_map_of_mem (mem_of_lookup_eq_some hlookup)

section Healthy

variable {context : AuthContext} {request : SearchRequest} {db : Database}

/-- The row of a denied search is taken where its values are. -/
theorem store_deniedRows_iff (db : Database) (request : SearchRequest)
    (horigin : Storable context.originApp) (happs : context.searchApps = []) :
    (∃ stored, storeAll (deniedRows context request.query) = .ok stored) ↔
      Recordable db context request := by
  rw [exists_storeAll_eq_ok_iff, deniedRows, List.forall_mem_singleton,
    SearchAuditLog.exists_store_eq_ok_iff, Recordable, happs]
  simp [horigin, and_comm]

/-- The rows of a response are taken where their values are. -/
theorem store_okBatch_iff (horigin : Storable context.originApp) (happs : context.searchApps ≠ [])
    {found : List (String × AppSection × ℕ)}
    (h : collect noFaults db request context.userId context.searchApps = .ok found) :
    (∃ stored, storeAll (okRows context request.query (countsOf found)) = .ok stored) ↔
      Recordable db context request := by
  have hkeys := map_fst_of_collect h
  have hresult := result_of_mem_collect h
  -- at least one section was collected, and its strategy took the query
  have hne : found ≠ [] := by
    rintro rfl
    exact happs hkeys.symm
  obtain ⟨f₀, hf₀⟩ := List.exists_mem_of_ne_nil found hne
  have hquery : Storable request.query := by
    obtain ⟨s, -, hs⟩ := hresult f₀ hf₀
    exact (Strategy.of_result_eq_ok hs).1.1
  have happ : ∀ f ∈ found, Storable f.1 := fun f hf => by
    refine storable_of_mem_appNames (context.searchApps_sublist.subset ?_)
    rw [← hkeys]
    exact List.mem_map_of_mem hf
  -- only the count of the analytics section has no bound of its own
  have hcount : (∀ f ∈ found, f.2.2 ≤ maxInteger) ↔ ("analytics" ∈ context.searchApps →
      (analyticsMatching db request.query).length ≤ maxInteger) := by
    constructor
    · intro hle hmem
      rw [← hkeys, List.mem_map] at hmem
      obtain ⟨f, hf, hname⟩ := hmem
      obtain ⟨s, hs, hres⟩ := hresult f hf
      obtain rfl : s = .analytics := Strategy.appName_injective (hs.symm.trans hname)
      have htotal : f.2.2 = _ := (Strategy.of_result_eq_ok hres).2
      rw [← htotal]
      exact hle f hf
    · intro hle f hf
      obtain ⟨s, hs, hres⟩ := hresult f hf
      have hof := (Strategy.of_result_eq_ok hres).2
      cases s with
      | analytics =>
        have htotal : f.2.2 = (analyticsMatching db request.query).length := hof
        rw [htotal]
        refine hle ?_
        have hname : "analytics" = f.1 := hs.symm
        rw [← hkeys, hname]
        exact List.mem_map_of_mem hf
      | listing app =>
        have hlimit : f.2.2 ≤ request.limit := hof
        exact hlimit.trans (request.max_limit.trans (by decide))
  rw [exists_storeAll_eq_ok_iff, Recordable, ← hcount]
  simp only [okRows, countsOf, List.map_map, List.forall_mem_map, Function.comp_apply,
    SearchAuditLog.exists_store_eq_ok_iff, Option.mem_some_iff, forall_eq']
  constructor
  · intro hall
    refine ⟨(hall f₀ hf₀).2.2.2, hquery, ?_⟩
    intro f hf
    exact (hall f hf).2.1
  · rintro ⟨huser, -, hle⟩ f hf
    exact ⟨⟨horigin, hquery, happ f hf⟩, hle f hf, Or.inl trivial, huser⟩

/-- **Which rows a healthy database takes.**  Whenever a search of an authenticated
user returns a response or its 403, its rows are committed exactly where their
values fit the columns; otherwise none is, and the failure is logged and counted. -/
theorem recorded_iff (decode : String → Except JwtError Payload) (authorization : Option String)
    (hcontext : getAuthContext decode authorization = .ok context) (request : SearchRequest)
    (shared : Shared) (rows : List SearchAuditLog) :
    let run := (runSearch context request .getDb .getAuditDb).runWith noFaults (shared, {})
    auditRows context request run.1 = some rows →
      (Recorded shared run.2.1 rows ↔ Recordable shared.database context request) ∧
        (¬Recorded shared run.2.1 rows → CountedAsLost shared run.2.1) := by
  intro run hrows
  have horigin := storable_of_mem_appNames (originApp_mem_appNames hcontext)
  obtain ⟨w₁, hw₁, hrun⟩ := run_runSearch noFaults (shared, {}) context request
  have hrecordable : (∃ stored, storeAll rows = .ok stored) ↔
      Recordable shared.database context request := by
    simp only [run, hrun] at hrows
    unfold searchOutcome at hrows
    split at hrows
    · next happs =>
      rw [auditRows, if_pos happs, Option.some.injEq] at hrows
      rw [← hrows]
      exact store_deniedRows_iff _ _ horigin happs
    · next happs =>
      cases hc : collect noFaults shared.database request context.userId context.searchApps with
      | error e =>
        simp only [hc, auditRows, if_neg happs] at hrows
        cases hrows
      | ok found =>
        simp only [hc, auditRows, Option.some.injEq] at hrows
        rw [← hrows, ← store_okBatch_iff horigin happs hc,
          ← okRows_eq_okBatch (tallied_of_collect (by simp [noFaults]) hc)]
  -- what the run leaves is what the writer leaves
  have hwritten : run.2 = ((write .getAuditDb rows).runWith noFaults w₁).2 := by
    simp only [run, hrun] at hrows ⊢
    rw [searchOutcome_snd (by simp [noFaults]), hrows]
  have hshared : w₁.1 = shared := by
    rcases hw₁ with rfl | rfl <;> rfl
  have hpending : w₁.2.auditDb.pending = [] := by
    rcases hw₁ with rfl | rfl <;> rfl
  rw [hwritten, runWith_write_of_healthy rows hpending, hshared, ← hrecordable]
  cases hstore : storeAll rows with
  | ok stored =>
    have hrecorded : Recorded shared
        { shared with searchAuditLog := shared.searchAuditLog ++ stored } rows :=
      ⟨stored, hstore, rfl⟩
    refine ⟨iff_of_true hrecorded ⟨stored, rfl⟩, ?_⟩
    intro hnot
    exact absurd hrecorded hnot
  | error e =>
    refine ⟨iff_of_false ?_ (by simp), ?_⟩
    · rintro ⟨stored, hstored, -⟩
      rw [hstore] at hstored
      cases hstored
    · intro _
      exact ⟨rfl, rfl, rfl⟩

end Healthy

/-! ### A subject that is no UUID -/

/-- A token whose subject is no UUID, without any permission. -/
def Payload.noUuid : Payload where
  sub := "abc"
  azp := .str "analytics-api"
  resourceAccess := .obj []
  azp_ne := nofun
  resourceAccess_ne := nofun

def AuthContext.noUuid : AuthContext where
  userId := "abc"
  originApp := "analytics"
  permissions := []

theorem getAuthContext_small :
    getAuthContext (fun _ => .ok .small) (some "Bearer t") = .ok .small := rfl

theorem getAuthContext_noUuid :
    getAuthContext (fun _ => .ok .noUuid) (some "Bearer t") = .ok .noUuid := rfl

theorem searchApps_noUuid : AuthContext.noUuid.searchApps = [] := by decide

theorem auditRows_noUuid :
    auditRows .noUuid .small ((runSearch .noUuid .small .getDb .getAuditDb).runWith noFaults
      ({ database := .small }, {})).1 = some (deniedRows .noUuid SearchRequest.small.query) := by
  rw [run_runSearch_of_denied searchApps_noUuid, auditRows, if_pos searchApps_noUuid]

/-- The subject is no value of the column. -/
theorem not_recordable_noUuid : ¬Recordable .small .noUuid .small := by
  intro h
  exact absurd h.1 (by decide +kernel)

theorem recordable_small : Recordable .small .small .small := by
  refine ⟨by decide +kernel, by decide, ?_⟩
  intro h
  exact absurd h (by decide)

/-- The rows of a 200 are recorded, and the row of a 403 for a subject that is no UUID
is lost. -/
theorem recorded_iff_noUuid :
    (∃ response, ((runSearch .small .small .getDb .getAuditDb).runWith noFaults
        ({ database := .small }, {})).1 = .ok response ∧
      Recorded { database := .small } ((runSearch .small .small .getDb .getAuditDb).runWith
        noFaults ({ database := .small }, {})).2.1 (okBatch .small response)) ∧
    ¬Recorded { database := .small } ((runSearch .noUuid .small .getDb .getAuditDb).runWith
        noFaults ({ database := .small }, {})).2.1
      (deniedRows .noUuid SearchRequest.small.query) ∧
    CountedAsLost { database := .small } ((runSearch .noUuid .small .getDb .getAuditDb).runWith
      noFaults ({ database := .small }, {})).2.1 := by
  refine ⟨?_, ?_⟩
  · obtain ⟨response, hresponse⟩ := exists_eq_ok_of_isOk
      (x := ((runSearch .small .small .getDb .getAuditDb).runWith noFaults
        ({ database := .small }, {})).1) (by decide +kernel)
    have hrows : auditRows .small .small ((runSearch .small .small .getDb .getAuditDb).runWith
        noFaults ({ database := .small }, {})).1 = some (okBatch .small response) := by
      rw [hresponse, auditRows]
    have hrecorded := recorded_iff (fun _ => .ok .small) (some "Bearer t") getAuthContext_small
      .small { database := .small } (okBatch .small response) hrows
    exact ⟨response, hresponse, hrecorded.1.mpr recordable_small⟩
  · obtain ⟨hiff, hlost⟩ := recorded_iff (fun _ => .ok .noUuid) (some "Bearer t")
      getAuthContext_noUuid .small { database := .small } _ auditRows_noUuid
    have hnot := mt hiff.mp not_recordable_noUuid
    exact ⟨hnot, hlost hnot⟩

/-- The 403 of an authenticated user whose subject is no UUID is not recorded. -/
theorem denied_row_lost :
    ¬∀ (decode : String → Except JwtError Payload) (authorization : Option String)
      (context : AuthContext) (request : SearchRequest) (shared : Shared)
      (rows : List SearchAuditLog),
      getAuthContext decode authorization = .ok context →
      auditRows context request
        ((runSearch context request .getDb .getAuditDb).runWith noFaults (shared, {})).1
          = some rows →
      Recorded shared
        ((runSearch context request .getDb .getAuditDb).runWith noFaults (shared, {})).2.1
        rows := by
  intro h
  obtain ⟨stored, hstored, -⟩ := h (fun _ => .ok .noUuid) (some "Bearer t") .noUuid .small
    { database := .small } _ getAuthContext_noUuid auditRows_noUuid
  have horigin := storable_of_mem_appNames (originApp_mem_appNames getAuthContext_noUuid)
  have hrecordable := (store_deniedRows_iff .small .small horigin searchApps_noUuid).mp
    ⟨stored, hstored⟩
  exact not_recordable_noUuid hrecordable

end SnapSearch
