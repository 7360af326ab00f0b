import SnapSearch.Pagination
import SnapSearch.Service

/-!
# Walking both sections at once

A user of both listing apps walks them through one request at a time: each next
request carries, for every section, the `next_cursor` of the last response, and
nothing for a section that had none.  The service reads an absent cursor as the
start of a section, whether it was never given or its section has ended.

## Main definitions

* `nextCursors`, `SearchRequest.withCursors` — the next request of the client.
* `jointWalk` — the client.
* `responseAt` — the response to its request number `t`.

## Main results

* `jointWalk_eq` — the walk ends with the first response in which both sections
  end together.
* `jointWalk_repeats` — **a section that ends earlier is served again from its
  start**, once for every round of its own pages.
-/

namespace SnapSearch

open Keyset

/-! ### The client -/

/-- The `next_cursor` of a section. -/
def AppSection.nextCursor : AppSection → Option String
  | .analytics _ => none
  | .investigator s => s.nextCursor
  | .caseManager s => s.nextCursor

/-- The cursors that a response announces. -/
def nextCursors (response : SearchResponse) : List (String × String) :=
  response.results.filterMap fun item => item.2.nextCursor.map fun cursor => (item.1, cursor)

/-- The same search with other cursors, as the validator lets it through. -/
def SearchRequest.withCursors (request : SearchRequest) (cursors : List (String × String)) :
    Except Exn SearchRequest :=
  match h : checkCursorKeysAndValues (some cursors) with
  | .ok () => .ok { request with cursors := some cursors, cursors_ok := h }
  | .error msg =>
      .error (.requestValidationError [⟨["body", "cursors"], .valueError msg⟩])

theorem SearchRequest.withCursors_eq_ok {request : SearchRequest}
    {cursors : List (String × String)} (h : checkCursorKeysAndValues (some cursors) = .ok ()) :
    request.withCursors cursors
      = .ok { request with cursors := some cursors, cursors_ok := h } := by
  unfold withCursors
  split
  · rfl
  · next herror =>
    rw [h] at herror
    cases herror

/-- The client: send the cursors of the last response until there are none, and
stop without an answer when the requests are used up. -/
def jointWalk (context : AuthContext) (db : Database) :
    ℕ → SearchRequest → Except Exn (Option (List SearchResponse))
  | 0, _ => .ok none
  | n + 1, request =>
      match (runSearch context request .getDb .getAuditDb).runOn db with
      | .error e => .error e
      | .ok response =>
          if nextCursors response = [] then .ok (some [response])
          else match request.withCursors (nextCursors response) with
            | .error e => .error e
            | .ok next =>
                (jointWalk context db n next).map fun rest => rest.map fun responses =>
                  response :: responses

/-- The items of an app's section in a response. -/
def itemsIn (app : Paginated) (response : SearchResponse) : List app.Item :=
  match app, response.results.lookup (Strategy.listing app).appName with
  | .investigator, some (.investigator s) => s.items
  | .caseManager, some (.caseManager s) => s.items
  | _, _ => []

/-! ### The response to each request -/

section Walk

variable (context : AuthContext) (db : Database) (query : String) (limit : ℕ)

/-- The cursors of request number `t`. -/
def cursorsAt (t : ℕ) (app : Paginated) : Option Uuid :=
  cursorAt app.id (app.matching db query context.userId) limit t

/-- The response to request number `t`. -/
def responseAt (t : ℕ) : SearchResponse :=
  { query, appsSearched := context.searchApps,
    results := context.strategies.map fun s => (s.appName,
      (s.found db query context.userId (cursorsAt context db query limit t) limit).1) }

/-- How many pages an app's matching rows take. -/
def pagesOf (app : Paginated) : ℕ :=
  pageCount (app.matching db query context.userId).length limit

end Walk

/-- A key looked up in a list made from strategies. -/
theorem lookup_map_appName {α : Type} (f : Strategy → α) {ss : List Strategy} {s : Strategy}
    (hs : s ∈ ss) : (ss.map fun s => (s.appName, f s)).lookup s.appName = some (f s) := by
  induction ss with
  | nil => simp at hs
  | cons s' ss ih =>
    rw [List.map_cons, List.lookup_cons]
    by_cases heq : s = s'
    · rw [heq, beq_self_eq_true]
    · have hne : (s.appName == s'.appName) = false := by
        rw [beq_eq_false_iff_ne]
        intro h
        exact heq (Strategy.appName_injective h)
      rw [hne]
      exact ih (List.mem_of_ne_of_mem heq hs)

/-- A key looked up in what some strategies have. -/
theorem lookup_filterMap_appName {α : Type} (f : Strategy → Option α) {ss : List Strategy}
    {s : Strategy} :
    (ss.filterMap fun s => (f s).map fun a => (s.appName, a)).lookup s.appName
      = if s ∈ ss then f s else none := by
  induction ss with
  | nil => rfl
  | cons s' ss ih =>
    by_cases heq : s = s'
    · subst heq
      cases hf : f s with
      | none => simp [hf, ih]
      | some a => simp [hf]
    · have hne : (s.appName == s'.appName) = false := by
        rw [beq_eq_false_iff_ne]
        intro h
        exact heq (Strategy.appName_injective h)
      cases hf : f s' with
      | none => simp [hf, ih, heq]
      | some a => simp [hf, ih, heq, List.lookup_cons, hne]

section Walk

variable {context : AuthContext} {db : Database} {request : SearchRequest}

/-- The cursors announced for a section: the one of the next request. -/
theorem nextCursor_found (s : Strategy) (t : ℕ) :
    (s.found db request.query context.userId
      (cursorsAt context db request.query request.limit t) request.limit).1.nextCursor
      = s.cursorText (cursorsAt context db request.query request.limit (t + 1)) := by
  cases s with
  | analytics => rfl
  | listing app =>
    have hnext : ∀ page : Page app.Row Uuid, (app.toSection (app.sectionOf page)).nextCursor
        = page.next.map Uuid.str := by
      intro page
      cases app <;> rfl
    rw [Strategy.found, hnext, Strategy.cursorText]
    simp only [cursorsAt, cursorAt_succ]

/-- A request of the walk meets the section where its cursors say. -/
theorem runOn_of_cursors (hquery : Storable request.query)
    (huser : (Uuid.pgIn context.userId).isSome) (hsome : context.searchApps ≠ []) {t : ℕ}
    (hcursors : ∀ s ∈ context.strategies, request.cursorFor s.appName
      = s.cursorText (cursorsAt context db request.query request.limit t)) :
    (runSearch context request .getDb .getAuditDb).runOn db
      = .ok (responseAt context db request.query request.limit t) := by
  obtain ⟨w₁, -, hrun⟩ := run_runSearch noFaults ({ database := db }, {}) context request
  have hresult : ∀ s ∈ context.strategies, s.result noFaults db .getDb request.query
      context.userId (request.cursorFor s.appName) request.limit = .ok (s.found db request.query
        context.userId (cursorsAt context db request.query request.limit t) request.limit) := by
    intro s hs
    rw [hcursors s hs]
    apply s.result_of_accepts hquery
    intro app _
    exact ⟨hquery, fun _ => huser⟩
  have hcollect := collect_of_forall hresult
  rw [context.map_appName_strategies] at hcollect
  rw [Py.runOn, hrun, searchOutcome, if_neg hsome, hcollect]
  simp [responseAt, sectionsOf]

theorem nextCursors_responseAt (t : ℕ) :
    nextCursors (responseAt context db request.query request.limit t)
      = context.strategies.filterMap fun s =>
          (s.cursorText (cursorsAt context db request.query request.limit (t + 1))).map
            fun cursor => (s.appName, cursor) := by
  rw [nextCursors, responseAt, List.filterMap_map]
  apply List.filterMap_congr
  intro s _
  simp only [Function.comp_apply, nextCursor_found]

/-- The cursors of a response are accepted, and lead to the next request. -/
theorem withCursors_responseAt (context : AuthContext) (db : Database) (request : SearchRequest)
    (t : ℕ) :
    ∃ next : SearchRequest,
      request.withCursors (nextCursors (responseAt context db request.query request.limit t))
        = .ok next ∧
      next.query = request.query ∧ next.limit = request.limit ∧
      ∀ s ∈ context.strategies, next.cursorFor s.appName
        = s.cursorText (cursorsAt context db request.query request.limit (t + 1)) := by
  have hok : checkCursorKeysAndValues
      (some (nextCursors (responseAt context db request.query request.limit t))) = .ok () := by
    apply checkCursorItems_eq_ok_iff.mpr
    intro item hitem
    rw [nextCursors_responseAt, List.mem_filterMap] at hitem
    obtain ⟨s, -, hs⟩ := hitem
    rw [Option.map_eq_some_iff] at hs
    obtain ⟨cursor, hcursor, rfl⟩ := hs
    cases s with
    | analytics => cases hcursor
    | listing app =>
      rw [Strategy.cursorText, Option.map_eq_some_iff] at hcursor
      obtain ⟨u, -, rfl⟩ := hcursor
      refine ⟨?_, by rw [Uuid.parse_str]; rfl⟩
      exact app.appName_mem_paginatedApps
  refine ⟨_, SearchRequest.withCursors_eq_ok hok, rfl, rfl, ?_⟩
  intro s hs
  rw [SearchRequest.cursorFor, SearchRequest.cursorItems, Option.getD_some,
    nextCursors_responseAt, lookup_filterMap_appName, if_pos hs]

/-! ### The walk -/

/-- The next cursors are all absent exactly where both sections start over. -/
theorem nextCursors_eq_nil_iff (hboth : ∀ app, .listing app ∈ context.strategies) (t : ℕ) :
    nextCursors (responseAt context db request.query request.limit t) = [] ↔
      ∀ app, pagesOf context db request.query request.limit app ∣ t + 1 := by
  -- a cursor is absent where a round of the section starts
  have hnone : ∀ app, (Strategy.listing app).cursorText
      (cursorsAt context db request.query request.limit (t + 1)) = none ↔
        pagesOf context db request.query request.limit app ∣ t + 1 := by
    intro app
    have h := cursorAt_eq_none_iff (app.nodup_matching db request.query context.userId)
      request.min_limit (t := t + 1)
    rw [Strategy.cursorText, Option.map_eq_none_iff, cursorsAt, h, pagesOf]
    simp [remaining]
  rw [nextCursors_responseAt, List.filterMap_eq_nil_iff]
  constructor
  · intro h app
    exact (hnone app).mp (by simpa using h _ (hboth app))
  · intro h s _
    cases s with
    | analytics => rfl
    | listing app => rw [(hnone app).mpr (h app)]; rfl

/-- How many responses the walk takes: the first number that both sections' page
counts divide. -/
def roundsOf (context : AuthContext) (db : Database) (query : String) (limit : ℕ) : ℕ :=
  (pagesOf context db query limit .investigator).lcm (pagesOf context db query limit .caseManager)

theorem forall_pagesOf_dvd_iff {query : String} {limit t : ℕ} :
    (∀ app, pagesOf context db query limit app ∣ t) ↔ roundsOf context db query limit ∣ t := by
  rw [roundsOf, Nat.lcm_dvd_iff]
  constructor
  · intro h
    exact ⟨h _, h _⟩
  · rintro ⟨h₁, h₂⟩ (_ | _)
    · exact h₁
    · exact h₂

/-- **The walk ends with the first response in which both sections end together**;
with fewer requests it does not end. -/
theorem jointWalk_eq (hquery : Storable request.query) (huser : (Uuid.pgIn context.userId).isSome)
    (hboth : ∀ app, .listing app ∈ context.strategies) (n t : ℕ)
    (ht : t < roundsOf context db request.query request.limit)
    (hcursors : ∀ s ∈ context.strategies, request.cursorFor s.appName
      = s.cursorText (cursorsAt context db request.query request.limit t)) :
    jointWalk context db n request = .ok
      (if roundsOf context db request.query request.limit - t ≤ n then
        some ((List.range' t (roundsOf context db request.query request.limit - t)).map
          (responseAt context db request.query request.limit))
      else none) := by
  -- the search is not denied, so the loop is reached
  have hsome : context.searchApps ≠ [] := by
    rw [← context.map_appName_strategies]
    exact List.ne_nil_of_mem (List.mem_map_of_mem (hboth .investigator))
  induction n generalizing t request with
  | zero =>
    rw [if_neg (by omega)]
    rfl
  | succ n ih =>
    rw [jointWalk, runOn_of_cursors hquery huser hsome hcursors]
    by_cases hlast : t + 1 = roundsOf context db request.query request.limit
    · -- both sections end here
      have hnil := (nextCursors_eq_nil_iff hboth t).mpr
        (forall_pagesOf_dvd_iff.mpr (by rw [hlast]))
      have hone : roundsOf context db request.query request.limit - t = 1 := by omega
      simp [hnil, hone]
    · -- a section has more pages, so the client asks again
      have hne : nextCursors (responseAt context db request.query request.limit t) ≠ [] := by
        rw [Ne, nextCursors_eq_nil_iff hboth, forall_pagesOf_dvd_iff]
        intro hdvd
        have := Nat.le_of_dvd (by omega) hdvd
        omega
      obtain ⟨next, hnext, hq, hl, hnextCursors⟩ := withCursors_responseAt context db request t
      rw [← hq, ← hl] at hnextCursors ht
      have hrest := ih (hq ▸ hquery) (t + 1) (by rw [hq, hl] at ht ⊢; omega)
        hnextCursors
      have hsucc : roundsOf context db request.query request.limit - t
          = (roundsOf context db request.query request.limit - (t + 1)) + 1 := by
        rw [hq, hl] at ht
        omega
      simp only [hne, if_false, hnext, hrest, hq, hl, hsucc, List.range'_succ]
      by_cases hn : roundsOf context db request.query request.limit - (t + 1) ≤ n
      · simp [hn, Except.map]
      · simp [hn, Except.map]

/-- The items of a section in a response of the walk. -/
theorem itemsIn_responseAt {app : Paginated} (hmem : .listing app ∈ context.strategies) (t : ℕ) :
    itemsIn app (responseAt context db request.query request.limit t)
      = (page app.id (app.matching db request.query context.userId)
          (cursorsAt context db request.query request.limit t app) request.limit).items.map
            app.itemOfRow := by
  -- the section of the app is the one its strategy found
  have hlookup := lookup_map_appName (fun s => (s.found db request.query context.userId
    (cursorsAt context db request.query request.limit t) request.limit).1) hmem
  rw [itemsIn, responseAt, hlookup]
  cases app <;> rfl

/-- A section's items over whole rounds of its pages. -/
theorem flatMap_itemsIn (db : Database) (request : SearchRequest) {app : Paginated}
    (hmem : .listing app ∈ context.strategies) (m : ℕ) :
    ((List.range (pagesOf context db request.query request.limit app * m)).map
        (responseAt context db request.query request.limit)).flatMap (itemsIn app)
      = (List.replicate m ((app.sortedById (app.matching db request.query context.userId)).map
          app.itemOfRow)).flatten := by
  have hround := flatMap_page_cursorAt (app.nodup_matching db request.query context.userId)
    request.min_limit m
  rw [app.remaining_none] at hround
  have hlen : (app.sortedById (app.matching db request.query context.userId)).length
      = (app.matching db request.query context.userId).length := by
    simp [Paginated.sortedById]
  rw [hlen] at hround
  rw [List.flatMap_map, ← List.map_replicate, ← List.map_flatten, ← hround, List.map_flatMap]
  apply List.flatMap_congr
  intro t _
  exact itemsIn_responseAt hmem t

theorem flatten_replicate_eq_self_iff {α : Type} {m : ℕ} {l : List α} :
    (List.replicate m l).flatten = l ↔ l = [] ∨ m = 1 := by
  constructor
  · intro h
    have hlen := congrArg List.length h
    rw [List.length_flatten, List.map_replicate, List.sum_replicate, smul_eq_mul] at hlen
    rcases Nat.eq_zero_or_pos l.length with h0 | hpos
    · exact Or.inl (List.length_eq_zero_iff.mp h0)
    · exact Or.inr (Nat.eq_of_mul_eq_mul_right hpos (by omega))
  · rintro (rfl | rfl) <;> simp

/-- **A section that ends earlier is served again from its start.**  The walk
always ends; it ends with the first response that is the last page of both
sections, and until then each section repeats.  So a section comes out once
exactly where nothing matches in it or its page count is a multiple of the
other's. -/
theorem jointWalk_repeats (hquery : Storable request.query)
    (huser : (Uuid.pgIn context.userId).isSome)
    (hboth : ∀ app, (Strategy.listing app).appName ∈ context.searchApps)
    (hfirst : request.cursors = none) :
    ∃ responses : List SearchResponse,
      (∀ n, jointWalk context db n request = .ok
        (if roundsOf context db request.query request.limit ≤ n then some responses else none)) ∧
      responses.length = roundsOf context db request.query request.limit ∧
      ∀ app, responses.flatMap (itemsIn app)
          = (List.replicate (roundsOf context db request.query request.limit
              / pagesOf context db request.query request.limit app)
            ((app.sortedById (app.matching db request.query context.userId)).map
              app.itemOfRow)).flatten ∧
        (responses.flatMap (itemsIn app)
            = (app.sortedById (app.matching db request.query context.userId)).map app.itemOfRow ↔
          app.matching db request.query context.userId = [] ∨
            ∀ other, pagesOf context db request.query request.limit other
              ∣ pagesOf context db request.query request.limit app) := by
  have hmem : ∀ app, .listing app ∈ context.strategies := by
    intro app
    have h := hboth app
    rw [← context.map_appName_strategies, List.mem_map] at h
    obtain ⟨s, hs, hname⟩ := h
    rwa [← Strategy.appName_injective hname]
  have hpos : ∀ app, 0 < pagesOf context db request.query request.limit app :=
    fun app => pageCount_pos _ _
  have hrounds : 0 < roundsOf context db request.query request.limit :=
    Nat.lcm_pos (hpos _) (hpos _)
  have hdvd : ∀ app, pagesOf context db request.query request.limit app
      ∣ roundsOf context db request.query request.limit :=
    forall_pagesOf_dvd_iff.mpr dvd_rfl
  have hcursors : ∀ s ∈ context.strategies, request.cursorFor s.appName
      = s.cursorText (cursorsAt context db request.query request.limit 0) := by
    intro s _
    rw [SearchRequest.cursorFor, SearchRequest.cursorItems, hfirst]
    cases s <;> rfl
  refine ⟨(List.range (roundsOf context db request.query request.limit)).map
    (responseAt context db request.query request.limit), ?_, by simp, ?_⟩
  · intro n
    have h := jointWalk_eq hquery huser hmem n 0 hrounds hcursors
    rwa [Nat.sub_zero, ← List.range_eq_range'] at h
  · intro app
    have hitems := flatMap_itemsIn db request (hmem app)
      (roundsOf context db request.query request.limit
        / pagesOf context db request.query request.limit app)
    rw [Nat.mul_div_cancel' (hdvd app)] at hitems
    refine ⟨hitems, ?_⟩
    rw [hitems, flatten_replicate_eq_self_iff]
    -- sorting and mapping keep the number of rows
    have hnil : (app.sortedById (app.matching db request.query context.userId)).map app.itemOfRow
        = [] ↔ app.matching db request.query context.userId = [] := by
      rw [List.map_eq_nil_iff, ← List.length_eq_zero_iff, Paginated.sortedById,
        List.length_insertionSort, List.length_eq_zero_iff]
    rw [hnil, forall_pagesOf_dvd_iff, Nat.div_eq_iff_eq_mul_left (hpos app) (hdvd app), one_mul]
    apply or_congr_right
    constructor
    · intro h
      rw [h]
    · intro h
      exact Nat.dvd_antisymm h (hdvd app)

theorem jointWalk_repeats_small :
    ∃ responses : List SearchResponse,
      (∀ n, jointWalk .small .small n .small = .ok
        (if roundsOf .small .small "an" 1 ≤ n then some responses else none)) ∧
      responses.length = roundsOf .small .small "an" 1 ∧
      ∀ app, responses.flatMap (itemsIn app)
          = (List.replicate (roundsOf .small .small "an" 1 / pagesOf .small .small "an" 1 app)
            ((app.sortedById (app.matching .small "an" AuthContext.small.userId)).map
              app.itemOfRow)).flatten ∧
        (responses.flatMap (itemsIn app)
            = (app.sortedById (app.matching .small "an" AuthContext.small.userId)).map
                app.itemOfRow ↔
          app.matching .small "an" AuthContext.small.userId = [] ∨
            ∀ other, pagesOf .small .small "an" 1 other ∣ pagesOf .small .small "an" 1 app) :=
  jointWalk_repeats (by decide) (by decide +kernel) (by rintro (_ | _) <;> decide) rfl

/-- Two entities and one case, one row at a time: the case comes out twice. -/
theorem jointWalk_small_not_once :
    ¬∃ n responses, jointWalk .small .small n .small = .ok (some responses) ∧
      ∀ app, responses.flatMap (itemsIn app)
        = (app.sortedById (app.matching .small "an" AuthContext.small.userId)).map
            app.itemOfRow := by
  rintro ⟨n, responses, hwalk, honce⟩
  have hmem : ∀ app, .listing app ∈ AuthContext.small.strategies := by
    rintro (_ | _) <;> decide
  have hquery : Storable SearchRequest.small.query := by decide
  have huser : (Uuid.pgIn AuthContext.small.userId).isSome := by decide +kernel
  have hcursors : ∀ s ∈ AuthContext.small.strategies, SearchRequest.small.cursorFor s.appName
      = s.cursorText (cursorsAt .small .small "an" 1 0) := by
    intro s _
    cases s <;> rfl
  have hwalked := jointWalk_eq hquery huser hmem n 0 (by decide +kernel) hcursors
  rw [hwalk] at hwalked
  split at hwalked
  · cases hwalked
    -- the case comes out twice, and there is only one
    have hlen := congrArg List.length (honce .caseManager)
    revert hlen
    decide +kernel
  · cases hwalked

end Walk

end SnapSearch
