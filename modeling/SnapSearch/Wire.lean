import SnapSearch.AuditGuard
import SnapSearch.JointWalk
import SnapSearch.Snapshots

/-!
# Over the wire

What a client sends and gets: a body in JSON, and a status with a body in JSON.
The tests' client (`_walk` in `tests/test_pagination.py`) follows the `next_cursor`
of one section through the endpoint.

How the framework writes a `datetime` is a parameter.  Of the bodies of answers, the
ones the repository decides are kept: a response, the detail of an HTTP exception,
and the body of `database_unavailable_handler`.

## Main definitions

* `SearchResponse.toJson` — a response as it is sent.
* `HttpResponse`, `respond` — what the application answers.
* `post`, `walkClient` — the client.

## Main results

* `validate_walkBody` — the body of the client is read as the request it means.
* `walkClient_complete` — **the client gets every matching row once, in id order**,
  through the whole application, whatever fails in the audit trail.
-/

namespace SnapSearch

open Keyset

/-! ### What is sent -/

/-- `data[key]`. -/
def Json.get : Json → String → Option Json
  | .obj members, key => members.lookup key
  | _, _ => none

/-- A text or `None`. -/
def Json.ofText : Option String → Json
  | none => .null
  | some text => .str text

section Render

variable (isoformat : Timestamp → String)

/-- The items of the listing sections, as they are sent. -/
def Paginated.itemJson : (app : Paginated) → app.Item → Json
  | .investigator, item =>
      .obj [("id", .str item.id.str), ("type", .str item.type), ("name", .str item.name),
        ("data", .obj item.data), ("created_at", .str (isoformat item.createdAt))]
  | .caseManager, item =>
      .obj [("id", .str item.id.str), ("title", .str item.title),
        ("assigned_to", .str item.assignedTo.str), ("status", .str item.status),
        ("created_at", .str (isoformat item.createdAt))]

/-- A listing section. -/
def Paginated.sectionJson (app : Paginated) (s : ListSection app.Item) : Json :=
  .obj [("items", .arr (s.items.map (app.itemJson isoformat))),
    ("next_cursor", .ofText s.nextCursor)]

/-- The section of one app. -/
def AppSection.toJson : AppSection → Json
  | .analytics s =>
      .obj [("total_matched", .int s.totalMatched),
        ("by_month", .obj (s.byMonth.map fun (label, count) => (label, .int count)))]
  | .investigator s => Paginated.investigator.sectionJson isoformat s
  | .caseManager s => Paginated.caseManager.sectionJson isoformat s

/-- A response. -/
def SearchResponse.toJson (response : SearchResponse) : Json :=
  .obj [("query", .str response.query),
    ("apps_searched", .arr (response.appsSearched.map .str)),
    ("results", .obj (response.results.map fun (app, s) => (app, s.toJson isoformat)))]

/-- A status, and the body where the repository decides it. -/
structure HttpResponse where
  status : ℕ
  body : Option Json

/-- What the application answers: a response, the detail of an HTTP exception, or the
fixed body of `database_unavailable_handler`. -/
def respond (r : Except Exn SearchResponse) : HttpResponse where
  status := statusOf r
  body :=
    match r with
    | .ok response => some (response.toJson isoformat)
    | .error (.httpException _ detail _) => some (.obj [("detail", .str detail)])
    | .error (.operationalError _) => some (.obj [("detail", .str "database unavailable")])
    | .error _ => none

end Render

/-! ### The client -/

/-- The body of a request of `_walk`. -/
def walkBody (sectionName query : String) (limit : ℕ) (cursor : Option String) : Json :=
  let body := [("query", Json.str query), ("limit", .int limit)]
  match cursor with
  | none => .obj body
  | some cursor => .obj (body ++ [("cursors", .obj [(sectionName, .str cursor)])])

/-- `response.json()["results"][section]`: its items and its next cursor. -/
def readSection (sectionName : String) (response : HttpResponse) :
    Option (List Json × Option String) := do
  let body ← response.body
  let payload ← (← body.get "results").get sectionName
  match payload.get "items", payload.get "next_cursor" with
  | some (.arr items), some .null => return (items, none)
  | some (.arr items), some (.str cursor) => return (items, some cursor)
  | _, _ => none

/-- `_walk`: follow the next cursor until there is none, and stop without a result
when the requests are used up. -/
def walkClient {σ : Type} (post : Json → σ → HttpResponse × σ) (sectionName query : String)
    (limit : ℕ) : ℕ → Option String → σ → Except Exn (Option (List (List Json) × σ))
  | 0, _, _ => .ok none
  | n + 1, cursor, s =>
      let (response, s) := post (walkBody sectionName query limit cursor) s
      if response.status ≠ 200 then .error (.assertionError "response.status_code == 200")
      else match readSection sectionName response with
        | none => .error (.keyError sectionName)
        | some (items, none) => .ok (some ([items], s))
        | some (items, some cursor) =>
            (walkClient post sectionName query limit n (some cursor) s).map fun walked =>
              walked.map fun (pages, s) => (items :: pages, s)

/-- One request to the application, the next of those made so far; each has failures
of its own. -/
def post (decode : String → Except JwtError Payload) (intOf : Json → Except ErrorType ℤ)
    (isoformat : Timestamp → String) (faults : ℕ → Faults) (authorization : Option String)
    (body : Json) (s : ℕ × Shared) : HttpResponse × (ℕ × Shared) :=
  let run := (search decode intOf { authorization, body := .ok body }).runWith (faults s.1)
    (s.2, {})
  (respond isoformat run.1, (s.1 + 1, run.2.1))

/-! ### The request that a body means -/

theorem lookup_map_snd {α β : Type} (f : α → β) (l : List (String × α)) (key : String) :
    (l.map fun (k, a) => (k, f a)).lookup key = (l.lookup key).map f := by
  induction l with
  | nil => rfl
  | cons item l ih =>
    rw [List.map_cons, List.lookup_cons, List.lookup_cons, ih]
    cases key == item.1 <;> rfl

section Requests

variable {intOf : Json → Except ErrorType ℤ} {query : String} {limit : ℕ}

/-- `query.strip()`. -/
def stripQuery (query : String) : String := String.ofList (PyStr.strip PyStr.isSpace query.toList)

/-- A body whose fields pass is a request with their values. -/
theorem exists_validate_eq_ok {members : List (String × Json)} {query : String} {limit : ℕ}
    {cursors : Option (List (String × String))} (hq : validateQuery members = .ok query)
    (hl : validateLimit intOf members = .ok limit) (hc : validateCursors members = .ok cursors) :
    ∃ request, SearchRequest.validate intOf (.obj members) = .ok request ∧
      request.query = query ∧ request.limit = limit ∧ request.cursors = cursors := by
  simp only [SearchRequest.validate]
  split
  · next query' limit' cursors' hq' hl' hc' =>
    rw [hq] at hq'
    rw [hl] at hl'
    rw [hc] at hc'
    cases hq'
    cases hl'
    cases hc'
    exact ⟨_, rfl, rfl, rfl, rfl⟩
  · next hnot =>
    exact (hnot _ _ hq hl).elim
  · next hc' =>
    rw [hc] at hc'
    cases hc'

theorem validateQuery_of_lookup {members : List (String × Json)}
    (hlookup : members.lookup "query" = some (.str query))
    (hquery : queryMinLength ≤ (stripQuery query).length ∧
      (stripQuery query).length ≤ queryMaxLength) :
    validateQuery members = .ok (stripQuery query) := by
  rw [validateQuery, hlookup]
  dsimp only
  rw [← stripQuery, if_neg (by omega), if_neg (by omega)]

theorem validateLimit_of_lookup {members : List (String × Json)}
    (hint : ∀ n : ℤ, intOf (.int n) = .ok n)
    (hlookup : members.lookup "limit" = some (.int limit))
    (hlimit : 1 ≤ limit ∧ limit ≤ searchResultLimit) :
    validateLimit intOf members = .ok limit := by
  rw [validateLimit, hlookup]
  dsimp only
  rw [hint]
  dsimp only
  rw [if_neg (by omega), if_neg (by omega), Int.toNat_natCast]

/-- **The body of the client is read as the request it means**: the stripped query,
the limit, and the cursor under the key of its section. -/
theorem validate_walkBody (hint : ∀ n : ℤ, intOf (.int n) = .ok n)
    (hquery : queryMinLength ≤ (stripQuery query).length ∧
      (stripQuery query).length ≤ queryMaxLength)
    (hlimit : 1 ≤ limit ∧ limit ≤ searchResultLimit) (app : Paginated) (cursor : Option Uuid) :
    ∃ request, SearchRequest.validate intOf
        (walkBody (Strategy.listing app).appName query limit (cursor.map Uuid.str)) = .ok request ∧
      request.query = stripQuery query ∧ request.limit = limit ∧
      ∀ s : Strategy, request.cursorFor s.appName =
        s.cursorText fun other => if other = app then cursor else none := by
  -- the first two members are always there
  have hq : ∀ rest, validateQuery (("query", Json.str query) :: ("limit", .int limit) :: rest) =
      .ok (stripQuery query) := by
    intro rest
    exact validateQuery_of_lookup (by simp) hquery
  have hl : ∀ rest, validateLimit intOf
      (("query", Json.str query) :: ("limit", .int limit) :: rest) = .ok limit := by
    intro rest
    exact validateLimit_of_lookup hint (by simp [List.lookup_cons]) hlimit
  cases cursor with
  | none =>
    have hc : validateCursors [("query", Json.str query), ("limit", .int limit)] = .ok none := by
      simp [validateCursors, List.lookup_cons]
    obtain ⟨request, hvalidate, hquery', hlimit', hcursors⟩ :=
      exists_validate_eq_ok (hq []) (hl []) hc
    refine ⟨request, hvalidate, hquery', hlimit', ?_⟩
    intro s
    rw [SearchRequest.cursorFor, SearchRequest.cursorItems, hcursors]
    cases s with
    | analytics => rfl
    | listing other => simp [Strategy.cursorText]
  | some u =>
    have hc : validateCursors [("query", Json.str query), ("limit", .int limit),
        ("cursors", .obj [((Strategy.listing app).appName, .str u.str)])] =
          .ok (some [((Strategy.listing app).appName, u.str)]) := by
      have hcheck : checkCursorKeysAndValues (some [((Strategy.listing app).appName, u.str)]) =
          .ok () := by
        apply checkCursorItems_eq_ok_iff.mpr
        intro item hitem
        rw [List.mem_singleton] at hitem
        subst hitem
        exact ⟨app.appName_mem_paginatedApps, by rw [Uuid.parse_str]; rfl⟩
      simp [validateCursors, List.lookup_cons, textItems, hcheck]
    obtain ⟨request, hvalidate, hquery', hlimit', hcursors⟩ :=
      exists_validate_eq_ok (hq _) (hl _) hc
    refine ⟨request, hvalidate, hquery', hlimit', ?_⟩
    intro s
    rw [SearchRequest.cursorFor, SearchRequest.cursorItems, hcursors, Option.getD_some,
      List.lookup_cons]
    by_cases hs : s = .listing app
    · subst hs
      simp [Strategy.cursorText]
    · have hne : (s.appName == (Strategy.listing app).appName) = false := by
        rw [beq_eq_false_iff_ne]
        intro h
        exact hs (Strategy.appName_injective h)
      rw [hne]
      cases s with
      | analytics => rfl
      | listing other =>
        have hother : other ≠ app := by
          rintro rfl
          exact hs rfl
        simp [Strategy.cursorText, hother]

end Requests

/-! ### The answer that a client reads -/

/-- **A client reads a listing section as it was**: its items, and its cursor. -/
theorem readSection_respond (isoformat : Timestamp → String) {response : SearchResponse}
    {app : Paginated} {s : ListSection app.Item}
    (h : response.results.lookup (Strategy.listing app).appName = some (app.toSection s)) :
    readSection (Strategy.listing app).appName (respond isoformat (.ok response)) =
      some (s.items.map (app.itemJson isoformat), s.nextCursor) := by
  have hlookup : (response.results.map fun (name, s) => (name, s.toJson isoformat)).lookup
      (Strategy.listing app).appName = some (app.sectionJson isoformat s) := by
    rw [lookup_map_snd, h]
    cases app <;> rfl
  have hresults : (response.toJson isoformat).get "results" = some (.obj
      (response.results.map fun (name, s) => (name, s.toJson isoformat))) := by
    simp [SearchResponse.toJson, Json.get, List.lookup_cons]
  have hitems : (app.sectionJson isoformat s).get "items" =
      some (.arr (s.items.map (app.itemJson isoformat))) := by
    simp [Paginated.sectionJson, Json.get]
  have hnext : (app.sectionJson isoformat s).get "next_cursor" =
      some (Json.ofText s.nextCursor) := by
    simp [Paginated.sectionJson, Json.get, List.lookup_cons]
  have hsection : (Json.obj (response.results.map fun (name, s) => (name, s.toJson isoformat))).get
      (Strategy.listing app).appName = some (app.sectionJson isoformat s) := hlookup
  simp only [readSection, respond, Option.bind_eq_bind, Option.bind_some, hresults, hsection,
    hitems, hnext]
  cases s.nextCursor <;> rfl

/-! ### The walk through the application -/

section Client

variable {decode : String → Except JwtError Payload} {intOf : Json → Except ErrorType ℤ}
  {isoformat : Timestamp → String} {faults : ℕ → Faults} {authorization : Option String}
  {context : AuthContext} {query : String} {limit : ℕ} {app : Paginated} {db : Database}

/-- The failures of the audit trail do not reach a strategy. -/
theorem Strategy.result_withoutAudit (s : Strategy) (faults : Faults) (db : Database)
    (session : Conn) (query userId : String) (cursor : Option String) (limit : ℕ) :
    s.result faults db session query userId cursor limit =
      s.result faults.withoutAudit db session query userId cursor limit := by
  cases s <;> rfl

variable (isoformat context query limit app db) in
/-- The page that request number `t` of the client shows. -/
def pageJson (t : ℕ) : List Json :=
  (page app.id (app.matching db (stripQuery query) context.userId)
    (cursorAt app.id (app.matching db (stripQuery query) context.userId) limit t)
    limit).items.map fun row => app.itemJson isoformat (app.itemOfRow row)

variable (isoformat) in
/-- **A request of the client is answered with its page and the next cursor.** -/
theorem exists_post_walkBody (hint : ∀ n : ℤ, intOf (.int n) = .ok n)
    (hcontext : getAuthContext decode authorization = .ok context)
    (happ : .listing app ∈ context.strategies)
    (haccepts : ∀ s ∈ context.strategies, s.Accepts (stripQuery query) context.userId)
    (hquery : queryMinLength ≤ (stripQuery query).length ∧
      (stripQuery query).length ≤ queryMaxLength)
    (hlimit : 1 ≤ limit ∧ limit ≤ searchResultLimit)
    (hfaults : ∀ i, (faults i).withoutAudit = noFaults) (t : ℕ) {shared : Shared}
    (hshared : shared.database = db) :
    ∃ response shared', shared'.database = db ∧
      post decode intOf isoformat faults authorization
        (walkBody (Strategy.listing app).appName query limit
          ((cursorAt app.id (app.matching db (stripQuery query) context.userId) limit t).map
            Uuid.str)) (t, shared) = (response, (t + 1, shared')) ∧
      response.status = 200 ∧
      readSection (Strategy.listing app).appName response =
        some (pageJson isoformat context query limit app db t,
          (cursorAt app.id (app.matching db (stripQuery query) context.userId) limit
            (t + 1)).map Uuid.str) := by
  set cursor := cursorAt app.id (app.matching db (stripQuery query) context.userId) limit t
  obtain ⟨request, hvalidate, hq, hl, hcursors⟩ :=
    validate_walkBody hint hquery hlimit app cursor
  -- every strategy gives its page
  set cursors : Paginated → Option Uuid := fun other => if other = app then cursor else none
  have hresult : ∀ s ∈ context.strategies, s.result (faults t) shared.database .getDb
      request.query context.userId (request.cursorFor s.appName) request.limit =
        .ok (s.found db (stripQuery query) context.userId cursors limit) := by
    intro s hs
    rw [hshared, hcursors s, hq, hl, s.result_withoutAudit, hfaults]
    exact s.result_of_accepts (haccepts s hs).1 (haccepts s hs).2 cursors limit
  have hsome : context.searchApps ≠ [] := by
    rw [← context.map_appName_strategies]
    intro hnil
    rw [List.map_eq_nil_iff.mp hnil] at happ
    cases happ
  have hcollect := collect_of_forall hresult
  rw [context.map_appName_strategies] at hcollect
  have hsearch : search decode intOf { authorization, body := .ok (walkBody
      (Strategy.listing app).appName query limit (cursor.map Uuid.str)) } =
        runSearch context request .getDb .getAuditDb := by
    simp [search, hcontext, hvalidate, Except.mapError, Prog.bind]
  obtain ⟨w₁, hw₁, hrun⟩ := run_runSearch (faults t) (shared, {}) context request
  have houtcome : (searchOutcome (faults t) shared.database context request).1 =
      .ok { query := stripQuery query, appsSearched := context.searchApps
            results := context.strategies.map fun s =>
              (s.appName, (s.found db (stripQuery query) context.userId cursors limit).1) } := by
    rw [searchOutcome, if_neg hsome, hcollect, hq]
    simp [sectionsOf]
  have hlookup : (context.strategies.map fun s =>
      (s.appName, (s.found db (stripQuery query) context.userId cursors limit).1)).lookup
        (Strategy.listing app).appName = some (app.toSection (app.sectionOf
          (page app.id (app.matching db (stripQuery query) context.userId) cursor limit))) := by
    rw [lookup_map_appName (fun s => (s.found db (stripQuery query) context.userId cursors limit).1)
      happ]
    simp [Strategy.found, cursors]
  refine ⟨_, _, ?_, rfl, ?_, ?_⟩
  · rw [hsearch]
    exact (database_runWith _ _ _).trans hshared
  · rw [hsearch, hrun, houtcome]
    rfl
  · rw [hsearch, hrun, houtcome, readSection_respond isoformat hlookup]
    rw [cursorAt_succ]
    simp [Paginated.sectionOf, pageJson, cursor, Function.comp_def]

variable (isoformat) in
/-- The rest of the walk, from any of its requests on. -/
theorem exists_walkClient_from (hint : ∀ n : ℤ, intOf (.int n) = .ok n)
    (hcontext : getAuthContext decode authorization = .ok context)
    (happ : .listing app ∈ context.strategies)
    (haccepts : ∀ s ∈ context.strategies, s.Accepts (stripQuery query) context.userId)
    (hquery : queryMinLength ≤ (stripQuery query).length ∧
      (stripQuery query).length ≤ queryMaxLength)
    (hlimit : 1 ≤ limit ∧ limit ≤ searchResultLimit)
    (hfaults : ∀ i, (faults i).withoutAudit = noFaults) {k t : ℕ}
    (hk : t + k + 1 =
      pageCount (app.matching db (stripQuery query) context.userId).length limit)
    {shared : Shared} (hshared : shared.database = db) :
    ∃ shared', shared'.database = db ∧ ∀ n,
      walkClient (post decode intOf isoformat faults authorization) (Strategy.listing app).appName
        query limit n ((cursorAt app.id (app.matching db (stripQuery query) context.userId)
          limit t).map Uuid.str) (t, shared) =
        .ok (if k + 1 ≤ n then
          some ((List.range' t (k + 1)).map (pageJson isoformat context query limit app db),
            (t + k + 1, shared')) else none) := by
  have hround : (remaining app.id (app.matching db (stripQuery query) context.userId) none).length =
      (app.matching db (stripQuery query) context.userId).length := by
    rw [Paginated.remaining_none, Paginated.sortedById, List.length_insertionSort]
  induction k generalizing t shared with
  | zero =>
    obtain ⟨response, shared', hshared', hpost, hstatus, hread⟩ :=
      exists_post_walkBody isoformat hint hcontext happ haccepts hquery hlimit
        hfaults t hshared
    -- this was the last page
    have hlast := (cursorAt_succ_eq_none_iff
      (app.nodup_matching db (stripQuery query) context.userId) hlimit.1 (t := t)
      (by rw [hround]; omega)).mpr (by rw [hround]; omega)
    rw [hlast, Option.map_none] at hread
    refine ⟨shared', hshared', ?_⟩
    intro n
    cases n with
    | zero => rfl
    | succ n => simp [walkClient, hpost, hstatus, hread]
  | succ k ih =>
    obtain ⟨response, shared', hshared', hpost, hstatus, hread⟩ :=
      exists_post_walkBody isoformat hint hcontext happ haccepts hquery hlimit
        hfaults t hshared
    obtain ⟨shared'', hshared'', hrest⟩ := ih (t := t + 1) (by omega) hshared'
    -- there is a page after this one
    have hmore := mt (cursorAt_succ_eq_none_iff
      (app.nodup_matching db (stripQuery query) context.userId) hlimit.1 (t := t)
      (by rw [hround]; omega)).mp (by rw [hround]; omega)
    obtain ⟨c, hc⟩ := Option.ne_none_iff_exists'.mp hmore
    rw [hc, Option.map_some] at hread hrest
    refine ⟨shared'', hshared'', ?_⟩
    intro n
    cases n with
    | zero => rfl
    | succ n =>
      have htotal : t + 1 + k + 1 = t + (k + 1) + 1 := by omega
      simp only [walkClient, hpost, hstatus, hread, hrest, ne_eq, not_true, if_false, Except.map,
        htotal, Nat.succ_le_succ_iff]
      split
      · rw [Option.map_some]
        rfl
      · rfl

variable (isoformat authorization app) in
/-- **The client gets every matching row once, in id order, through the whole
application**: requests and responses in JSON, the token and the body checked every
time, and whatever fails in the audit trail.  It needs as many requests as there are
pages, and every page but the last is full. -/
theorem walkClient_complete (hint : ∀ n : ℤ, intOf (.int n) = .ok n)
    (hcontext : getAuthContext decode authorization = .ok context)
    (happ : .listing app ∈ context.strategies)
    (haccepts : ∀ s ∈ context.strategies, s.Accepts (stripQuery query) context.userId)
    (hquery : queryMinLength ≤ (stripQuery query).length ∧
      (stripQuery query).length ≤ queryMaxLength)
    (hlimit : 1 ≤ limit ∧ limit ≤ searchResultLimit)
    (hfaults : ∀ i, (faults i).withoutAudit = noFaults) (shared : Shared) :
    let rows := app.matching shared.database (stripQuery query) context.userId
    ∃ pages shared', shared'.database = shared.database ∧
      (∀ n, walkClient (post decode intOf isoformat faults authorization)
        (Strategy.listing app).appName query limit n none (0, shared) =
          .ok (if pageCount rows.length limit ≤ n then
            some (pages, (pageCount rows.length limit, shared')) else none)) ∧
      pages.length = pageCount rows.length limit ∧
      pages.flatten =
        (app.sortedById rows).map (fun row => app.itemJson isoformat (app.itemOfRow row)) ∧
      ∀ i page, pages[i]? = some page → i + 1 < pages.length → page.length = limit := by
  intro rows
  have hnodup := app.nodup_matching shared.database (stripQuery query) context.userId
  have hround : remaining app.id rows none = app.sortedById rows := Paginated.remaining_none rows
  have hlength : (remaining app.id rows none).length = rows.length := by
    rw [hround, Paginated.sortedById, List.length_insertionSort]
  have hpos := pageCount_pos rows.length limit
  obtain ⟨shared', hshared', hwalk⟩ := exists_walkClient_from isoformat hint hcontext
    happ haccepts hquery hlimit hfaults (k := pageCount rows.length limit - 1) (t := 0)
    (by rw [Nat.zero_add]; exact Nat.sub_add_cancel hpos) (rfl : shared.database = shared.database)
  have htotal : pageCount rows.length limit - 1 + 1 = pageCount rows.length limit := by omega
  simp only [Nat.zero_add, htotal] at hwalk
  refine ⟨_, shared', hshared', hwalk, by simp, ?_, ?_⟩
  · rw [← hround, ← flatMap_page_round hnodup hlimit.1, List.map_flatMap, ← List.flatMap_def,
      hlength, List.range_eq_range']
    rfl
  · intro i page hpage hi
    rw [List.getElem?_map, Option.map_eq_some_iff] at hpage
    obtain ⟨t, ht, rfl⟩ := hpage
    rw [List.length_map, List.length_range'] at hi
    obtain ⟨-, rfl⟩ := List.getElem?_eq_some_iff.mp ht
    rw [List.getElem_range', Nat.zero_add, Nat.one_mul, pageJson, List.length_map, page_items,
      remaining_cursorAt_of_lt hnodup hlimit.1 (by rw [hlength]; omega), List.length_take,
      List.length_drop, hlength]
    have hmore := (succ_lt_pageCount_iff (n := rows.length) hlimit.1).mp hi
    rw [Nat.succ_mul] at hmore
    omega

theorem walkClient_complete_small :
    let decode : String → Except JwtError Payload := fun _ => .ok .small
    let faults : ℕ → Faults := fun _ o =>
      match o with
      | .commit .getAuditDb => some (.operationalError "server closed the connection")
      | _ => none
    let rows := Paginated.investigator.matching .small "an" AuthContext.small.userId
    ∃ pages shared', shared'.database = .small ∧
      (∀ n, walkClient (post decode intOfInt (fun _ => "") faults (some "Bearer x")) "investigator"
        " an" 1 n none (0, { database := .small }) =
          .ok (if pageCount rows.length 1 ≤ n then
            some (pages, (pageCount rows.length 1, shared')) else none)) ∧
      pages.length = pageCount rows.length 1 ∧
      pages.flatten = (Paginated.investigator.sortedById rows).map (fun row =>
        Paginated.investigator.itemJson (fun _ => "") (Paginated.investigator.itemOfRow row)) ∧
      ∀ i page, pages[i]? = some page → i + 1 < pages.length → page.length = 1 := by
  intro decode faults
  have hcontext : getAuthContext decode (some "Bearer x") = .ok .small := by decide +kernel
  have hfaults : ∀ i, (faults i).withoutAudit = noFaults := by
    intro i
    funext o
    cases o <;> rfl
  exact walkClient_complete (fun _ => "") (some "Bearer x") .investigator
    (fun _ => rfl) hcontext (by decide +kernel)
    (fun s _ => ⟨by decide +kernel, fun app _ => by cases app <;> decide +kernel⟩)
    (by decide +kernel) (by decide) hfaults { database := .small }

end Client

end SnapSearch
