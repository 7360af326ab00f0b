import SnapSearch.Wire

/-!
# Requests and responses as they are sent

A request can be written out again as a body, and a response is written out as JSON.
Neither loses anything: the body of a request is read as that request, and a response
can be told from its JSON, once every section is under the name of its app.

## Main definitions

* `SearchRequest.modelDump` — a request as a body.
* `SearchResponse.Keyed` — every section is under the name of its app.

## Main results

* `exists_validate_iff` — **the requests that bodies mean are the ones with a stripped
  query, and the endpoint does with a body what it does with the request written out.**
* `ok_iff_of_respond_eq` — **who sees the same answer twice was given the same response
  twice**, in whatever runs.
-/

namespace SnapSearch

/-! ### Requests -/

/-- `request.model_dump()`: the fields in their order. -/
def SearchRequest.modelDump (request : SearchRequest) : Json :=
  .obj [("query", .str request.query), ("limit", .int request.limit),
    ("cursors",
      match request.cursors with
      | none => .null
      | some cursors => .obj (cursors.map fun (appName, cursor) => (appName, .str cursor)))]

@[ext]
theorem SearchRequest.ext {r r' : SearchRequest} (hquery : r.query = r'.query)
    (hlimit : r.limit = r'.limit) (hcursors : r.cursors = r'.cursors) : r = r' := by
  cases r
  cases r'
  cases hquery
  cases hlimit
  cases hcursors
  rfl

theorem stripQuery_stripQuery (query : String) :
    stripQuery (stripQuery query) = stripQuery query := by
  rw [stripQuery, stripQuery, String.toList_ofList, PyStr.strip_strip]

/-- Texts are read as texts. -/
theorem textItems_map_str (items : List (String × String)) :
    textItems (items.map fun (key, value) => (key, .str value)) = ([], items) := by
  induction items with
  | nil => rfl
  | cons item items ih => simp [textItems, ih]

/-- An accepted query is stripped. -/
theorem stripQuery_of_validateQuery {members : List (String × Json)} {query : String}
    (h : validateQuery members = .ok query) : stripQuery query = query := by
  unfold validateQuery at h
  split at h
  · cases h
  · dsimp only at h
    split at h
    · cases h
    · split at h
      · cases h
      · cases h
        exact stripQuery_stripQuery _
  · cases h

section Requests

variable {intOf : Json → Except ErrorType ℤ}

theorem stripQuery_of_validate {body : Json} {request : SearchRequest}
    (h : SearchRequest.validate intOf body = .ok request) :
    stripQuery request.query = request.query := by
  cases body with
  | obj members =>
    simp only [SearchRequest.validate] at h
    split at h
    · next hq _ _ =>
      cases h
      exact stripQuery_of_validateQuery hq
    · cases h
    · cases h
  | _ => cases h

/-- **A request that is written out is read as it was.** -/
theorem validate_modelDump (hint : ∀ n : ℤ, intOf (.int n) = .ok n) {request : SearchRequest}
    (hstrip : stripQuery request.query = request.query) :
    SearchRequest.validate intOf request.modelDump = .ok request := by
  have hq : ∀ rest, validateQuery (("query", .str request.query) :: rest) = .ok request.query := by
    intro rest
    have hbounds : queryMinLength ≤ (stripQuery request.query).length ∧
        (stripQuery request.query).length ≤ queryMaxLength := by
      rw [hstrip]
      exact ⟨request.min_query, request.max_query⟩
    have hstripped : validateQuery (("query", .str request.query) :: rest) =
        .ok (stripQuery request.query) := validateQuery_of_lookup (by simp) hbounds
    rw [hstripped, hstrip]
  have hl : ∀ q rest, validateLimit intOf (("query", q) :: ("limit", .int request.limit) :: rest) =
      .ok request.limit := by
    intro q rest
    exact validateLimit_of_lookup hint (by simp [List.lookup_cons])
      ⟨request.min_limit, request.max_limit⟩
  have hc : ∀ q l, validateCursors [("query", q), ("limit", l), ("cursors",
      match request.cursors with
      | none => .null
      | some cursors => .obj (cursors.map fun (appName, cursor) => (appName, .str cursor)))] =
        .ok request.cursors := by
    intro q l
    have hok := request.cursors_ok
    cases hcursors : request.cursors with
    | none => simp [validateCursors, List.lookup_cons]
    | some cursors =>
      rw [hcursors] at hok
      simp [validateCursors, List.lookup_cons, textItems_map_str, hok]
  obtain ⟨request', hvalidate, hquery, hlimit, hcursors⟩ :=
    exists_validate_eq_ok (hq _) (hl _ _) (hc _ _)
  rw [SearchRequest.modelDump, hvalidate, SearchRequest.ext hquery hlimit hcursors]

/-- **The requests that bodies mean** are the ones whose query is stripped: such a request
is read from the body that spells it out, and whatever body it was read from, the
endpoint does with that body what it does with the one that spells it out. -/
theorem exists_validate_iff (hint : ∀ n : ℤ, intOf (.int n) = .ok n) (request : SearchRequest) :
    ((∃ body, SearchRequest.validate intOf body = .ok request) ↔
      stripQuery request.query = request.query) ∧
    ∀ body, SearchRequest.validate intOf body = .ok request →
      SearchRequest.validate intOf request.modelDump = .ok request ∧
        ∀ decode authorization, search decode intOf { authorization, body := .ok body } =
          search decode intOf { authorization, body := .ok request.modelDump } := by
  refine ⟨⟨?_, fun hstrip => ⟨_, validate_modelDump hint hstrip⟩⟩, ?_⟩
  · rintro ⟨body, hvalidate⟩
    exact stripQuery_of_validate hvalidate
  · intro body hvalidate
    have hdump := validate_modelDump hint (stripQuery_of_validate hvalidate)
    refine ⟨hdump, ?_⟩
    intro decode authorization
    simp [search, Except.mapError, Prog.bind, hvalidate, hdump]

theorem exists_validate_iff_small :
    let body : Json := .obj [("limit", .int 1), ("query", .str " an ")]
    SearchRequest.validate intOfInt body = .ok .small ∧
      SearchRequest.validate intOfInt SearchRequest.small.modelDump = .ok .small ∧
      search (fun _ => .ok .small) intOfInt { authorization := some "Bearer t", body := .ok body } =
        search (fun _ => .ok .small) intOfInt
          { authorization := some "Bearer t", body := .ok SearchRequest.small.modelDump } := by
  intro body
  have hvalidate : SearchRequest.validate intOfInt body = .ok .small := rfl
  obtain ⟨hdump, hsearch⟩ := (exists_validate_iff (fun _ => rfl) .small).2 body hvalidate
  exact ⟨hvalidate, hdump, hsearch _ _⟩

end Requests

/-! ### Responses -/

/-- The strategy that a section comes from. -/
def AppSection.strategy : AppSection → Strategy
  | .analytics _ => .analytics
  | .investigator _ => .listing .investigator
  | .caseManager _ => .listing .caseManager

/-- Every section is under the name of its app. -/
def SearchResponse.Keyed (response : SearchResponse) : Prop :=
  ∀ item ∈ response.results, item.1 = item.2.strategy.appName

/-- What a strategy finds is a section of its own. -/
theorem Strategy.strategy_of_result (s : Strategy) {db : Database} {session : Conn}
    {query userId : String} {cursor : Option String} {limit : ℕ} {found : AppSection × ℕ}
    (h : s.result noFaults db session query userId cursor limit = .ok found) :
    found.1.strategy = s := by
  obtain ⟨cursors, rfl⟩ := exists_eq_found h
  cases s with
  | analytics => rfl
  | listing app => cases app <;> rfl

theorem Json.ofText_injective : Function.Injective Json.ofText := by
  intro a b h
  cases a with
  | none =>
    cases b with
    | none => rfl
    | some _ => cases h
  | some _ =>
    cases b with
    | none => cases h
    | some _ =>
      cases h
      rfl

/-- Lists that are mapped alike are the same, where the elements are. -/
theorem eq_of_map_eq_map {α β : Type} {f g : α → β} (hfg : ∀ a b, f a = g b → a = b)
    {l l' : List α} (h : l.map f = l'.map g) : l = l' := by
  rw [← List.forall₂_eq_eq_eq, List.forall₂_map_left_iff, List.forall₂_map_right_iff] at h
  rw [← List.forall₂_eq_eq_eq]
  exact h.imp hfg

section Render

-- sessions in two time zones spell one instant in two ways, but no spelling means two
variable {isoformat isoformat' : Timestamp → String}
  (hiso : ∀ t t', isoformat t = isoformat' t' → t = t')

include hiso

theorem Paginated.eq_of_itemJson_eq (app : Paginated) {a b : app.Item}
    (h : app.itemJson isoformat a = app.itemJson isoformat' b) : a = b := by
  cases app with
  | investigator =>
    obtain ⟨id, type, name, data, createdAt⟩ := a
    obtain ⟨id', type', name', data', createdAt'⟩ := b
    simp only [itemJson, Json.obj.injEq, List.cons.injEq, Prod.mk.injEq, Json.str.injEq, true_and,
      and_true] at h
    obtain ⟨hid, rfl, rfl, rfl, hcreated⟩ := h
    rw [Uuid.str_injective hid, hiso _ _ hcreated]
  | caseManager =>
    obtain ⟨id, title, assignedTo, status, createdAt⟩ := a
    obtain ⟨id', title', assignedTo', status', createdAt'⟩ := b
    simp only [itemJson, Json.obj.injEq, List.cons.injEq, Prod.mk.injEq, Json.str.injEq, true_and,
      and_true] at h
    obtain ⟨hid, rfl, hassigned, rfl, hcreated⟩ := h
    rw [Uuid.str_injective hid, Uuid.str_injective hassigned, hiso _ _ hcreated]

theorem Paginated.eq_of_sectionJson_eq (app : Paginated) {a b : ListSection app.Item}
    (h : app.sectionJson isoformat a = app.sectionJson isoformat' b) : a = b := by
  obtain ⟨items, nextCursor⟩ := a
  obtain ⟨items', nextCursor'⟩ := b
  simp only [sectionJson, Json.obj.injEq, List.cons.injEq, Prod.mk.injEq, Json.arr.injEq, true_and,
    and_true] at h
  rw [eq_of_map_eq_map (fun _ _ => app.eq_of_itemJson_eq hiso) h.1, Json.ofText_injective h.2]

/-- Two sections of one strategy that are written alike are the same. -/
theorem AppSection.eq_of_toJson_eq {a b : AppSection} (hstrategy : a.strategy = b.strategy)
    (h : a.toJson isoformat = b.toJson isoformat') : a = b := by
  cases a with
  | analytics s =>
    cases b with
    | analytics s' =>
      obtain ⟨total, months⟩ := s
      obtain ⟨total', months'⟩ := s'
      simp only [toJson, Json.obj.injEq, List.cons.injEq, Prod.mk.injEq, Json.int.injEq, true_and,
        and_true, Nat.cast_inj] at h
      obtain ⟨rfl, hmonths⟩ := h
      have hinj : Function.Injective fun item : String × ℕ => (item.1, Json.int item.2) := by
        intro x y hxy
        rw [Prod.mk.injEq, Json.int.injEq, Nat.cast_inj] at hxy
        exact Prod.ext hxy.1 hxy.2
      rw [List.map_injective_iff.mpr hinj hmonths]
    | _ => cases hstrategy
  | investigator s =>
    cases b with
    | investigator s' => rw [Paginated.investigator.eq_of_sectionJson_eq hiso h]
    | _ => cases hstrategy
  | caseManager s =>
    cases b with
    | caseManager s' => rw [Paginated.caseManager.eq_of_sectionJson_eq hiso h]
    | _ => cases hstrategy

/-- **A response can be told from its JSON**, once its sections are under the names of
their apps. -/
theorem SearchResponse.eq_of_toJson_eq {a b : SearchResponse} (ha : a.Keyed) (hb : b.Keyed)
    (h : a.toJson isoformat = b.toJson isoformat') : a = b := by
  obtain ⟨query, apps, results⟩ := a
  obtain ⟨query', apps', results'⟩ := b
  simp only [toJson, Json.obj.injEq, List.cons.injEq, Prod.mk.injEq, Json.str.injEq, Json.arr.injEq,
    true_and, and_true] at h
  obtain ⟨rfl, happs, hresults⟩ := h
  have hstr : Function.Injective Json.str := fun _ _ => Json.str.inj
  rw [List.map_injective_iff.mpr hstr happs]
  congr 1
  -- section by section: one name is the name of one app
  induction results generalizing results' with
  | nil =>
    cases results' with
    | nil => rfl
    | cons item' results' => cases hresults
  | cons item results ih =>
    cases results' with
    | nil => cases hresults
    | cons item' results' =>
      obtain ⟨appName, s⟩ := item
      obtain ⟨appName', s'⟩ := item'
      rw [List.map_cons, List.map_cons, List.cons.injEq, Prod.mk.injEq] at hresults
      obtain ⟨⟨rfl, hjson⟩, hrest⟩ := hresults
      have hname : s.strategy.appName = s'.strategy.appName :=
        (ha _ (List.mem_cons_self ..)).symm.trans (hb _ (List.mem_cons_self ..))
      rw [AppSection.eq_of_toJson_eq hiso (Strategy.appName_injective hname) hjson,
        ih (fun f hf => ha f (List.mem_cons_of_mem _ hf)) results'
          (fun f hf => hb f (List.mem_cons_of_mem _ hf)) hrest]

end Render

/-- No error has the body of a response. -/
theorem body_error_ne (isoformat isoformat' : Timestamp → String) (e : Exn)
    (response : SearchResponse) :
    (respond isoformat (.error e)).body ≠ some (response.toJson isoformat') := by
  intro h
  cases e <;> simp [respond, SearchResponse.toJson] at h

/-! ### Answers -/

/-- A result that a request may end with: some run has a request that did. -/
def MayEnd (decode : String → Except JwtError Payload) (intOf : Json → Except ErrorType ℤ)
    (r : Except Exn SearchResponse) : Prop :=
  ∃ x visited s ts i th, (searchSystem decode intOf).Visits x visited (s, ts) ∧
    x.2.length ≤ i ∧ ts[i]? = some th ∧ th.prog.result = some r

section Answers

variable {decode decode' : String → Except JwtError Payload}
  {intOf intOf' : Json → Except ErrorType ℤ}

/-- Every response that is given is under the names of its apps. -/
theorem MayEnd.keyed {response : SearchResponse} (h : MayEnd decode intOf (.ok response)) :
    response.Keyed := by
  obtain ⟨x, visited, s, ts, i, th, hv, hi, hth, hr⟩ := h
  obtain ⟨_, _, request, -, -, -, moments, found, -, hfound, -, rfl⟩ :=
    exists_found_of_visits hv hi hth hr
  intro item hitem
  obtain ⟨f, hf, rfl⟩ := List.mem_map.mp hitem
  obtain ⟨moment, -, strategy, happ, hresult⟩ := exists_of_forall₂_mem hfound hf
  rw [strategy.strategy_of_result hresult]
  exact happ

/-- **Who sees the same answer twice was given the same response twice**: two requests,
of whatever runs, that are answered with one status and one body either both fail, or
end with one and the same response.  The sessions of the two may be in different time
zones, where an instant is spelt in two ways, as long as no spelling means two. -/
theorem ok_iff_of_respond_eq {isoformat isoformat' : Timestamp → String}
    (hiso : ∀ t t', isoformat t = isoformat' t' → t = t') {r r' : Except Exn SearchResponse}
    (hr : MayEnd decode intOf r) (hr' : MayEnd decode' intOf' r')
    (h : respond isoformat r = respond isoformat' r') (response : SearchResponse) :
    r = .ok response ↔ r' = .ok response := by
  have hbody := congrArg HttpResponse.body h
  cases r with
  | ok a =>
    cases r' with
    | ok b =>
      rw [SearchResponse.eq_of_toJson_eq hiso hr.keyed hr'.keyed (Option.some.inj hbody)]
    | error e => exact absurd hbody.symm (body_error_ne isoformat' isoformat e a)
  | error e =>
    cases r' with
    | ok b => exact absurd hbody (body_error_ne isoformat isoformat' e b)
    | error e' => exact iff_of_false nofun nofun

/-- What a request gives when it runs alone, it may end with. -/
theorem mayEnd_runWith (decode : String → Except JwtError Payload)
    (intOf : Json → Except ErrorType ℤ) (r : HttpRequest) (s : Shared) :
    MayEnd decode intOf ((search decode intOf r).runWith noFaults (s, {})).1 := by
  obtain ⟨history, visited, hvisits, -⟩ := exists_visits_runWith decode intOf r s []
  exact ⟨_, _, _, _, _, _, hvisits, Nat.zero_le 0, rfl, Prog.result_ofExcept _⟩

/-- The instant of the small database as it is written, any other one in a spelling of
its own. -/
def Timestamp.isoformatSmall (t : Timestamp) : String :=
  if t = ⟨1769904000000000⟩ then "2026-02-01T00:00:00Z"
  else String.ofList (List.replicate (2 * t.micros.natAbs + if t.micros < 0 then 1 else 0) '0')

theorem Timestamp.isoformatSmall_injective : Function.Injective isoformatSmall := by
  have hother : ∀ n, String.ofList (List.replicate n '0') ≠ "2026-02-01T00:00:00Z" := by
    intro n h
    have hmem : '2' ∈ List.replicate n '0' := by
      rw [String.ofList_eq.mp h]
      decide
    exact absurd (List.eq_of_mem_replicate hmem) (by decide)
  intro t t' h
  unfold isoformatSmall at h
  by_cases ht : t = ⟨1769904000000000⟩
  · by_cases ht' : t' = ⟨1769904000000000⟩
    · rw [ht, ht']
    · rw [if_pos ht, if_neg ht'] at h
      exact absurd h.symm (hother _)
  · by_cases ht' : t' = ⟨1769904000000000⟩
    · rw [if_neg ht, if_pos ht'] at h
      exact absurd h (hother _)
    · rw [if_neg ht, if_neg ht'] at h
      have hlength := congrArg List.length (String.ofList_injective h)
      rw [List.length_replicate, List.length_replicate] at hlength
      apply Timestamp.ext
      split at hlength <;> split at hlength <;> omega

theorem ok_iff_of_respond_eq_small :
    let decode : String → Except JwtError Payload := fun _ => .ok .small
    let run := (search decode intOfInt .small).runWith noFaults ({ database := .small }, {})
    let run' := (search decode intOfInt { HttpRequest.small with
      body := .ok (.obj [("query", .str " an")]) }).runWith noFaults ({ database := .small }, {})
    ∃ response, run.1 = .ok response ∧ run'.1 = .ok response := by
  intro decode run run'
  obtain ⟨response, hrun⟩ := exists_eq_ok_of_isOk (x := run.1) (by decide +kernel)
  have hrespond : respond Timestamp.isoformatSmall run.1 =
      respond Timestamp.isoformatSmall run'.1 := rfl
  exact ⟨response, hrun, (ok_iff_of_respond_eq (fun _ _ h => Timestamp.isoformatSmall_injective h)
    (mayEnd_runWith _ _ _ _) (mayEnd_runWith _ _ _ _) hrespond response).mp hrun⟩

end Answers

end SnapSearch
