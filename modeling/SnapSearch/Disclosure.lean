import SnapSearch.Narrowing
import SnapSearch.Snapshots

/-!
# What a client gets to see

Whatever else goes on, the items of a response are rows that its user may find: rows of
the table at some moment of the request, of a searchable type or assigned to the user
of the token, with the term in their text; and their app is one that the token grants.

## Main definitions

* `AppSection.ShowsOnly` — a section shows nothing but what its user may find.

## Main results

* `Strategy.showsOnly_of_result` — a strategy shows nothing else.
* `showsOnly_of_visits` — **neither does any response, in any interleaving.**
-/

namespace SnapSearch

/-- A listing shows rows of the table that its user may find, and no more of them than a
page has. -/
def Paginated.ShowsOnly (app : Paginated) (db : Database) (query userId : String)
    (s : ListSection app.Item) : Prop :=
  s.items.length ≤ searchResultLimit ∧ ∀ item ∈ s.items, ∃ row ∈ (db.table app).rows,
    app.itemOfRow row = item ∧ app.InScope userId row ∧
      query.toList.map db.server.caseFold.fold <:+:
        (app.text row).toList.map db.server.caseFold.fold

/-- A section shows nothing but what its user may find: of the reports, how many match
in each month. -/
def AppSection.ShowsOnly (db : Database) (query userId : String) : AppSection → Prop
  | .analytics s => s.Partitions db.server
      (db.analyticsReports.rows.filter fun r => MatchesContent db.server query r)
  | .investigator s => Paginated.investigator.ShowsOnly db query userId s
  | .caseManager s => Paginated.caseManager.ShowsOnly db query userId s

/-- A page of the matching rows shows nothing else. -/
theorem Paginated.showsOnly_sectionOf (app : Paginated) (db : Database) (query userId : String)
    (cursor : Option Uuid) {limit : ℕ} (hlimit : limit ≤ searchResultLimit) :
    app.ShowsOnly db query userId
      (app.sectionOf (Keyset.page app.id (app.matching db query userId) cursor limit)) := by
  constructor
  · rw [sectionOf, List.length_map, Keyset.page_items]
    exact (List.length_take_le _ _).trans hlimit
  · intro item hitem
    rw [sectionOf, List.mem_map] at hitem
    obtain ⟨row, hrow, rfl⟩ := hitem
    rw [Keyset.page_items] at hrow
    have hmatch := (Keyset.mem_remaining.mp (List.mem_of_mem_take hrow)).1
    obtain ⟨hmem, hscope, htext⟩ := mem_matching_iff.mp hmatch
    exact ⟨row, hmem, rfl, hscope, htext⟩

/-- **A strategy shows nothing but what its user may find.** -/
theorem Strategy.showsOnly_of_result (s : Strategy) {db : Database} {query userId : String}
    {cursor : Option String} {limit : ℕ} (hlimit : limit ≤ searchResultLimit)
    {found : AppSection × ℕ}
    (h : s.result noFaults db .getDb query userId cursor limit = .ok found) :
    found.1.ShowsOnly db query userId := by
  obtain ⟨cursors, rfl⟩ := exists_eq_found h
  cases s with
  | analytics =>
    show (analyticsFound db query).1.Partitions _ _
    rw [← analyticsMatching_eq]
    exact partitions_analyticsSectionOf _ _
  | listing app =>
    have hshows := app.showsOnly_sectionOf db query userId (cursors app) hlimit
    cases app <;> exact hshows

section Runs

variable {decode : String → Except JwtError Payload} {intOf : Json → Except ErrorType ℤ}

/-- **No response shows anything but what the user of its token may find**, in any
interleaving of requests, whatever fails and whatever is written in between: a request
that is answered 200 had a verified token, every section belongs to an app whose own
client entry in it has the role `search`, and shows, as of one moment of the request's
run, nothing but what the token's user may find there for the term. -/
theorem showsOnly_of_visits {x : Shared × List Request} {visited : List Shared} {s : Shared}
    {ts : List Request} (hv : (searchSystem decode intOf).Visits x visited (s, ts)) {i : ℕ}
    (hi : x.2.length ≤ i) {th : Request} (hth : ts[i]? = some th) {response : SearchResponse}
    (hr : th.prog.result = some (.ok response)) :
    ∃ token payload, bearerToken th.tag.authorization = .ok token ∧
      decode token = .ok payload ∧ ∀ item ∈ response.results,
        item.1 ∈ grantedApps payload.resourceAccess ∧ ∃ moment ∈ visited,
          item.2.ShowsOnly moment.database response.query payload.sub := by
  obtain ⟨body, context, request, -, hcontext, -, moments, found, hsub, hfound, hmap, rfl⟩ :=
    exists_found_of_visits hv hi hth hr
  obtain ⟨token, payload, htoken, hdecode, hpayload⟩ := getAuthContext_eq_ok hcontext
  obtain ⟨huser, -, hperm⟩ := contextOf_eq_ok hpayload
  refine ⟨token, payload, htoken, hdecode, ?_⟩
  intro item hitem
  obtain ⟨f, hf, rfl⟩ := List.mem_map.mp hitem
  constructor
  · rw [← searchApps_eq_grantedApps hperm, ← hmap]
    exact List.mem_map_of_mem hf
  · obtain ⟨moment, hmoment, strategy, -, hresult⟩ := exists_of_forall₂_mem hfound hf
    refine ⟨moment, hsub.subset hmoment, ?_⟩
    rw [← huser]
    exact strategy.showsOnly_of_result request.max_limit hresult

/-- The cases are gone before the first request asks for them. -/
theorem showsOnly_of_visits_small :
    let decode : String → Except JwtError Payload := fun _ => .ok .small
    ∃ visited s ts th response token payload,
      searchTurns decode intOfInt ({ database := .small }, [])
        (twoRequests (Database.small.withTable .caseManager .empty))
          = some (visited, (s, ts)) ∧
      ts[0]? = some th ∧ th.prog.result = some (.ok response) ∧
      response.results.map Prod.fst = ["investigator", "case-manager"] ∧
      decode token = .ok payload ∧ ∀ item ∈ response.results,
        item.1 ∈ grantedApps payload.resourceAccess ∧ ∃ moment ∈ visited,
          item.2.ShowsOnly moment.database response.query payload.sub := by
  intro decode
  obtain ⟨visited, s, ts, th, response, hturns, hth, hresult, hkeys⟩ :=
    exists_of_searchTurns decode intOfInt { database := .small }
      (twoRequests (Database.small.withTable .caseManager .empty)) 0
      (fun _ response => response.results.map Prod.fst) ["investigator", "case-manager"]
      (by decide +kernel)
  obtain ⟨token, payload, -, hdecode, hall⟩ :=
    showsOnly_of_visits (visits_searchTurns hturns) (Nat.zero_le 0) hth hresult
  exact ⟨visited, s, ts, th, response, token, payload, hturns, hth, hresult, hkeys, hdecode, hall⟩

end Runs

end SnapSearch
