import SnapSearch.Isolation
import SnapSearch.Months
import SnapSearch.Progress

/-!
# Longer terms

A term that contains another, up to the case of the letters, finds no more than the
other does: not in a listing, followed page by page to its end, and not in a month of
the analytics.  And no other term can be relied on to: which terms find no more than
which is told by the terms alone.

## Main definitions

* `Paginated.text`, `Paginated.InScope` — what a search looks at in a row.
* `Strategy.Narrows` — on a database, one term finds no more than another.

## Main results

* `Paginated.mem_matching_iff` — a row matches by its scope and its text.
* `narrows_iff` — **a term finds no more than another on every database exactly where
  it contains the other.**
-/

namespace SnapSearch

open Keyset

/-! ### What a search looks at -/

namespace Paginated

/-- The text that is searched. -/
def text : (app : Paginated) → app.Row → String
  | investigator => InvestigatorEntity.name
  | caseManager => CaseManagerCase.title

/-- The rows a user may find at all. -/
def InScope (userId : String) : (app : Paginated) → app.Row → Prop
  | investigator, row => row.type ∈ searchableTypes
  | caseManager, row => Uuid.pgIn userId = some row.assignedTo

variable {app : Paginated} {db : Database} {query query' userId : String}

/-- **A row matches by its scope and its text.** -/
theorem mem_matching_iff {row : app.Row} : row ∈ app.matching db query userId ↔
    row ∈ (db.table app).rows ∧ app.InScope userId row ∧
      query.toList.map db.server.caseFold.fold <:+:
        (app.text row).toList.map db.server.caseFold.fold := by
  rw [matching, List.mem_filter, and_congr_right_iff]
  intro _
  cases app with
  | investigator =>
    rw [← Condition.holds_ilike_likePattern]
    simp only [conditions, investigatorConditions, Condition.holdsAll, List.all_cons, List.all_nil,
      Bool.and_true, Bool.and_eq_true]
    exact and_congr_left fun _ => decide_eq_true_iff
  | caseManager =>
    rw [← Condition.holds_ilike_likePattern]
    simp only [conditions, caseManagerConditions, Condition.holdsAll, List.all_cons, List.all_nil,
      Bool.and_true, Bool.and_eq_true]
    exact and_congr_left fun _ => decide_eq_true_iff

/-- The listing of a longer term is part of the listing of the shorter one. -/
theorem sortedById_sublist
    (h : query.toList.map db.server.caseFold.fold <:+: query'.toList.map db.server.caseFold.fold) :
    (app.sortedById (app.matching db query' userId)).Sublist
      (app.sortedById (app.matching db query userId)) := by
  classical
  -- both are sorted, so the rows that match the longer term are a filtered listing
  have hfilter : app.sortedById (app.matching db query' userId) =
      (app.sortedById (app.matching db query userId)).filter
        fun row => row ∈ app.matching db query' userId := by
    rw [← remaining_none, ← remaining_none]
    apply eq_of_pairwise_of_mem_iff (pairwise_remaining (app.nodup_matching db query' userId) none)
      ((pairwise_remaining (app.nodup_matching db query userId) none).filter _)
    intro row
    simp only [mem_remaining, List.mem_filter, decide_eq_true_eq, above_none, and_true]
    refine ⟨fun hrow => ⟨?_, hrow⟩, And.right⟩
    obtain ⟨hmem, hscope, htext⟩ := mem_matching_iff.mp hrow
    exact mem_matching_iff.mpr ⟨hmem, hscope, h.trans htext⟩
  rw [hfilter]
  exact List.filter_sublist

/-- A walk over a database that has ended has given its listing. -/
theorem items_of_finished {limits : List ℕ} (hlimits : ∀ limit ∈ limits, 1 ≤ limit)
    {pages : List (ListSection app.Item)} (h : app.Accepts query userId)
    (hwalk : walkFrom (app.fetch query userId) none (limits.map fun limit => (db, limit)) =
      .ok (pages, .finished)) :
    pages.flatMap ListSection.items =
      (app.sortedById (app.matching db query userId)).map app.itemOfRow := by
  have hstates : ∀ s ∈ limits.map fun limit => (db, limit), s.1 = db ∧ 1 ≤ s.2 := by
    simpa using hlimits
  have hpages := walkFrom_fetch h (fun s hs => (hstates s hs).2) none
  rw [Option.map_none, hwalk] at hpages
  obtain ⟨rfl, hpos⟩ := Prod.mk.inj (Except.ok.inj hpages)
  -- every request reads the same rows, so the walk is at the front of one listing
  have hreached : ∀ s ∈ (limits.map fun limit => (db, limit)).head?,
      Reached app.id (app.matching s.1 query userId) none 0 := fun _ _ => rfl
  have hfront := atFront_walk (fun s _ => app.nodup_matching s.1 query userId)
    (fun s hs => (hstates s hs).2)
    (List.pairwise_of_forall_mem_list fun s hs s' hs' => by
      rw [(hstates s hs).1, (hstates s' hs').1])
    hreached
  obtain ⟨s, hs, -, hitems⟩ := hfront.of_finished (map_eq_finished_iff.mp hpos.symm)
  rw [flatMap_items_sectionOf, hitems, (hstates s (List.mem_of_getElem? hs)).1, remaining_none]
  rfl

/-- One request for more rows than there are is a walk that has ended. -/
theorem walkFrom_of_length_le {limit : ℕ} (hlimit : 1 ≤ limit) (h : app.Accepts query userId)
    (hle : (app.matching db query userId).length ≤ limit) :
    ∃ pages, walkFrom (app.fetch query userId) none ([limit].map fun limit => (db, limit)) =
      .ok (pages, .finished) := by
  have hlisting : (remaining app.id (app.matching db query userId) none).length ≤ limit := by
    rw [remaining_none]
    exact (List.perm_insertionSort _ _).length_eq.trans_le hle
  have hnone := (page_next_eq_none_iff hlimit).mpr hlisting
  refine ⟨[app.sectionOf (page app.id (app.matching db query userId) none limit)], ?_⟩
  rw [List.map_singleton, walkFrom, ← Option.map_none Uuid.str, fetch_str h hlimit]
  simp [sectionOf, hnone]

end Paginated

/-! ### The two terms -/

/-- On a database, the second term finds no more than the first: in a listing that a
client follows to its end, or in any month that is counted. -/
def Strategy.Narrows (db : Database) (query query' userId : String) : Strategy → Prop
  | .analytics => ∀ limit limit' found found',
      (analyticsSearch .getDb query userId none limit).runOn db = .ok found →
      (analyticsSearch .getDb query' userId none limit').runOn db = .ok found' →
      found'.1.totalMatched ≤ found.1.totalMatched ∧
        ∀ month count', (month, count') ∈ found'.1.byMonth →
          ∃ count, (month, count) ∈ found.1.byMonth ∧ count' ≤ count
  | .listing app => ∀ limits limits' : List ℕ, (∀ limit ∈ limits, 1 ≤ limit) →
      (∀ limit ∈ limits', 1 ≤ limit) → ∀ pages pages',
      walkFrom (app.fetch query userId) none (limits.map fun limit => (db, limit)) =
        .ok (pages, .finished) →
      walkFrom (app.fetch query' userId) none (limits'.map fun limit => (db, limit)) =
        .ok (pages', .finished) →
      (pages'.flatMap ListSection.items).Sublist (pages.flatMap ListSection.items)

section Terms

variable {db : Database} {query query' userId : String}

/-- A longer term matches fewer reports. -/
theorem analyticsMatching_sublist
    (h : query.toList.map db.server.caseFold.fold <:+: query'.toList.map db.server.caseFold.fold) :
    (analyticsMatching db query').Sublist (analyticsMatching db query) := by
  rw [analyticsMatching_eq, analyticsMatching_eq]
  apply List.monotone_filter_right
  intro r hr
  rw [decide_eq_true_eq] at hr ⊢
  exact h.trans hr

/-- **A term that contains another finds no more.** -/
theorem Strategy.narrows_of_contains (s : Strategy) (hquery : s.Accepts query userId)
    (hquery' : s.Accepts query' userId)
    (h : query.toList.map db.server.caseFold.fold <:+: query'.toList.map db.server.caseFold.fold) :
    s.Narrows db query query' userId := by
  cases s with
  | analytics =>
    intro limit limit' found found' hfound hfound'
    rw [runOn_analyticsSearch] at hfound hfound'
    obtain ⟨-, rfl⟩ := (analyticsOf_eq_ok_iff db).mp hfound
    obtain ⟨-, rfl⟩ := (analyticsOf_eq_ok_iff db).mp hfound'
    have hsub := analyticsMatching_sublist h
    have hparts := partitions_analyticsSectionOf db.server (analyticsMatching db query)
    have hparts' := partitions_analyticsSectionOf db.server (analyticsMatching db query')
    refine ⟨?_, ?_⟩
    · rw [analyticsFound, analyticsFound, hparts.total, hparts'.total]
      exact hsub.length_le
    · intro month count' hmem'
      obtain ⟨r, hr, hmonth⟩ := (hparts'.keys month).mp (List.mem_map_of_mem hmem')
      obtain ⟨⟨_, count⟩, hmem, rfl⟩ :=
        List.mem_map.mp ((hparts.keys month).mpr ⟨r, hsub.subset hr, hmonth⟩)
      refine ⟨count, hmem, ?_⟩
      rw [(hparts'.counts _ _ hmem').2, (hparts.counts _ _ hmem).2]
      exact hsub.countP_le
  | listing app =>
    intro limits limits' hlimits hlimits' pages pages' hwalk hwalk'
    rw [Paginated.items_of_finished hlimits (hquery.2 app rfl) hwalk,
      Paginated.items_of_finished hlimits' (hquery'.2 app rfl) hwalk']
    exact (Paginated.sortedById_sublist h).map _

/-! ### Telling terms apart -/

/-- A row with a text. -/
def Paginated.rowOf (owner : Uuid) (text : String) : (app : Paginated) → app.Row
  | .investigator => ⟨owner, "pessoa", text, [], ⟨0⟩⟩
  | .caseManager => ⟨owner, text, owner, "aberto", ⟨0⟩⟩

/-- The database of one text: a row of each kind has it. -/
def Database.ofText (server : Server) (owner : Uuid) (text : String) : Database where
  server
  analyticsReports := ⟨[⟨owner, text, text, ⟨0⟩⟩], List.nodup_singleton _⟩
  investigatorEntities := ⟨[Paginated.investigator.rowOf owner text], List.nodup_singleton _⟩
  caseManagerCases := ⟨[Paginated.caseManager.rowOf owner text], List.nodup_singleton _⟩

theorem Paginated.mem_matching_ofText {app : Paginated} {server : Server} {owner : Uuid}
    {text : String} {row : app.Row}
    (hscope : app = .caseManager → Uuid.pgIn userId = some owner) :
    row ∈ app.matching (.ofText server owner text) query userId ↔ row = app.rowOf owner text ∧
      query.toList.map server.caseFold.fold <:+: text.toList.map server.caseFold.fold := by
  rw [mem_matching_iff]
  cases app with
  | investigator =>
    refine (and_congr_left fun _ => List.mem_singleton).trans (and_congr_right ?_)
    rintro rfl
    exact and_iff_right (show "pessoa" ∈ searchableTypes by decide)
  | caseManager =>
    refine (and_congr_left fun _ => List.mem_singleton).trans (and_congr_right ?_)
    rintro rfl
    exact and_iff_right (hscope rfl)

/-- On the database of its own text, a term that finds no more than another contains
it. -/
theorem Strategy.contains_of_narrows (s : Strategy) (hquery : s.Accepts query userId)
    (hquery' : s.Accepts query' userId) {server : Server} {owner : Uuid}
    (hscope : s = .listing .caseManager → Uuid.pgIn userId = some owner)
    (h : s.Narrows (.ofText server owner query') query query' userId) :
    query.toList.map server.caseFold.fold <:+: query'.toList.map server.caseFold.fold := by
  cases s with
  | analytics =>
    have hfound := (analyticsOf_eq_ok_iff (.ofText server owner query')).mpr ⟨hquery.1, rfl⟩
    have hfound' := (analyticsOf_eq_ok_iff (.ofText server owner query')).mpr ⟨hquery'.1, rfl⟩
    rw [← runOn_analyticsSearch _ .getDb _ userId 1] at hfound hfound'
    have hle := (h 1 1 _ _ hfound hfound').1
    rw [analyticsFound, analyticsFound, (partitions_analyticsSectionOf _ _).total,
      (partitions_analyticsSectionOf _ _).total, analyticsMatching_eq, analyticsMatching_eq] at hle
    by_contra hnot
    have hself : MatchesContent server query' ⟨owner, query', query', ⟨0⟩⟩ := List.infix_rfl
    have hother : ¬MatchesContent server query ⟨owner, query', query', ⟨0⟩⟩ := hnot
    simp [Database.ofText, hself, hother] at hle
  | listing app =>
    have hscope' : app = .caseManager → Uuid.pgIn userId = some owner := by
      rintro rfl
      exact hscope rfl
    have hone : ∀ q, (app.matching (.ofText server owner query') q userId).length ≤ 1 := by
      intro q
      refine (List.length_filter_le _ _).trans ?_
      cases app <;> exact le_rfl
    obtain ⟨pages, hwalk⟩ :=
      Paginated.walkFrom_of_length_le le_rfl (hquery.2 app rfl) (hone query)
    obtain ⟨pages', hwalk'⟩ :=
      Paginated.walkFrom_of_length_le le_rfl (hquery'.2 app rfl) (hone query')
    have hsub := h [1] [1] (by simp) (by simp) pages pages' hwalk hwalk'
    rw [Paginated.items_of_finished (by simp) (hquery.2 app rfl) hwalk,
      Paginated.items_of_finished (by simp) (hquery'.2 app rfl) hwalk'] at hsub
    -- the row matches its own text, so the other term lists it as well
    have hrow : app.rowOf owner query' ∈ app.matching (.ofText server owner query') query' userId :=
      (Paginated.mem_matching_ofText hscope').mpr ⟨rfl, List.infix_rfl⟩
    have hitem := hsub.subset (List.mem_map_of_mem ((List.mem_insertionSort _).mpr hrow))
    obtain ⟨row, hmem, -⟩ := List.mem_map.mp hitem
    exact ((Paginated.mem_matching_ofText hscope').mp ((List.mem_insertionSort _).mp hmem)).2

/-- **A term finds no more than another on every database exactly where it contains the
other**, up to the case of the letters: in both listings, followed page by page with
any limits, and in the analytics. -/
theorem narrows_iff (server : Server) (s : Strategy) (hquery : s.Accepts query userId)
    (hquery' : s.Accepts query' userId) :
    (∀ db, db.server = server → s.Narrows db query query' userId) ↔
      query.toList.map server.caseFold.fold <:+: query'.toList.map server.caseFold.fold := by
  constructor
  · intro h
    have hscope : ∃ owner, s = .listing .caseManager → Uuid.pgIn userId = some owner := by
      by_cases hs : s = .listing .caseManager
      · obtain ⟨owner, howner⟩ := Option.isSome_iff_exists.mp ((hquery.2 _ hs).2 rfl)
        exact ⟨owner, fun _ => howner⟩
      · exact ⟨⟨0, by decide⟩, fun h => absurd h hs⟩
    obtain ⟨owner, howner⟩ := hscope
    exact s.contains_of_narrows hquery hquery' howner (h (.ofText server owner query') rfl)
  · rintro h db rfl
    exact s.narrows_of_contains hquery hquery' h

theorem narrows_iff_small :
    (Strategy.listing .investigator).Narrows .small "an" "ANDR" "" ∧
      ¬∀ db, db.server = Server.posix →
        (Strategy.listing .investigator).Narrows db "andr" "an" "" := by
  have haccepts : ∀ query, Storable query →
      (Strategy.listing .investigator).Accepts query "" := by
    intro query h
    refine ⟨h, ?_⟩
    rintro app ⟨⟩
    exact ⟨h, nofun⟩
  have han := haccepts "an" (by decide)
  have hlonger := narrows_iff .posix _ han (haccepts "ANDR" (by decide))
  have hshorter := narrows_iff .posix _ (haccepts "andr" (by decide)) han
  refine ⟨hlonger.mpr (by decide +kernel) .small rfl, ?_⟩
  intro h
  exact absurd (hshorter.mp h) (by decide +kernel)

end Terms

end SnapSearch
