import SnapSearch.Strategies

/-!
# Walking a section page by page

A client asks for a section without a cursor first, and then with the
`next_cursor` of the last response until there is none.  The cursor it holds is a
text; the strategy reads it back as the UUID of the last row returned.

## Main definitions

* `walkFrom` — the client.
* `Paginated.fetch` — one request of it: the strategy alone on a database.

## Main results

* `fetch_str` — a request answers with a keyset page.
* `walk_complete_of_unchanged` — **a walk over an unchanging table returns every
  matching row once, in id order.**
* `walk_of_concurrent_writes` — **whatever is written between two requests, no row
  is repeated and no persistent row is lost.**
-/

namespace SnapSearch

open Keyset

/-! ### The client -/

/-- Follow the cursors through a list of what each request meets, until a
response announces no next page. -/
def walkFrom {ι σ : Type} (fetch : Option String → σ → Except Exn (ListSection ι)) :
    Option String → List σ → Except Exn (List (ListSection ι) × Position String)
  | cursor, [] => .ok ([], .resume cursor)
  | cursor, s :: ss =>
      match fetch cursor s with
      | .error e => .error e
      | .ok section_ =>
          match section_.nextCursor with
          | none => .ok ([section_], .finished)
          | some c => (walkFrom fetch (some c) ss).map fun walk => (section_ :: walk.1, walk.2)

namespace Paginated

variable (app : Paginated)

/-- One request for the section of an app: its strategy alone on a database. -/
def fetch (query userId : String) (cursor : Option String) (s : Database × ℕ) :
    Except Exn (ListSection app.Item) :=
  ((app.search .getDb query userId cursor s.2).runOn s.1).map Prod.fst

variable {app} {query userId : String}

/-- A request is refused where the database does not accept its values. -/
theorem fetch_none_of_not_accepts (h : ¬app.Accepts query userId) {s : Database × ℕ}
    (hlimit : 1 ≤ s.2) : ∃ e, app.fetch query userId none s = .error e := by
  simp only [fetch, Py.runOn]
  rw [app.run_search _ _ .getDb query userId none hlimit]
  simp only [cursorId, noFaults]
  cases hof : app.pageOf s.1 query userId none s.2 with
  | ok v => exact absurd ((pageOf_eq_ok_iff _ _ _).mp hof).1 h
  | error e => exact ⟨e, rfl⟩

/-- **A request answers with a keyset page**: the cursor that the client holds
denotes the row it stands for. -/
theorem fetch_str (h : app.Accepts query userId) {s : Database × ℕ} (hlimit : 1 ≤ s.2)
    (cursor : Option Uuid) :
    app.fetch query userId (cursor.map Uuid.str) s =
      .ok (app.sectionOf (page app.id (app.matching s.1 query userId) cursor s.2)) := by
  simp only [fetch, Py.runOn]
  rw [app.run_search _ _ .getDb query userId (cursor.map Uuid.str) hlimit]
  simp only [cursorId_map_str, noFaults, (pageOf_eq_ok_iff s.1 cursor s.2).mpr ⟨h, rfl⟩, Except.map]

/-- A request that is answered at all is answered with a keyset page. -/
theorem eq_sectionOf_of_fetch {s : Database × ℕ} (hlimit : 1 ≤ s.2) {cursor : Option Uuid}
    {page_ : ListSection app.Item}
    (h : app.fetch query userId (cursor.map Uuid.str) s = .ok page_) :
    page_ = app.sectionOf (page app.id (app.matching s.1 query userId) cursor s.2) := by
  simp only [fetch, Py.runOn] at h
  rw [app.run_search _ _ .getDb query userId (cursor.map Uuid.str) hlimit] at h
  simp only [cursorId_map_str, noFaults] at h
  cases hof : app.pageOf s.1 query userId cursor s.2 with
  | ok v =>
    obtain ⟨-, rfl⟩ := (pageOf_eq_ok_iff _ _ _).mp hof
    rw [hof] at h
    cases h
    rfl
  | error e =>
    rw [hof] at h
    cases h

/-- The client's walk is the walk of a keyset client, section by section. -/
theorem walkFrom_fetch (h : app.Accepts query userId) {ss : List (Database × ℕ)}
    (hlimits : ∀ s ∈ ss, 1 ≤ s.2) (cursor : Option Uuid) :
    walkFrom (app.fetch query userId) (cursor.map Uuid.str) ss =
      .ok ((walk (fun c s => page app.id (app.matching s.1 query userId) c s.2) cursor ss).1.map
          app.sectionOf,
        (walk (fun c s => page app.id (app.matching s.1 query userId) c s.2) cursor ss).2.map
          Uuid.str) := by
  induction ss generalizing cursor with
  | nil => rfl
  | cons s ss ih =>
    rw [List.forall_mem_cons] at hlimits
    rw [walkFrom, fetch_str h hlimits.1, walk]
    cases hnext : (page app.id (app.matching s.1 query userId) cursor s.2).next with
    | none => simp [sectionOf, hnext, Position.map]
    | some c =>
      have hrest := ih hlimits.2 (some c)
      simp only [Option.map_some] at hrest
      simp [sectionOf, hnext, hrest, Except.map]

/-! ### An unchanging table -/

/-- Rows in id order. -/
def sortedById (app : Paginated) (rows : List app.Row) : List app.Row :=
  rows.insertionSort fun a b => app.id a ≤ app.id b

theorem remaining_none (rows : List app.Row) :
    remaining app.id rows none = app.sortedById rows := by
  simp [remaining, sortedById]

theorem flatMap_items_sectionOf (pages : List (Page app.Row Uuid)) :
    (pages.map app.sectionOf).flatMap ListSection.items
      = (pages.flatMap Page.items).map app.itemOfRow := by
  rw [List.flatMap_map, List.map_flatMap]
  rfl

/-- **A walk over an unchanging table returns every matching row once, in id
order**, whatever the limits: it ends, every page but the last is full, and the
last one is empty only where nothing matches. -/
theorem walk_complete_of_unchanged (app : Paginated) (db : Database)
    (h : app.Accepts query userId) (limits : ℕ → ℕ) (hlimits : ∀ i, 1 ≤ limits i) :
    ∃ k pages, walkFrom (app.fetch query userId) none ((List.range k).map fun i => (db, limits i))
        = .ok (pages, .finished) ∧
      pages.length = k ∧
      pages.flatMap ListSection.items
        = (app.sortedById (app.matching db query userId)).map app.itemOfRow ∧
      (∀ i page, pages[i]? = some page → i + 1 < k → page.items.length = limits i) ∧
      (∀ page ∈ pages.getLast?, page.items = [] → app.matching db query userId = []) := by
  obtain ⟨k, w, hw, hfin, hlen, hitems, hfull, hlast⟩ :=
    walk_complete (app.nodup_matching db query userId) _ none limits hlimits le_rfl
  -- the keyset walk is told over the limits, the client's over databases and limits
  have hmap : (List.range k).map limits
      = ((List.range k).map fun i => (db, limits i)).map Prod.snd := by
    rw [List.map_map]
    rfl
  rw [hmap, walk_map] at hw
  have hlimits' : ∀ s ∈ (List.range k).map fun i => (db, limits i), 1 ≤ s.2 := by simp [hlimits]
  have hwalk := walkFrom_fetch h hlimits' none
  -- every request meets the same database, so only its limit matters
  have hsame : walk (fun c s => page app.id (app.matching s.1 query userId) c s.2) none
      ((List.range k).map fun i => (db, limits i)) = w := by
    rw [hw, walk_map, walk_map]
  rw [hsame, hfin] at hwalk
  refine ⟨k, w.1.map app.sectionOf, hwalk, by simpa using hlen, ?_, ?_, ?_⟩
  · rw [flatMap_items_sectionOf, hitems, remaining_none]
  · intro i s hs hi
    rw [List.getElem?_map, Option.map_eq_some_iff] at hs
    obtain ⟨p, hp, rfl⟩ := hs
    simpa [sectionOf] using hfull i p hp hi
  · intro s hs hnil
    rw [List.getLast?_map, Option.mem_def, Option.map_eq_some_iff] at hs
    obtain ⟨p, hp, rfl⟩ := hs
    have hnone := hlast p hp (by simpa [sectionOf] using hnil)
    rw [remaining_none] at hnone
    simpa [sortedById] using congrArg List.length hnone

/-- Two entities, one to a page: the second request carries a cursor. -/
theorem walk_complete_of_unchanged_small :
    ∃ k pages, walkFrom (investigator.fetch "an" "") none
        ((List.range k).map fun _ => (Database.small, 1)) = .ok (pages, .finished) ∧
      pages.length = k ∧ 1 < k ∧
      (pages.flatMap ListSection.items).map investigator.itemId
        = [⟨1, by decide⟩, ⟨2, by decide⟩] ∧
      (∀ i page, pages[i]? = some page → i + 1 < k → page.items.length = 1) ∧
      ∀ page ∈ pages.getLast?, page.items ≠ [] := by
  have haccepts : investigator.Accepts "an" "" := by decide +kernel
  obtain ⟨k, pages, hwalk, hlen, hitems, hfull, hlast⟩ := walk_complete_of_unchanged investigator
    Database.small haccepts (fun _ => 1) fun _ => le_rfl
  refine ⟨k, pages, hwalk, hlen, ?_, ?_, hfull, ?_⟩
  · -- one request is not enough: its page has a cursor for the next one
    have hnext : (walkFrom (investigator.fetch "an" "") none [(Database.small, 1)]).map
        (fun walked => walked.2) ≠ .ok .finished := by decide +kernel
    match k with
    | 0 => cases hwalk
    | 1 =>
      change walkFrom (investigator.fetch "an" "") none [(Database.small, 1)] = _ at hwalk
      rw [hwalk] at hnext
      exact absurd rfl hnext
    | k + 2 => omega
  · rw [hitems]
    decide +kernel
  · intro page hpage hnil
    exact absurd (hlast page hpage hnil) (by decide +kernel)

/-! ### A table that others write -/

/-- The keyset walk behind a client whose requests read changing states. -/
theorem walk_keyset_concurrent (app : Paginated) (query userId : String)
    (states : List (Database × ℕ)) (hlimits : ∀ s ∈ states, 1 ≤ s.2) :
    let walked := walk (fun c s => page app.id (app.matching s.1 query userId) c s.2) none states
    let pages := walked.1.map app.sectionOf
    ((pages.flatMap ListSection.items).map app.itemId).Pairwise (· < ·) ∧
      (∀ (i : ℕ) (page : ListSection app.Item) (s : Database × ℕ),
        pages[i]? = some page → states[i]? = some s →
        ∀ item ∈ page.items, ∃ row ∈ app.matching s.1 query userId, app.itemOfRow row = item) ∧
      (∀ id, (∀ s ∈ states.take pages.length,
          ∃ row ∈ app.matching s.1 query userId, app.id row = id) →
        walked.2.Passed id → ((pages.flatMap ListSection.items).map app.itemId).count id = 1) := by
  intro walked pages
  -- every page keeps its promise about the state it was read from
  have hserves : ∀ c, ∀ s ∈ states, Serves app.id {r | r ∈ app.matching s.1 query userId} c
      (page app.id (app.matching s.1 query userId) c s.2) := by
    intro c s hs
    exact page_serves (app.nodup_matching s.1 query userId) c (hlimits s hs)
  have hwalk := walk_walk hserves Walk.start
  simp only [List.nil_append] at hwalk
  -- the ids the client sees are those of the rows behind its items
  have hids : (pages.flatMap ListSection.items).map app.itemId
      = (walked.1.flatMap Page.items).map app.id := by
    rw [flatMap_items_sectionOf, List.map_map]
    apply List.map_congr_left
    intro row _
    exact app.itemId_itemOfRow row
  have hsorted := hwalk.pairwise
  rw [← List.pairwise_map (f := app.id) (R := (· < ·))] at hsorted
  refine ⟨?_, ?_, ?_⟩
  · rw [hids]
    exact hsorted
  · intro i s state hs hstate item hitem
    rw [List.getElem?_map, Option.map_eq_some_iff] at hs
    obtain ⟨p, hp, rfl⟩ := hs
    obtain ⟨c, state', hstate', rfl⟩ := exists_of_walk_getElem? hp
    rw [hstate, Option.some.injEq] at hstate'
    subst hstate'
    rw [sectionOf, List.mem_map] at hitem
    obtain ⟨row, hrow, rfl⟩ := hitem
    rw [page_items] at hrow
    exact ⟨row, (mem_remaining.mp (List.mem_of_mem_take hrow)).1, rfl⟩
  · intro id hid hpassed
    obtain ⟨row, hrow, hrowid⟩ := hwalk.complete (k := id) (by
      intro S hS
      obtain ⟨s, hs, rfl⟩ := List.mem_map.mp hS
      exact hid s (by simpa [pages] using hs)) hpassed
    rw [hids]
    apply List.count_eq_one_of_mem
    · exact hsorted.imp fun h => h.ne
    · exact List.mem_map.mpr ⟨row, hrow, hrowid⟩

/-- **Whatever is written between two requests, no row is repeated and no
persistent row is lost.**  Each request reads a state of its own.  A walk is
refused only for its values; the ids come out in strictly increasing order, every
item was a matching row of the state its page was read from, and an id that
matches in every state read is out, once, when the cursor has passed it. -/
theorem walk_of_concurrent_writes (app : Paginated) (query userId : String)
    (states : List (Database × ℕ)) (hlimits : ∀ s ∈ states, 1 ≤ s.2) :
    (app.Accepts query userId →
      ∃ walked, walkFrom (app.fetch query userId) none states = .ok walked) ∧
    ∀ (pages : List (ListSection app.Item)) (at_ : Position String),
      walkFrom (app.fetch query userId) none states = .ok (pages, at_) →
      ∃ pos : Position Uuid, at_ = pos.map Uuid.str ∧
        ((pages.flatMap ListSection.items).map app.itemId).Pairwise (· < ·) ∧
        (∀ (i : ℕ) (page : ListSection app.Item) (s : Database × ℕ),
          pages[i]? = some page → states[i]? = some s →
          ∀ item ∈ page.items, ∃ row ∈ app.matching s.1 query userId, app.itemOfRow row = item) ∧
        (∀ id, (∀ s ∈ states.take pages.length,
            ∃ row ∈ app.matching s.1 query userId, app.id row = id) →
          pos.Passed id → ((pages.flatMap ListSection.items).map app.itemId).count id = 1) := by
  constructor
  · intro h
    exact ⟨_, walkFrom_fetch h hlimits none⟩
  intro pages at_ hwalked
  by_cases h : app.Accepts query userId
  · rw [← Option.map_none Uuid.str, walkFrom_fetch h hlimits none] at hwalked
    cases hwalked
    exact ⟨_, rfl, walk_keyset_concurrent app query userId states hlimits⟩
  · -- the first request would have been refused
    cases states with
    | nil =>
      cases hwalked
      refine ⟨.resume none, rfl, by simp, by simp, ?_⟩
      intro id _ hpassed
      exact hpassed.elim
    | cons s ss =>
      rw [List.forall_mem_cons] at hlimits
      obtain ⟨e, he⟩ := fetch_none_of_not_accepts h hlimits.1
      rw [walkFrom, he] at hwalked
      cases hwalked

theorem walk_of_concurrent_writes_small :
    (investigator.Accepts "an" "" → ∃ walked, walkFrom (investigator.fetch "an" "") none
      [(Database.small, 1), ({ Database.small with investigatorEntities := .empty }, 2)]
        = .ok walked) ∧
    ∀ (pages : List (ListSection investigator.Item)) (at_ : Position String),
      walkFrom (investigator.fetch "an" "") none
        [(Database.small, 1), ({ Database.small with investigatorEntities := .empty }, 2)]
          = .ok (pages, at_) →
      ∃ pos : Position Uuid, at_ = pos.map Uuid.str ∧
        ((pages.flatMap ListSection.items).map investigator.itemId).Pairwise (· < ·) ∧
        (∀ (i : ℕ) (page : ListSection investigator.Item) (s : Database × ℕ),
          pages[i]? = some page →
          [(Database.small, 1), ({ Database.small with investigatorEntities := .empty }, 2)][i]?
            = some s →
          ∀ item ∈ page.items,
            ∃ row ∈ investigator.matching s.1 "an" "", investigator.itemOfRow row = item) ∧
        (∀ id, (∀ s ∈ List.take pages.length
              [(Database.small, 1), ({ Database.small with investigatorEntities := .empty }, 2)],
            ∃ row ∈ investigator.matching s.1 "an" "", investigator.id row = id) →
          pos.Passed id →
          ((pages.flatMap ListSection.items).map investigator.itemId).count id = 1) :=
  walk_of_concurrent_writes investigator "an" "" _ (by decide)

end Paginated

end SnapSearch
