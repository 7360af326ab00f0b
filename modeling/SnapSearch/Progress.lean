import SnapSearch.Lib.Growing
import SnapSearch.Pagination

/-!
# How far a client gets while others write

A client follows `next_cursor` while rows are written between its requests.  It may
never end: whoever writes a page of new rows for every page it reads keeps it going.
How many requests it takes is told by the rows there are; and where rows are only
added, with ids above all that are there, as `uuid7()` gives them, the pages it ends
with are one listing of the table.

## Main definitions

* `Paginated.GrowsTo` — a table to which rows were added, with later ids.

## Main results

* `Paginated.walk_ends` — **whatever is written, a walk ends once it has asked for more
  rows than ever matched.**
* `Paginated.walk_of_growing` — **on a table to which rows are added, a walk ends with
  the first request that covers the matching rows, and gives the listing of that moment.**
-/

namespace SnapSearch

open Keyset

namespace Paginated

variable (app : Paginated) {query userId : String} {states : List (Database × ℕ)}

theorem map_eq_finished_iff {κ τ : Type} {f : κ → τ} {pos : Position κ} :
    pos.map f = .finished ↔ pos = .finished := by
  cases pos with
  | resume cursor => exact ⟨nofun, nofun⟩
  | finished => exact ⟨fun _ => rfl, fun _ => rfl⟩

/-- **Whatever is written, a walk ends once it has asked for more rows than ever
matched**: no id comes out twice, so no more items come out than ids matched in the
states read, and a walk that has not ended has as many as it has asked for. -/
theorem walk_ends (h : app.Accepts query userId) (hlimits : ∀ s ∈ states, 1 ≤ s.2)
    {ids : Finset Uuid}
    (hids : ∀ s ∈ states, ∀ row ∈ app.matching s.1 query userId, app.id row ∈ ids) :
    ∃ pages pos, walkFrom (app.fetch query userId) none states = .ok (pages, pos) ∧
      (pages.flatMap ListSection.items).length ≤ ids.card ∧
      (pos ≠ .finished →
        (pages.flatMap ListSection.items).length = asked Prod.snd states states.length) ∧
      (ids.card < asked Prod.snd states states.length → pos = .finished) := by
  have hwalkFrom := walkFrom_fetch h hlimits none
  have hserves : ∀ c, ∀ s ∈ states, Serves app.id {r | r ∈ app.matching s.1 query userId} c
      (page app.id (app.matching s.1 query userId) c s.2) := by
    intro c s hs
    exact page_serves (app.nodup_matching s.1 query userId) c (hlimits s hs)
  have hwalk := walk_walk hserves Walk.start
  simp only [List.nil_append] at hwalk
  have hkeys : ∀ S ∈ (states.take (walk (fun c s => page app.id (app.matching s.1 query userId) c
      s.2) none states).1.length).map fun s => {r | r ∈ app.matching s.1 query userId},
      ∀ r ∈ S, app.id r ∈ ids := by
    intro S hS r hr
    obtain ⟨s, hs, rfl⟩ := List.mem_map.mp hS
    exact hids s (List.mem_of_mem_take hs) r hr
  have hcard := hwalk.length_le_card hkeys
  have hlength : ∀ w : List (Page app.Row Uuid),
      ((w.map app.sectionOf).flatMap ListSection.items).length
        = (w.flatMap Page.items).length := by
    intro w
    rw [flatMap_items_sectionOf, List.length_map]
  have hresume : (walk (fun c s => page app.id (app.matching s.1 query userId) c s.2) none
      states).2 ≠ .finished → ((walk (fun c s => page app.id (app.matching s.1 query userId) c s.2)
        none states).1.flatMap Page.items).length = asked Prod.snd states states.length := by
    intro hpos
    cases hpos' : (walk (fun c s => page app.id (app.matching s.1 query userId) c s.2) none
        states).2 with
    | finished => exact absurd hpos' hpos
    | resume c => exact (asked_le_length_of_resume hlimits hpos').symm
  refine ⟨_, _, hwalkFrom, ?_, ?_, ?_⟩
  · rw [hlength]
    exact hcard
  · rw [hlength]
    intro hpos
    exact hresume (fun hfinished => hpos (map_eq_finished_iff.mpr hfinished))
  · intro hlt
    rw [map_eq_finished_iff]
    by_contra hpos
    have := hresume hpos
    omega

theorem walk_ends_small :
    ∃ pages, walkFrom (investigator.fetch "an" "") none
        [(Database.small, 1), (Database.small.withTable .investigator .empty, 1),
          (Database.small, 2)] = .ok (pages, .finished) ∧
      (pages.flatMap ListSection.items).length ≤ 3 := by
  have haccepts : investigator.Accepts "an" "" := by decide +kernel
  have hlimits : ∀ s ∈ [(Database.small, 1), (Database.small.withTable .investigator .empty, 1),
      (Database.small, 2)], 1 ≤ s.2 := by decide
  have hids : ∀ s ∈ [(Database.small, 1), (Database.small.withTable .investigator .empty, 1),
      (Database.small, 2)], ∀ row ∈ investigator.matching s.1 "an" "", investigator.id row ∈
        (Database.small.investigatorEntities.rows.map InvestigatorEntity.id).toFinset := by
    decide +kernel
  obtain ⟨pages, pos, hwalk, hlength, -, hends⟩ := walk_ends investigator haccepts hlimits hids
  obtain rfl := hends (by decide)
  exact ⟨pages, hwalk, hlength.trans (by decide)⟩

/-! ### A table to which rows are added -/

/-- Rows were added, all of them with ids above those that were there. -/
def GrowsTo (db db' : Database) : Prop :=
  db'.server = db.server ∧ Grows app.id (db.table app).rows (db'.table app).rows

/-- The matching rows grow with the table. -/
theorem GrowsTo.matching {app : Paginated} {db db' : Database} (h : app.GrowsTo db db')
    (query userId : String) :
    Grows app.id (app.matching db query userId) (app.matching db' query userId) := by
  obtain ⟨hserver, new, hperm, habove⟩ := h
  refine ⟨new.filter (Condition.holdsAll db.server (app.conditions query userId)), ?_, ?_⟩
  · rw [Paginated.matching, Paginated.matching, hserver, ← List.filter_append]
    exact hperm.filter _
  · intro r hr r' hr'
    exact habove r (List.mem_of_mem_filter hr) r' (List.mem_of_mem_filter hr')

/-- **On a table to which rows are added, a walk ends with the first request that covers
the matching rows, and gives the listing of that moment.**  All the requests of the
walk read different states, but what is out is always the front of the listing of the
state read last. -/
theorem walk_of_growing (h : app.Accepts query userId) (hlimits : ∀ s ∈ states, 1 ≤ s.2)
    (hgrows : states.IsChain fun s s' => app.GrowsTo s.1 s'.1) :
    ∃ pages pos, walkFrom (app.fetch query userId) none states = .ok (pages, pos) ∧
      (∀ s, states[pages.length - 1]? = some s → pages.flatMap ListSection.items =
        ((app.sortedById (app.matching s.1 query userId)).take
          (asked Prod.snd states pages.length)).map app.itemOfRow) ∧
      (pos = .finished ↔ ∃ m s, states[m]? = some s ∧
        (app.matching s.1 query userId).length ≤ asked Prod.snd states (m + 1)) ∧
      (pos = .finished → ∃ s, states[pages.length - 1]? = some s ∧
        (app.matching s.1 query userId).length ≤ asked Prod.snd states pages.length ∧
        pages.flatMap ListSection.items =
          (app.sortedById (app.matching s.1 query userId)).map app.itemOfRow) ∧
      (∀ m s, m + 1 < pages.length → states[m]? = some s →
        asked Prod.snd states (m + 1) < (app.matching s.1 query userId).length) := by
  have hnodup : ∀ s ∈ states, ((app.matching s.1 query userId).map app.id).Nodup :=
    fun s _ => app.nodup_matching s.1 query userId
  have hreached : ∀ s ∈ states.head?, Reached app.id (app.matching s.1 query userId) none 0 :=
    fun _ _ => rfl
  have hfront := atFront_walk hnodup hlimits
    (pairwise_front hnodup (hgrows.imp fun s s' hs => hs.matching query userId)) hreached
  have hwalkFrom := walkFrom_fetch h hlimits none
  generalize walk (fun c s => page app.id (app.matching s.1 query userId) c s.2) none states = w
    at hfront hwalkFrom
  obtain ⟨ps, pos⟩ := w
  dsimp only at hwalkFrom
  have hpositive : pos = .finished → 0 < ps.length :=
    fun hpos => List.length_pos_iff.mpr (hfront.ne_nil hpos)
  have hlisting : ∀ s : Database × ℕ, (remaining app.id (app.matching s.1 query userId) none).length
      = (app.matching s.1 query userId).length := by
    intro s
    rw [remaining_none]
    exact (List.perm_insertionSort _ _).length_eq
  have hitems : ∀ s, states[ps.length - 1]? = some s →
      (ps.map app.sectionOf).flatMap ListSection.items =
        ((app.sortedById (app.matching s.1 query userId)).take
          (asked Prod.snd states ps.length)).map app.itemOfRow := by
    intro s hs
    have h := hfront.items_eq s hs
    rw [remaining_none, Nat.zero_add, List.drop_zero] at h
    rw [flatMap_items_sectionOf, ← h]
  have hcovered : ∀ m s, m < ps.length → states[m]? = some s →
      ((app.matching s.1 query userId).length ≤ asked Prod.snd states (m + 1) ↔
        pos = .finished ∧ m + 1 = ps.length) := by
    intro m s hm hs
    have h := hfront.covered_iff m s hm hs
    rwa [hlisting, Nat.zero_add] at h
  -- where the walk has ended, its last request covers what there is
  have hlast : pos = .finished → ∃ s, states[ps.length - 1]? = some s ∧
      (app.matching s.1 query userId).length ≤ asked Prod.snd states ps.length ∧
      (ps.map app.sectionOf).flatMap ListSection.items =
        (app.sortedById (app.matching s.1 query userId)).map app.itemOfRow := by
    intro hpos
    obtain ⟨s, hs, hle, hall⟩ := hfront.of_finished hpos
    rw [hlisting, Nat.zero_add] at hle
    rw [remaining_none, List.drop_zero] at hall
    exact ⟨s, hs, hle, by rw [flatMap_items_sectionOf, ← hall]⟩
  refine ⟨_, _, hwalkFrom, ?_, ?_, ?_, ?_⟩
  · simpa using hitems
  · rw [map_eq_finished_iff]
    constructor
    · intro hpos
      obtain ⟨s, hs, hle, -⟩ := hlast hpos
      refine ⟨ps.length - 1, s, hs, ?_⟩
      rwa [Nat.sub_add_cancel (hpositive hpos)]
    · rintro ⟨m, s, hs, hle⟩
      by_contra hpos
      have hm := (List.getElem?_eq_some_iff.mp hs).1
      rw [← hfront.length_eq hpos] at hm
      exact hpos ((hcovered m s hm hs).mp hle).1
  · intro hpos
    rw [List.length_map]
    exact hlast (map_eq_finished_iff.mp hpos)
  · intro m s hm hs
    rw [List.length_map] at hm
    by_contra hle
    have := ((hcovered m s (by omega) hs).mp (by omega)).2
    omega

theorem walk_of_growing_small :
    let row : InvestigatorEntity := ⟨⟨10, by decide⟩, "pessoa", "Joana", [], ⟨1769904000000000⟩⟩
    let later := Database.small.withTable .investigator
      (Database.small.investigatorEntities.insert row (by decide))
    ∃ pages s, walkFrom (investigator.fetch "an" "") none [(Database.small, 1), (later, 5)]
        = .ok (pages, .finished) ∧ s ∈ [(Database.small, 1), (later, 5)] ∧
      pages.flatMap ListSection.items =
        (investigator.sortedById (investigator.matching s.1 "an" "")).map
          investigator.itemOfRow := by
  intro row later
  have hgrows : investigator.GrowsTo .small later :=
    ⟨rfl, [row], .refl _, by decide⟩
  have haccepts : investigator.Accepts "an" "" := by decide +kernel
  have hlimits : ∀ s ∈ [(Database.small, 1), (later, 5)], 1 ≤ s.2 := by decide
  obtain ⟨pages, pos, hwalk, -, hfinished, hlisting, -⟩ := walk_of_growing investigator haccepts
    hlimits (.cons_cons hgrows (.singleton _))
  obtain rfl := hfinished.mpr ⟨1, (later, 5), rfl, by decide +kernel⟩
  obtain ⟨s, hs, -, hitems⟩ := hlisting rfl
  exact ⟨pages, s, hwalk, List.mem_of_getElem? hs, hitems⟩

end Paginated

end SnapSearch
