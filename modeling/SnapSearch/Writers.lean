import SnapSearch.Pagination

/-!
# A walk next to writers

A writer builds a row, with an id of its own from `uuid7()`, and commits it later;
any number of writers are between the two steps while a client walks the section.
The ids are minted in increasing order, but nothing says that they are committed
in that order, nor that a row is committed while the cursor is still before it.

## Main definitions

* `WalkState`, `Event`, `step`, `run` — writers and a client on one table.
* `KeepsAhead` — a commit that does not fall behind the cursor.

## Main results

* `run_invariant` — what holds in every state the system reaches.
* `walk_misses_nothing_iff` — **a finished walk has returned every committed row
  exactly where no matching row was committed behind its cursor.**
-/

namespace SnapSearch

open Keyset

/-! ### The system -/

/-- The table, the rows built and not yet committed, the last id minted, and the
client's pages and position. -/
structure WalkState (app : Paginated) where
  database : Database
  clock : Uuid
  uncommitted : List app.Row
  pages : List (ListSection app.Item)
  position : Position String
  le_clock : ∀ row ∈ uncommitted, app.id row ≤ clock
  nodup : (((database.table app).rows ++ uncommitted).map app.id).Nodup

/-- What may happen next. -/
inductive Event (app : Paginated)
  /-- A writer builds a row: its id is minted. -/
  | mint (row : app.Row)
  /-- The writer of the row at this place among the uncommitted ones commits. -/
  | commit (i : ℕ)
  /-- The client asks for its next page. -/
  | request (limit : ℕ)

namespace WalkState

variable {app : Paginated}

/-- Mint a row: ids are strictly increasing over all mints, and no row of the table
has the new one. -/
def mint (s : WalkState app) (row : app.Row) (h : s.clock < app.id row)
    (hnew : app.id row ∉ (s.database.table app).rows.map app.id) : WalkState app :=
  { s with
    clock := app.id row
    uncommitted := s.uncommitted ++ [row]
    le_clock := by
      intro r hr
      rw [List.mem_append, List.mem_singleton] at hr
      rcases hr with hr | rfl
      · exact (s.le_clock r hr).trans h.le
      · exact le_rfl
    nodup := by
      rw [← List.append_assoc, List.map_append, List.nodup_append]
      refine ⟨s.nodup, by simp, ?_⟩
      intro a ha b hb hab
      rw [List.map_singleton, List.mem_singleton] at hb
      subst hab hb
      rw [List.map_append, List.mem_append] at ha
      rcases ha with ha | ha
      · exact hnew ha
      · obtain ⟨r, hr, hid⟩ := List.mem_map.mp ha
        exact absurd (s.le_clock r hr) (not_le.mpr (hid ▸ h)) }

/-- Committing moves a row from the uncommitted ones to the table. -/
theorem commit_perm {t u : List app.Row} {i : ℕ} {row : app.Row} (h : u[i]? = some row) :
    ((t ++ [row]) ++ u.eraseIdx i).Perm (t ++ u) := by
  obtain ⟨hi, rfl⟩ := List.getElem?_eq_some_iff.mp h
  rw [List.append_assoc]
  exact (List.getElem_cons_eraseIdx_perm hi).append_left t

theorem id_notMem {s : WalkState app} {i : ℕ} {row : app.Row} (h : s.uncommitted[i]? = some row) :
    app.id row ∉ ((s.database.table app).rows).map app.id := by
  have hnodup := s.nodup
  rw [List.map_append, List.nodup_append] at hnodup
  intro hmem
  exact hnodup.2.2 _ hmem _ (List.mem_map_of_mem (List.mem_of_getElem? h)) rfl

/-- Commit an uncommitted row. -/
def commit (s : WalkState app) (i : ℕ) (row : app.Row) (h : s.uncommitted[i]? = some row) :
    WalkState app :=
  { s with
    database := s.database.withTable app ((s.database.table app).insert row (id_notMem h))
    uncommitted := s.uncommitted.eraseIdx i
    le_clock := by
      intro r hr
      exact s.le_clock r ((List.eraseIdx_sublist s.uncommitted i).subset hr)
    nodup := by
      rw [Database.table_withTable]
      exact ((commit_perm h).map app.id).nodup_iff.mpr s.nodup }

/-- The client has received a page. -/
def receive (s : WalkState app) (page : ListSection app.Item) : WalkState app :=
  { s with
    pages := s.pages ++ [page]
    position := match page.nextCursor with
      | none => .finished
      | some cursor => .resume (some cursor) }

end WalkState

section Walk

variable {app : Paginated} (query userId : String)

/-- One step: `none` where it is not enabled. -/
def step (s : WalkState app) : Event app → Option (WalkState app)
  | .mint row =>
      if h : s.clock < app.id row ∧ app.id row ∉ (s.database.table app).rows.map app.id then
        some (s.mint row h.1 h.2)
      else none
  | .commit i =>
      match h : s.uncommitted[i]? with
      | none => none
      | some row => some (s.commit i row h)
  | .request limit =>
      match s.position with
      | .finished => none
      | .resume cursor =>
          if 1 ≤ limit ∧ limit ≤ searchResultLimit then
            match app.fetch query userId cursor (s.database, limit) with
            | .error _ => none
            | .ok page => some (s.receive page)
          else none

/-- A run: the steps in order. -/
def run : WalkState app → List (Event app) → Option (WalkState app)
  | s, [] => some s
  | s, e :: es => (step query userId s e).bind fun s' => run s' es

/-- A step that commits no matching row at or behind the client's cursor. -/
def KeepsAhead (s : WalkState app) : Event app → Prop
  | .commit i => ∀ row ∈ s.uncommitted[i]?,
      Condition.holdsAll s.database.server (app.conditions query userId) row = true →
      ∀ c : Uuid, s.position = .resume (some c.str) → c < app.id row
  | _ => True

/-- Every step of a run keeps ahead of the cursor. -/
def RunKeepsAhead : WalkState app → List (Event app) → Prop
  | _, [] => True
  | s, e :: es => KeepsAhead query userId s e ∧
      ∀ s' ∈ step query userId s e, RunKeepsAhead s' es

end Walk

section Invariants

variable {app : Paginated} {query userId : String} {s s' : WalkState app} {pos : Position Uuid}

/-- Everything a step can do. -/
theorem step_cases {e : Event app} (h : step query userId s e = some s') :
    (∃ row hlt hnew, e = .mint row ∧ s' = s.mint row hlt hnew) ∨
    (∃ i row hi, e = .commit i ∧ s' = s.commit i row hi) ∨
    (∃ limit cursor page, e = .request limit ∧ s.position = .resume cursor ∧ 1 ≤ limit ∧
      app.fetch query userId cursor (s.database, limit) = .ok page ∧ s' = s.receive page) := by
  cases e with
  | mint row =>
    simp only [step] at h
    split at h
    · next hid =>
      cases h
      exact Or.inl ⟨row, hid.1, hid.2, rfl, rfl⟩
    · cases h
  | commit i =>
    simp only [step] at h
    split at h
    · cases h
    · next row hi =>
      cases h
      exact Or.inr (Or.inl ⟨i, row, hi, rfl, rfl⟩)
  | request limit =>
    simp only [step] at h
    split at h
    · cases h
    · next cursor hpos =>
      split at h
      · next hlimit =>
        split at h
        · cases h
        · next page hfetch =>
          cases h
          exact Or.inr (Or.inr ⟨limit, cursor, page, rfl, hpos, hlimit.1, hfetch, rfl⟩)
      · cases h

/-! ### What a state says -/

namespace WalkState

/-- The ids returned so far. -/
def outIds (s : WalkState app) : List Uuid := (s.pages.flatMap ListSection.items).map app.itemId

/-- The client stands where its pages end: the ids came out in strictly
increasing order, it has passed them all, and their rows are in the table. -/
structure Sound (s : WalkState app) (pos : Position Uuid) : Prop where
  position : s.position = pos.map Uuid.str
  sorted : s.outIds.Pairwise (· < ·)
  passed : ∀ id ∈ s.outIds, pos.Passed id
  stored : ∀ id ∈ s.outIds, id ∈ (s.database.table app).rows.map app.id

variable (query userId) in
/-- Every matching row that the client has passed is out. -/
def AllOut (s : WalkState app) (pos : Position Uuid) : Prop :=
  ∀ row ∈ app.matching s.database query userId, pos.Passed (app.id row) → app.id row ∈ s.outIds

variable (query userId) in
/-- A matching row that the client has passed without its being returned. -/
def Missed (s : WalkState app) (pos : Position Uuid) (row : app.Row) : Prop :=
  row ∈ app.matching s.database query userId ∧ pos.Passed (app.id row) ∧ app.id row ∉ s.outIds

/-! ### Committing -/

theorem matching_commit {i : ℕ} {row : app.Row} (hi : s.uncommitted[i]? = some row) :
    app.matching (s.commit i row hi).database query userId =
      app.matching s.database query userId ++
        [row].filter (Condition.holdsAll s.database.server (app.conditions query userId)) := by
  rw [Paginated.matching, commit, Database.table_withTable, Database.server_withTable,
    Table.insert, List.filter_append]
  rfl

theorem Sound.commit (h : s.Sound pos) {i : ℕ} {row : app.Row}
    (hi : s.uncommitted[i]? = some row) : (s.commit i row hi).Sound pos := by
  refine ⟨h.position, h.sorted, h.passed, ?_⟩
  intro id hid
  have hmem := h.stored id hid
  simp only [WalkState.commit, Database.table_withTable, Table.insert, List.map_append]
  exact List.mem_append_left _ hmem

theorem AllOut.commit (hall : s.AllOut query userId pos) (h : s.Sound pos) {i : ℕ} {row : app.Row}
    (hi : s.uncommitted[i]? = some row) (hahead : KeepsAhead query userId s (.commit i))
    (hpos : pos ≠ .finished) : (s.commit i row hi).AllOut query userId pos := by
  intro r hr hpassed
  rw [matching_commit, List.mem_append, List.mem_filter, List.mem_singleton] at hr
  rcases hr with hr | ⟨rfl, hmatch⟩
  · exact hall r hr hpassed
  · -- the new row is still ahead of the cursor
    cases pos with
    | finished => exact absurd rfl hpos
    | resume cursor =>
      cases cursor with
      | none => exact hpassed.elim
      | some c =>
        have hlt := hahead r (by rw [hi]; rfl) hmatch c h.position
        exact absurd hpassed (not_le.mpr hlt)

theorem Missed.commit {row : app.Row} (hmissed : s.Missed query userId pos row) {i : ℕ}
    {row' : app.Row} (hi : s.uncommitted[i]? = some row') :
    (s.commit i row' hi).Missed query userId pos row := by
  refine ⟨?_, hmissed.2⟩
  rw [matching_commit]
  exact List.mem_append_left _ hmissed.1

/-- A matching row committed behind the cursor is missed from then on. -/
theorem missed_of_not_keepsAhead (h : s.Sound pos) {i : ℕ} {row : app.Row}
    (hi : s.uncommitted[i]? = some row) (hbehind : ¬KeepsAhead query userId s (.commit i)) :
    (s.commit i row hi).Missed query userId pos row := by
  simp only [KeepsAhead, hi, Option.mem_some_iff, forall_eq', not_forall, not_lt] at hbehind
  -- the row is not out: what is out was in the table before, and its id is new
  obtain ⟨hmatch, c, hc, hle⟩ := hbehind
  refine ⟨?_, ?_, ?_⟩
  · rw [matching_commit]
    apply List.mem_append_right
    exact List.mem_filter.mpr ⟨List.mem_singleton_self _, hmatch⟩
  · have hposition := h.position
    rw [hc] at hposition
    cases pos with
    | finished => cases hposition
    | resume cursor =>
      cases cursor with
      | none => cases hposition
      | some d =>
        rw [Position.map, Option.map_some, Position.resume.injEq, Option.some.injEq] at hposition
        rwa [Position.Passed, ← Uuid.str_injective hposition]
  · intro hid
    exact id_notMem hi (h.stored _ hid)

/-! ### Receiving a page -/

/-- The keyset page behind a response, and where it takes the client. -/
theorem exists_page (h : s.Sound pos) {cursor : Option String} {limit : ℕ}
    {page : ListSection app.Item} (hposition : s.position = .resume cursor) (hlimit : 1 ≤ limit)
    (hfetch : app.fetch query userId cursor (s.database, limit) = .ok page) :
    ∃ c p, pos = .resume c ∧ page = app.sectionOf p ∧
      Serves app.id {row | row ∈ app.matching s.database query userId} c p ∧
      (s.receive page).position = p.position.map Uuid.str := by
  rw [h.position] at hposition
  cases pos with
  | finished => cases hposition
  | resume c =>
    rw [Position.map, Position.resume.injEq] at hposition
    -- the client holds the text of the cursor, and the strategy reads the same id back
    subst hposition
    have hpage := Paginated.eq_sectionOf_of_fetch hlimit hfetch
    refine ⟨c, _, rfl, hpage, page_serves (app.nodup_matching s.database query userId) c hlimit, ?_⟩
    rw [hpage]
    simp only [receive, Paginated.sectionOf, Page.position]
    cases (Keyset.page app.id (app.matching s.database query userId) c limit).next <;> rfl

theorem outIds_receive (p : Page app.Row Uuid) :
    (s.receive (app.sectionOf p)).outIds = s.outIds ++ p.items.map app.id := by
  simp [outIds, receive, Paginated.sectionOf, Function.comp_def]

/-- A served page lies beyond everything the client had passed. -/
theorem not_passed_of_serves {S : Set app.Row} {c : Option Uuid} {p : Page app.Row Uuid}
    (hp : Serves app.id S c p) {row : app.Row} (hrow : row ∈ p.items) :
    ¬(Position.resume c).Passed (app.id row) := by
  have habove := ((hp.mem_iff row).mp hrow).2.1
  cases c with
  | none => exact id
  | some d => exact not_le.mpr (above_some.mp habove)

theorem lt_of_serves {S : Set app.Row} {c : Option Uuid} {p : Page app.Row Uuid}
    (hp : Serves app.id S c p) {row : app.Row} (hrow : row ∈ p.items) {id : Uuid}
    (hid : (Position.resume c).Passed id) : id < app.id row := by
  have habove := ((hp.mem_iff row).mp hrow).2.1
  cases c with
  | none => exact hid.elim
  | some d => exact lt_of_le_of_lt hid (above_some.mp habove)

/-- The client only moves forward. -/
theorem passed_of_serves {S : Set app.Row} {c : Option Uuid} {p : Page app.Row Uuid}
    (hp : Serves app.id S c p) {id : Uuid} (hid : (Position.resume c).Passed id) :
    p.position.Passed id := by
  unfold Page.position
  cases hnext : p.next with
  | none => trivial
  | some d =>
    obtain ⟨row, hrow, rfl⟩ := hp.last d hnext
    exact (lt_of_serves hp hrow hid).le

theorem Sound.receive {c : Option Uuid} {p : Page app.Row Uuid} (h : s.Sound (.resume c))
    (hp : Serves app.id {row | row ∈ app.matching s.database query userId} c p)
    (hposition : (s.receive (app.sectionOf p)).position = p.position.map Uuid.str) :
    (s.receive (app.sectionOf p)).Sound p.position := by
  refine ⟨hposition, ?_, ?_, ?_⟩
  · rw [outIds_receive, List.pairwise_append]
    -- what is out has been passed, and the page lies beyond what was passed
    refine ⟨h.sorted, List.pairwise_map.mpr hp.sorted, ?_⟩
    intro a ha b hb
    obtain ⟨row, hrow, rfl⟩ := List.mem_map.mp hb
    exact lt_of_serves hp hrow (h.passed a ha)
  · intro id hid
    rw [outIds_receive, List.mem_append] at hid
    rcases hid with hid | hid
    · exact passed_of_serves hp (h.passed id hid)
    · obtain ⟨row, hrow, rfl⟩ := List.mem_map.mp hid
      have hle := ((hp.mem_iff row).mp hrow).2.2
      unfold Page.position
      cases hnext : p.next with
      | none => trivial
      | some d => exact hle d hnext
  · intro id hid
    rw [outIds_receive, List.mem_append] at hid
    rcases hid with hid | hid
    · exact h.stored id hid
    · obtain ⟨row, hrow, rfl⟩ := List.mem_map.mp hid
      exact List.mem_map_of_mem (List.mem_of_mem_filter ((hp.mem_iff row).mp hrow).1)

theorem AllOut.receive {c : Option Uuid} {p : Page app.Row Uuid}
    (hall : s.AllOut query userId (.resume c))
    (hp : Serves app.id {row | row ∈ app.matching s.database query userId} c p) :
    (s.receive (app.sectionOf p)).AllOut query userId p.position := by
  intro row hrow hpassed
  rw [outIds_receive, List.mem_append]
  -- either it had been passed before and was out, or the page itself holds it
  by_cases hold : (Position.resume c).Passed (app.id row)
  · exact Or.inl (hall row hrow hold)
  · right
    apply List.mem_map_of_mem
    refine (hp.mem_iff row).mpr ⟨hrow, ?_, ?_⟩
    · cases c with
      | none => exact above_none _
      | some d => exact above_some.mpr (not_le.mp hold)
    · intro d hd
      rw [Option.mem_def] at hd
      rwa [Page.position, hd] at hpassed

theorem Missed.receive {c : Option Uuid} {p : Page app.Row Uuid} {row : app.Row}
    (hmissed : s.Missed query userId (.resume c) row)
    (hp : Serves app.id {row | row ∈ app.matching s.database query userId} c p) :
    (s.receive (app.sectionOf p)).Missed query userId p.position row := by
  refine ⟨hmissed.1, passed_of_serves hp hmissed.2.1, ?_⟩
  rw [outIds_receive, List.mem_append]
  rintro (hid | hid)
  · exact hmissed.2.2 hid
  · obtain ⟨row', hrow', heq⟩ := List.mem_map.mp hid
    exact not_passed_of_serves hp hrow' (heq ▸ hmissed.2.1)

end WalkState

/-! ### Steps and runs -/

open WalkState

/-- **What one step keeps.** -/
theorem step_invariant {e : Event app} (h : s.Sound pos)
    (hstep : step query userId s e = some s') :
    ∃ pos', s'.Sound pos' ∧
      (s'.position ≠ .finished → s.position ≠ .finished) ∧
      (pos ≠ .finished → KeepsAhead query userId s e → s.AllOut query userId pos →
        s'.AllOut query userId pos') ∧
      (¬KeepsAhead query userId s e → ∃ row, s'.Missed query userId pos' row) ∧
      ∀ row, s.Missed query userId pos row → s'.Missed query userId pos' row := by
  rcases step_cases hstep with ⟨row, hlt, hnew, rfl, rfl⟩ | ⟨i, row, hi, rfl, rfl⟩ |
    ⟨limit, cursor, page, rfl, hposition, hlimit, hfetch, rfl⟩
  · -- minting touches neither the table nor the client
    exact ⟨pos, ⟨h.position, h.sorted, h.passed, h.stored⟩, id, fun _ _ hall => hall,
      fun hnot => absurd trivial hnot, fun _ hmissed => hmissed⟩
  · refine ⟨pos, h.commit hi, id, ?_, ?_, ?_⟩
    · intro hpos hahead hall
      exact hall.commit h hi hahead hpos
    · intro hbehind
      exact ⟨row, missed_of_not_keepsAhead h hi hbehind⟩
    · intro row' hmissed
      exact hmissed.commit hi
  · obtain ⟨c, p, rfl, rfl, hp, hpos'⟩ := exists_page h hposition hlimit hfetch
    refine ⟨p.position, h.receive hp hpos', ?_, ?_, fun hnot => absurd trivial hnot, ?_⟩
    · intro _
      rw [hposition]
      simp
    · intro _ _ hall
      exact hall.receive hp
    · intro row hmissed
      exact hmissed.receive hp

/-- **What holds in every state the system reaches**: as long as the client is not
done, everything it has passed is out, unless a commit fell behind its cursor;
and what such a commit put there stays missed. -/
theorem run_invariant {es : List (Event app)} (h : s.Sound pos)
    (hrun : run query userId s es = some s') :
    ∃ pos', s'.Sound pos' ∧
      (s'.position ≠ .finished → s.position ≠ .finished) ∧
      (s'.position ≠ .finished → RunKeepsAhead query userId s es → s.AllOut query userId pos →
        s'.AllOut query userId pos') ∧
      (¬RunKeepsAhead query userId s es → ∃ row, s'.Missed query userId pos' row) ∧
      ∀ row, s.Missed query userId pos row → s'.Missed query userId pos' row := by
  -- along the run, each step keeps what the one before it established
  induction es generalizing s pos with
  | nil =>
    cases hrun
    exact ⟨pos, h, id, fun _ _ hall => hall, fun hnot => absurd trivial hnot, fun _ hm => hm⟩
  | cons e es ih =>
    rw [run, Option.bind_eq_some_iff] at hrun
    obtain ⟨s₁, hstep, hrest⟩ := hrun
    obtain ⟨pos₁, h₁, hopen₁, hall₁, hbehind₁, hmissed₁⟩ := step_invariant h hstep
    obtain ⟨pos', h', hopen, hall, hbehind, hmissed⟩ := ih h₁ hrest
    refine ⟨pos', h', ?_, ?_, ?_, ?_⟩
    · intro hs'
      exact hopen₁ (hopen hs')
    · rintro hs' ⟨hahead, hrestAhead⟩ hallOut
      apply hall hs' (hrestAhead s₁ hstep)
      refine hall₁ ?_ hahead hallOut
      rintro rfl
      exact hopen₁ (hopen hs') h.position
    · intro hnot
      by_cases hahead : KeepsAhead query userId s e
      · -- the step kept ahead, so a later one did not
        apply hbehind
        intro hrestAhead
        refine hnot ⟨hahead, ?_⟩
        intro s₂ hs₂
        rw [Option.mem_def, hstep, Option.some.injEq] at hs₂
        rwa [← hs₂]
      · obtain ⟨row, hm⟩ := hbehind₁ hahead
        exact ⟨row, hmissed row hm⟩
    · intro row hm
      exact hmissed row (hmissed₁ row hm)

/-- **A finished walk has returned every committed row exactly where no matching
row was committed behind its cursor.**  The client starts with no page; the last
step is the page request that finishes the walk; the rows asked for are those in
the table when it is made. -/
theorem walk_misses_nothing_iff (s₀ : WalkState app) (es : List (Event app)) (limit : ℕ)
    (hpages : s₀.pages = []) (hstart : s₀.position = .resume none)
    (hrun : run query userId s₀ es = some s)
    (hlast : step query userId s (.request limit) = some s')
    (hfinished : s'.position = .finished) :
    (∀ row ∈ app.matching s.database query userId,
        ((s'.pages.flatMap ListSection.items).map app.itemId).count (app.id row) = 1) ↔
      RunKeepsAhead query userId s₀ es := by
  -- before the first page nothing is out and nothing has been passed
  have h₀ : s₀.Sound (.resume none) :=
    ⟨hstart, by simp [outIds, hpages], by simp [outIds, hpages], by simp [outIds, hpages]⟩
  have hall₀ : s₀.AllOut query userId (.resume none) := by
    intro _ _ hpassed
    exact hpassed.elim
  obtain ⟨pos, h, -, hall, hbehind, -⟩ := run_invariant h₀ hrun
  rcases step_cases hlast with ⟨_, _, _, heq, -⟩ | ⟨_, _, _, heq, -⟩ |
    ⟨limit', cursor, page, -, hposition, hlimit, hfetch, rfl⟩
  · cases heq
  · cases heq
  have hopen : s.position ≠ .finished := by rw [hposition]; simp
  obtain ⟨c, p, rfl, rfl, hp, hpos'⟩ := exists_page h hposition hlimit hfetch
  have h' := h.receive hp hpos'
  -- the walk is finished, so every row has been passed
  have hfin : p.position = .finished := by
    rw [hpos'] at hfinished
    cases hq : p.position with
    | finished => rfl
    | resume d =>
      rw [hq] at hfinished
      cases hfinished
  constructor
  · intro honce
    by_contra hnot
    obtain ⟨row, hmissed⟩ := hbehind hnot
    have hm := hmissed.receive hp
    have hcount := honce row hm.1
    have hzero := List.count_eq_zero_of_not_mem hm.2.2
    unfold outIds at hzero
    omega
  · intro hahead row hrow
    have hout := (hall hopen hahead hall₀).receive hp row hrow (by rw [hfin]; trivial)
    apply List.count_eq_one_of_mem
    · exact h'.sorted.imp fun hlt => hlt.ne
    · exact hout

end Invariants

/-! ### Commits ahead of the cursor and behind it -/

/-- An empty table, and a client that has not asked yet. -/
def WalkState.small : WalkState .investigator where
  database := Database.small.withTable .investigator .empty
  clock := ⟨9, by decide⟩
  uncommitted := []
  pages := []
  position := .resume none
  le_clock := by simp
  nodup := by simp [Table.empty]

/-- A person with an id. -/
def person (id : ℕ) (h : id < 2 ^ 128) (name : String) : InvestigatorEntity :=
  { id := ⟨id, h⟩, type := "pessoa", name, data := [], createdAt := ⟨1769904000000000⟩ }

/-- The last row built is committed while the client holds the cursor of the first. -/
def earlyCommit : List (Event .investigator) :=
  [.mint (person 10 (by decide) "Ana"), .mint (person 11 (by decide) "Bianca"),
   .mint (person 12 (by decide) "Joana"), .commit 0, .commit 0, .request 1, .commit 0, .request 1]

/-- The first row built is committed last, behind the cursor of the first page. -/
def lateCommit : List (Event .investigator) :=
  [.mint (person 10 (by decide) "Ana"), .mint (person 11 (by decide) "Bianca"),
   .mint (person 12 (by decide) "Joana"), .commit 1, .commit 1, .request 1, .commit 0]

/-- The ids that match and the ids returned, after a run and one more request. -/
def idsAfter (es : List (Event .investigator)) :
    Option (List Uuid × List Uuid × Position String) :=
  (run "an" "" WalkState.small es).bind fun s =>
    (step "an" "" s (.request 1)).map fun s' =>
      ((Paginated.investigator.matching s.database "an" "").map Paginated.investigator.id,
        s'.outIds, s'.position)

theorem exists_of_idsAfter {es : List (Event .investigator)} {ids out : List Uuid}
    (h : idsAfter es = some (ids, out, .finished)) :
    ∃ s s', run "an" "" WalkState.small es = some s ∧ step "an" "" s (.request 1) = some s' ∧
      s'.position = .finished ∧
      (Paginated.investigator.matching s.database "an" "").map Paginated.investigator.id = ids ∧
      (s'.pages.flatMap ListSection.items).map Paginated.investigator.itemId = out := by
  rw [idsAfter, Option.bind_eq_some_iff] at h
  obtain ⟨s, hrun, hs'⟩ := h
  rw [Option.map_eq_some_iff] at hs'
  obtain ⟨s', hlast, hvalues⟩ := hs'
  rw [Prod.mk.injEq, Prod.mk.injEq] at hvalues
  obtain ⟨hmatching, hout, hfinished⟩ := hvalues
  exact ⟨s, s', hrun, hlast, hfinished, hmatching, hout⟩

theorem idsAfter_earlyCommit : idsAfter earlyCommit =
    some ([⟨10, by decide⟩, ⟨11, by decide⟩, ⟨12, by decide⟩],
      [⟨10, by decide⟩, ⟨11, by decide⟩, ⟨12, by decide⟩], .finished) := by
  decide +kernel

theorem idsAfter_lateCommit : idsAfter lateCommit =
    some ([⟨11, by decide⟩, ⟨12, by decide⟩, ⟨10, by decide⟩],
      [⟨11, by decide⟩, ⟨12, by decide⟩], .finished) := by
  decide +kernel

/-- Row 10 is in the table and not among the ids returned. -/
theorem exists_count_ne_one_of_lateCommit {db : Database} {out : List Uuid}
    (hmatching : (Paginated.investigator.matching db "an" "").map Paginated.investigator.id
      = [⟨11, by decide⟩, ⟨12, by decide⟩, ⟨10, by decide⟩])
    (hout : out = [⟨11, by decide⟩, ⟨12, by decide⟩]) :
    ∃ row ∈ Paginated.investigator.matching db "an" "",
      out.count (Paginated.investigator.id row) ≠ 1 := by
  have hmem : (⟨10, by decide⟩ : Uuid) ∈
      (Paginated.investigator.matching db "an" "").map Paginated.investigator.id := by
    rw [hmatching]
    decide
  obtain ⟨row, hrow, hid⟩ := List.mem_map.mp hmem
  refine ⟨row, hrow, ?_⟩
  rw [hid, hout]
  decide

/-- The run that commits ahead of the cursor keeps ahead and returns its three rows;
the one that commits behind it does not. -/
theorem walk_misses_nothing_iff_small :
    RunKeepsAhead "an" "" WalkState.small earlyCommit ∧
      ¬RunKeepsAhead "an" "" WalkState.small lateCommit := by
  constructor
  · obtain ⟨s, s', hrun, hlast, hfinished, hmatching, hout⟩ :=
      exists_of_idsAfter idsAfter_earlyCommit
    refine (walk_misses_nothing_iff _ _ 1 rfl rfl hrun hlast hfinished).mp ?_
    intro row hrow
    have hid := List.mem_map_of_mem (f := Paginated.investigator.id) hrow
    rw [hmatching] at hid
    rw [hout]
    exact List.count_eq_one_of_mem (by decide) hid
  · obtain ⟨s, s', hrun, hlast, hfinished, hmatching, hout⟩ :=
      exists_of_idsAfter idsAfter_lateCommit
    intro hahead
    have honce := (walk_misses_nothing_iff _ _ 1 rfl rfl hrun hlast hfinished).mpr hahead
    obtain ⟨row, hrow, hcount⟩ := exists_count_ne_one_of_lateCommit hmatching hout
    exact hcount (honce row hrow)

/-- Three rows are minted in order and the first is committed after the second was
returned: the finished walk has not returned it. -/
theorem walk_misses_late_commit :
    ¬∀ (es : List (Event .investigator)) (limit : ℕ) (s s' : WalkState .investigator),
      run "an" "" WalkState.small es = some s →
      step "an" "" s (.request limit) = some s' → s'.position = .finished →
      ∀ row ∈ Paginated.investigator.matching s.database "an" "",
        ((s'.pages.flatMap ListSection.items).map Paginated.investigator.itemId).count
          (Paginated.investigator.id row) = 1 := by
  intro h
  obtain ⟨s, s', hrun, hlast, hfinished, hmatching, hout⟩ :=
    exists_of_idsAfter idsAfter_lateCommit
  obtain ⟨row, hrow, hcount⟩ := exists_count_ne_one_of_lateCommit hmatching hout
  exact hcount (h lateCommit 1 s s' hrun hlast hfinished row hrow)

end SnapSearch
