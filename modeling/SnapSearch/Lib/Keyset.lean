import Mathlib.Data.List.Sort
import Mathlib.Data.Set.Basic
import Mathlib.Algebra.Order.Group.Nat
import Mathlib.Dynamics.PeriodicPts.Defs

/-!
# Keyset pagination

A page of a keyed collection starts after a cursor, runs in key order and stops
at a limit.  One more element than the limit is looked up, only to learn whether
a next page exists; the next cursor is the key of the last element kept.

## Main definitions

* `page key rows cursor limit` — the page of a finite collection.
* `Serves` — what a page promises about the collection it was read from.
* `Walk` — successive pages, each read from a collection of its own.
* `walk` — the walk of a client that follows the cursors it is given.
* `cursorAt` — the cursors of a client that takes "no next page" for "start".

## Main results

* `page_serves` — **a page keeps its promise.**
* `Walk.pairwise`, `Walk.complete` — no key comes out twice, and a key present in
  every collection read so far is out once the cursor has passed it.
* `walk_complete` — **a walk over one collection returns all of it, in order.**
* `flatMap_page_cursorAt` — a client that starts over repeats the collection.
-/

namespace Keyset

variable {ρ κ σ : Type*} [LinearOrder κ] (key : ρ → κ)

/-! ### Pages -/

/-- The keys after a cursor; without a cursor, all of them. -/
def Above (cursor : Option κ) (k : κ) : Prop := ∀ c ∈ cursor, c < k

@[simp] theorem above_none (k : κ) : Above none k := by simp [Above]

@[simp] theorem above_some {c k : κ} : Above (some c) k ↔ c < k := by simp [Above]

instance (cursor : Option κ) (k : κ) : Decidable (Above cursor k) :=
  match cursor with
  | none => isTrue (above_none k)
  | some _ => decidable_of_iff _ above_some.symm

/-- A page, and the cursor of the page after it. -/
structure Page (ρ κ : Type*) where
  items : List ρ
  next : Option κ

/-- The elements after a cursor, in key order. -/
def remaining (rows : List ρ) (cursor : Option κ) : List ρ :=
  (rows.filter fun r => Above cursor (key r)).insertionSort fun a b => key a ≤ key b

/-- The page after a cursor: `limit + 1` elements are looked up, `limit` kept. -/
def page (rows : List ρ) (cursor : Option κ) (limit : ℕ) : Page ρ κ :=
  let found := (remaining key rows cursor).take (limit + 1)
  { items := found.take limit
    next := if limit < found.length then (found.take limit).getLast?.map key else none }

variable {key}

@[simp] theorem mem_remaining {rows : List ρ} {cursor : Option κ} {r : ρ} :
    r ∈ remaining key rows cursor ↔ r ∈ rows ∧ Above cursor (key r) := by
  simp [remaining]

/-- The elements come in strictly increasing key order. -/
theorem pairwise_remaining {rows : List ρ} (hrows : (rows.map key).Nodup) (cursor : Option κ) :
    (remaining key rows cursor).Pairwise fun a b => key a < key b := by
  have htotal : Std.Total fun a b : ρ => key a ≤ key b := ⟨fun a b => le_total _ _⟩
  have htrans : IsTrans ρ fun a b : ρ => key a ≤ key b := ⟨fun a b c => le_trans⟩
  -- sorting gives the order, and distinct keys make it strict
  have hle : (remaining key rows cursor).Pairwise fun a b => key a ≤ key b :=
    List.pairwise_insertionSort _ _
  have hne : (remaining key rows cursor).Pairwise fun a b => key a ≠ key b := by
    rw [← List.pairwise_map (f := key) (R := (· ≠ ·))]
    have hperm := (List.perm_insertionSort (fun a b : ρ => key a ≤ key b)
      (rows.filter fun r => Above cursor (key r))).map key
    exact hperm.nodup_iff.mpr (hrows.sublist (List.filter_sublist.map key))
  exact (hle.and hne).imp fun h => lt_of_le_of_ne h.1 h.2

/-- Two lists in strict key order with the same elements are equal. -/
theorem eq_of_pairwise_of_mem_iff {l₁ l₂ : List ρ} (h₁ : l₁.Pairwise fun a b => key a < key b)
    (h₂ : l₂.Pairwise fun a b => key a < key b) (hmem : ∀ r, r ∈ l₁ ↔ r ∈ l₂) : l₁ = l₂ := by
  have hnodup : ∀ {l : List ρ}, l.Pairwise (fun a b => key a < key b) → l.Nodup := by
    intro l h
    apply h.imp
    rintro a _ hlt rfl
    exact lt_irrefl _ hlt
  refine ((List.perm_ext_iff_of_nodup (hnodup h₁) (hnodup h₂)).mpr hmem).eq_of_pairwise ?_ h₁ h₂
  intro a b _ _ hab hba
  exact absurd (hab.trans hba) (lt_irrefl _)

/-- What remains depends on the elements only, not on how they are stored. -/
theorem remaining_congr {rows rows' : List ρ} (hrows : (rows.map key).Nodup)
    (hrows' : (rows'.map key).Nodup) (hmem : ∀ r, r ∈ rows ↔ r ∈ rows') (cursor : Option κ) :
    remaining key rows cursor = remaining key rows' cursor := by
  apply eq_of_pairwise_of_mem_iff (pairwise_remaining hrows _) (pairwise_remaining hrows' _)
  intro r
  rw [mem_remaining, mem_remaining, hmem]

/-- In strict key order, what lies above an element is what follows it. -/
theorem filter_lt_eq_drop {l : List ρ} (hl : l.Pairwise fun a b => key a < key b) {n : ℕ}
    (hn : n < l.length) : (l.filter fun r => key l[n] < key r) = l.drop (n + 1) := by
  induction l generalizing n with
  | nil => simp at hn
  | cons a l ih =>
    rw [List.pairwise_cons] at hl
    cases n with
    | zero =>
      have hall : ∀ r ∈ l, decide (key a < key r) = true := by
        intro r hr
        simpa using hl.1 r hr
      rw [List.getElem_cons_zero, List.filter_cons_of_neg (by simp), List.filter_eq_self.mpr hall]
      rfl
    | succ n =>
      have hn' : n < l.length := by simpa using hn
      have hlt : key a < key l[n] := hl.1 _ (List.getElem_mem hn')
      rw [List.getElem_cons_succ, List.filter_cons_of_neg (by simpa using hlt.le), ih hl.2 hn']
      rfl

/-- Moving the cursor forward narrows what remains. -/
theorem remaining_some_of_above {rows : List ρ} (hrows : (rows.map key).Nodup)
    {cursor : Option κ} {c : κ} (hc : Above cursor c) :
    remaining key rows (some c) = (remaining key rows cursor).filter fun r => c < key r := by
  apply eq_of_pairwise_of_mem_iff (pairwise_remaining hrows _)
    ((pairwise_remaining hrows _).filter _)
  intro r
  rw [mem_remaining, List.mem_filter, mem_remaining, above_some, decide_eq_true_eq]
  constructor
  · rintro ⟨hr, hlt⟩
    refine ⟨⟨hr, ?_⟩, hlt⟩
    intro d hd
    exact (hc d hd).trans hlt
  · rintro ⟨⟨hr, -⟩, hlt⟩
    exact ⟨hr, hlt⟩

/-! ### What a page is -/

theorem page_items (rows : List ρ) (cursor : Option κ) (limit : ℕ) :
    (page key rows cursor limit).items = (remaining key rows cursor).take limit := by
  simp [page, List.take_take]

theorem page_next (rows : List ρ) (cursor : Option κ) (limit : ℕ) :
    (page key rows cursor limit).next =
      if limit < (remaining key rows cursor).length then
        ((remaining key rows cursor).take limit).getLast?.map key
      else none := by
  have hlen : limit < ((remaining key rows cursor).take (limit + 1)).length ↔
      limit < (remaining key rows cursor).length := by
    rw [List.length_take]
    omega
  simp only [page, hlen, List.take_take, Nat.min_eq_left (Nat.le_succ limit)]

/-- The lookahead says exactly whether something is left. -/
theorem page_next_eq_none_iff {rows : List ρ} {cursor : Option κ} {limit : ℕ} (hlimit : 1 ≤ limit) :
    (page key rows cursor limit).next = none ↔ (remaining key rows cursor).length ≤ limit := by
  rw [page_next]
  split
  · next h =>
    -- a positive limit keeps something, so there is a last key
    apply iff_of_false _ (by omega)
    rw [Option.map_eq_none_iff, List.getLast?_eq_none_iff, List.take_eq_nil_iff]
    rintro (h0 | h0)
    · omega
    · rw [h0] at h
      simp at h
  · next h => exact iff_of_true rfl (by omega)

/-- Where something is left, the cursor is the key of the last element kept, and
the elements after it are the ones not kept. -/
theorem page_next_of_lt {rows : List ρ} (hrows : (rows.map key).Nodup) {cursor : Option κ}
    {limit : ℕ} (hlimit : 1 ≤ limit) (hlt : limit < (remaining key rows cursor).length) :
    ∃ c, (page key rows cursor limit).next = some c ∧ Above cursor c ∧
      (∃ r ∈ (page key rows cursor limit).items, key r = c) ∧
      remaining key rows (some c) = (remaining key rows cursor).drop limit := by
  -- the last element kept stands at `limit - 1`, and what lies above its key follows it
  have hi : limit - 1 < (remaining key rows cursor).length := by omega
  have hlast : ((remaining key rows cursor).take limit).getLast? =
      some (remaining key rows cursor)[limit - 1] := by
    have hlen : ((remaining key rows cursor).take limit).length = limit := by
      rw [List.length_take]
      omega
    rw [List.getLast?_eq_getElem?, hlen, List.getElem?_take_of_lt (by omega),
      List.getElem?_eq_getElem hi]
  have habove := (mem_remaining.mp (List.getElem_mem hi)).2
  refine ⟨key (remaining key rows cursor)[limit - 1], ?_, habove, ?_, ?_⟩
  · rw [page_next, if_pos hlt, hlast]
    rfl
  · refine ⟨_, ?_, rfl⟩
    rw [page_items]
    exact List.mem_of_getLast? hlast
  · rw [remaining_some_of_above hrows habove, filter_lt_eq_drop (pairwise_remaining hrows _) hi,
      Nat.sub_add_cancel hlimit]

/-! ### The promise of a page -/

variable (key) in
/-- A page serves a collection from a cursor: it holds, in key order, exactly the
elements after the cursor and up to the next one, which is the key of one of
them. -/
structure Serves (S : Set ρ) (cursor : Option κ) (p : Page ρ κ) : Prop where
  sorted : p.items.Pairwise fun a b => key a < key b
  mem_iff : ∀ r, r ∈ p.items ↔ r ∈ S ∧ Above cursor (key r) ∧ ∀ c ∈ p.next, key r ≤ c
  last : ∀ c ∈ p.next, ∃ r ∈ p.items, key r = c

/-- **A page keeps its promise.** -/
theorem page_serves {rows : List ρ} (hrows : (rows.map key).Nodup) (cursor : Option κ) {limit : ℕ}
    (hlimit : 1 ≤ limit) : Serves key {r | r ∈ rows} cursor (page key rows cursor limit) := by
  have hsorted := pairwise_remaining hrows cursor
  rcases Nat.lt_or_ge limit (remaining key rows cursor).length with hlt | hge
  · obtain ⟨c, hnext, habove, hlast, hdrop⟩ := page_next_of_lt hrows hlimit hlt
    refine ⟨?_, ?_, ?_⟩
    · rw [page_items]
      exact hsorted.take
    · intro r
      rw [hnext, page_items]
      -- an element is kept or still to come, and `c` tells which
      have hsplit : r ∈ remaining key rows cursor ↔
          r ∈ (remaining key rows cursor).take limit ∨ r ∈ remaining key rows (some c) := by
        rw [hdrop, ← List.mem_append, List.take_append_drop]
      rw [mem_remaining, mem_remaining, above_some] at hsplit
      constructor
      · intro hr
        have hr' := mem_remaining.mp (List.mem_of_mem_take hr)
        refine ⟨hr'.1, hr'.2, ?_⟩
        rintro d ⟨⟩
        by_contra hcr
        have hdrop' : r ∈ (remaining key rows cursor).drop limit := by
          rw [← hdrop, mem_remaining, above_some]
          exact ⟨hr'.1, not_le.mp hcr⟩
        have hpair := hsorted
        rw [← List.take_append_drop limit (remaining key rows cursor),
          List.pairwise_append] at hpair
        exact lt_irrefl _ (hpair.2.2 r hr r hdrop')
      · rintro ⟨hr, habv, hle⟩
        rcases hsplit.mp ⟨hr, habv⟩ with h | h
        · exact h
        · exact absurd h.2 (not_lt.mpr (hle c rfl))
    · rw [hnext]
      rintro d ⟨⟩
      exact hlast
  · -- everything left was kept, and no next page is announced
    have hnone := (page_next_eq_none_iff hlimit).mpr hge
    have hitems : (page key rows cursor limit).items = remaining key rows cursor := by
      rw [page_items, List.take_of_length_le hge]
    refine ⟨?_, ?_, ?_⟩
    · rw [hitems]
      exact hsorted
    · intro r
      rw [hitems, hnone, mem_remaining]
      simp
    · rw [hnone]
      simp

/-! ### Walks over changing collections -/

/-- Where a client stands: about to ask with a cursor, or done. -/
inductive Position (κ : Type*)
  | resume (cursor : Option κ)
  | finished
  deriving DecidableEq

/-- A position, with its cursor in another form. -/
def Position.map {τ : Type*} (f : κ → τ) : Position κ → Position τ
  | .resume cursor => .resume (cursor.map f)
  | .finished => .finished

/-- The position after a page. -/
def Page.position (p : Page ρ κ) : Position κ :=
  match p.next with
  | none => .finished
  | some c => .resume (some c)

/-- A key the client has passed. -/
def Position.Passed : Position κ → κ → Prop
  | .resume none, _ => False
  | .resume (some c), k => k ≤ c
  | .finished, _ => True

variable (key) in
/-- A walk: the collections its pages were read from, what came out, and where
the client stands. -/
inductive Walk : List (Set ρ) → List ρ → Position κ → Prop
  | start : Walk [] [] (.resume none)
  | page {Ss : List (Set ρ)} {out : List ρ} {cursor : Option κ} {S : Set ρ} {p : Page ρ κ}
      (h : Walk Ss out (.resume cursor)) (hp : Serves key S cursor p) :
      Walk (Ss ++ [S]) (out ++ p.items) p.position

namespace Walk

variable {Ss : List (Set ρ)} {out : List ρ} {pos : Position κ}

/-- The client has passed every key that came out. -/
theorem passed (h : Walk key Ss out pos) : ∀ r ∈ out, pos.Passed (key r) := by
  induction h with
  | start => simp
  | @page Ss out cursor S p hwalk hp ih =>
    intro r hr
    cases hnext : p.next with
    | none => simp [Page.position, hnext, Position.Passed]
    | some c =>
      simp only [Page.position, hnext, Position.Passed]
      rcases List.mem_append.mp hr with hr | hr
      · -- an earlier element lies below the old cursor, which lies below the new one
        obtain ⟨q, hq, rfl⟩ := hp.last c hnext
        have habove := ((hp.mem_iff q).mp hq).2.1
        have hold := ih r hr
        cases cursor with
        | none => exact hold.elim
        | some d => exact le_of_lt (lt_of_le_of_lt hold (above_some.mp habove))
      · exact ((hp.mem_iff r).mp hr).2.2 c hnext

/-- **Keys come out in strictly increasing order**, so none comes out twice. -/
theorem pairwise (h : Walk key Ss out pos) : out.Pairwise fun a b => key a < key b := by
  induction h with
  | start => exact List.Pairwise.nil
  | @page Ss out cursor S p hwalk hp ih =>
    rw [List.pairwise_append]
    refine ⟨ih, hp.sorted, ?_⟩
    intro a ha b hb
    -- what is out lies below the cursor, and the new page above it
    have hold := hwalk.passed a ha
    have hnew := ((hp.mem_iff b).mp hb).2.1
    cases cursor with
    | none => exact hold.elim
    | some d => exact lt_of_le_of_lt hold (above_some.mp hnew)

/-- **A key present in every collection read is out once the client has passed
it.** -/
theorem complete (h : Walk key Ss out pos) {k : κ} (hk : ∀ S ∈ Ss, ∃ r ∈ S, key r = k)
    (hpos : pos.Passed k) : ∃ r ∈ out, key r = k := by
  induction h with
  | start => exact hpos.elim
  | @page Ss out cursor S p hwalk hp ih =>
    have ih' := ih fun T hT => hk T (List.mem_append_left _ hT)
    by_cases hold : (Position.resume cursor).Passed k
    · obtain ⟨r, hr, hrk⟩ := ih' hold
      exact ⟨r, List.mem_append_left _ hr, hrk⟩
    · -- not passed before this page, so the page itself returned it
      obtain ⟨r, hr, hrk⟩ := hk S (by simp)
      refine ⟨r, ?_, hrk⟩
      apply List.mem_append_right
      refine (hp.mem_iff r).mpr ⟨hr, ?_, ?_⟩
      · cases cursor with
        | none => simp
        | some d =>
          rw [above_some, hrk]
          exact not_le.mp hold
      · intro c hc
        rw [Option.mem_def] at hc
        simp only [Page.position, hc, Position.Passed] at hpos
        rw [hrk]
        exact hpos

end Walk

/-! ### The walk of a client -/

/-- Follow the cursors: one page per request, until no next page is announced or
the requests are used up. -/
def walk (fetch : Option κ → σ → Page ρ κ) : Option κ → List σ → List (Page ρ κ) × Position κ
  | cursor, [] => ([], .resume cursor)
  | cursor, s :: ss =>
      match (fetch cursor s).next with
      | none => ([fetch cursor s], .finished)
      | some c => (fetch cursor s :: (walk fetch (some c) ss).1, (walk fetch (some c) ss).2)

omit [LinearOrder κ] in
/-- A walk sees what it meets through its requests only. -/
theorem walk_map {τ : Type*} (fetch : Option κ → σ → Page ρ κ) (f : τ → σ) (cursor : Option κ)
    (ts : List τ) : walk fetch cursor (ts.map f) = walk (fun c t => fetch c (f t)) cursor ts := by
  induction ts generalizing cursor with
  | nil => rfl
  | cons t ts ih => simp only [List.map_cons, walk, ih]

omit [LinearOrder κ] in
/-- Each page of a walk answers one of its requests. -/
theorem exists_of_walk_getElem? {fetch : Option κ → σ → Page ρ κ} {cursor : Option κ}
    {ss : List σ} {i : ℕ} {p : Page ρ κ} (h : (walk fetch cursor ss).1[i]? = some p) :
    ∃ c s, ss[i]? = some s ∧ p = fetch c s := by
  induction ss generalizing cursor i with
  | nil => simp [walk] at h
  | cons s ss ih =>
    rw [walk] at h
    cases i with
    | zero =>
      refine ⟨cursor, s, rfl, ?_⟩
      split at h <;> simpa using h.symm
    | succ i =>
      split at h
      · simp at h
      · exact ih (by simpa using h)

/-- The client's pages are a walk over the collections it asked. -/
theorem walk_walk {fetch : Option κ → σ → Page ρ κ} {S : σ → Set ρ} {ss : List σ}
    (hfetch : ∀ cursor, ∀ s ∈ ss, Serves key (S s) cursor (fetch cursor s)) :
    ∀ {cursor : Option κ} {Ss : List (Set ρ)} {out : List ρ}, Walk key Ss out (.resume cursor) →
      Walk key (Ss ++ (ss.take (walk fetch cursor ss).1.length).map S)
        (out ++ (walk fetch cursor ss).1.flatMap Page.items) (walk fetch cursor ss).2 := by
  induction ss with
  | nil => intro cursor Ss out h; simpa [walk] using h
  | cons s ss ih =>
    intro cursor Ss out h
    have hstep := h.page (hfetch cursor s List.mem_cons_self)
    cases hnext : (fetch cursor s).next with
    | none => simpa [walk, hnext, Page.position] using hstep
    | some c =>
      simp only [Page.position, hnext] at hstep
      have hfetch' : ∀ cursor, ∀ t ∈ ss, Serves key (S t) cursor (fetch cursor t) := by
        intro cursor t ht
        exact hfetch cursor t (List.mem_cons_of_mem _ ht)
      simpa [walk, hnext, List.append_assoc] using ih hfetch' hstep

/-- **A walk over one collection returns all of it, in order**, whatever the
limits: every page but the last is full, and the last one is empty only where
nothing was left to return. -/
theorem walk_complete {rows : List ρ} (hrows : (rows.map key).Nodup) :
    ∀ (n : ℕ) (cursor : Option κ) (limits : ℕ → ℕ), (∀ i, 1 ≤ limits i) →
      (remaining key rows cursor).length ≤ n →
      ∃ k, ∃ w, w = walk (page key rows) cursor ((List.range k).map limits) ∧
        w.2 = .finished ∧ w.1.length = k ∧
        w.1.flatMap Page.items = remaining key rows cursor ∧
        (∀ i p, w.1[i]? = some p → i + 1 < k → p.items.length = limits i) ∧
        (∀ p ∈ w.1.getLast?, p.items = [] → remaining key rows cursor = []) := by
  -- induction on a bound of what remains: each page but the last keeps some of it
  intro n
  induction n with
  | zero =>
    intro cursor limits hlimits hlen
    have hnil := List.length_eq_zero_iff.mp (Nat.le_zero.mp hlen)
    have hnone := (page_next_eq_none_iff (hlimits 0)).mpr (by omega :
      (remaining key rows cursor).length ≤ limits 0)
    refine ⟨1, _, rfl, ?_⟩
    simp [List.range_succ, walk, hnone, page_items, hnil]
  | succ n ih =>
    intro cursor limits hlimits hlen
    rcases Nat.lt_or_ge (limits 0) (remaining key rows cursor).length with hlt | hge
    · obtain ⟨c, hnext, -, -, hdrop⟩ := page_next_of_lt hrows (hlimits 0) hlt
      have hpos := hlimits 0
      obtain ⟨k, w, hw, hfin, hk, hitems, hfull, hlast⟩ := ih (some c) (fun i => limits (i + 1))
        (fun i => hlimits (i + 1)) (by rw [hdrop, List.length_drop]; omega)
      have hunfold : walk (page key rows) cursor ((List.range (k + 1)).map limits)
          = (page key rows cursor (limits 0) :: w.1, w.2) := by
        rw [List.range_succ_eq_map, List.map_cons, List.map_map, walk]
        simp only [hnext, hw]
        rfl
      refine ⟨k + 1, _, hunfold.symm, hfin, by simp [hk], ?_, ?_, ?_⟩
      · rw [List.flatMap_cons, hitems, page_items, hdrop, List.take_append_drop]
      · intro i p hp hi
        cases i with
        | zero =>
          simp only [List.getElem?_cons_zero, Option.some.injEq] at hp
          rw [← hp, page_items, List.length_take]
          omega
        | succ i => exact hfull i p (by simpa using hp) (by omega)
      · intro p hp hnil
        -- the later pages hold what was not kept here, which is not nothing
        have hne : w.1 ≠ [] := by
          intro h0
          rw [h0, List.flatMap_nil, hdrop, eq_comm, List.drop_eq_nil_iff] at hitems
          omega
        rw [List.getLast?_cons_of_ne_nil hne] at hp
        have := hlast p hp hnil
        rw [hdrop, List.drop_eq_nil_iff] at this
        omega
    · -- the page holds all that remains, so it is the last one
      have hnone := (page_next_eq_none_iff (hlimits 0)).mpr hge
      refine ⟨1, _, rfl, ?_⟩
      have hitems : (page key rows cursor (limits 0)).items = remaining key rows cursor := by
        rw [page_items, List.take_of_length_le hge]
      simp [List.range_succ, walk, hnone, hitems]

/-! ### A client that starts over -/

/-- How many pages `n` elements take; no elements take one page. -/
def pageCount (n limit : ℕ) : ℕ := max 1 ((n + limit - 1) / limit)

variable (key) in
/-- The cursor of each request of a client that asks without a cursor at first,
and again whenever it was given none. -/
def cursorAt (rows : List ρ) (limit : ℕ) (t : ℕ) : Option κ :=
  (fun cursor => (page key rows cursor limit).next)^[t] none

variable {rows : List ρ} {limit : ℕ}

theorem pageCount_pos (n limit : ℕ) : 0 < pageCount n limit := by
  unfold pageCount
  omega

/-- A page further on exists where the pages before it do not hold everything. -/
theorem succ_lt_pageCount_iff {n t : ℕ} (hlimit : 1 ≤ limit) :
    t + 1 < pageCount n limit ↔ (t + 1) * limit < n := by
  have hdiv : t + 2 ≤ (n + limit - 1) / limit ↔ (t + 2) * limit ≤ n + limit - 1 :=
    Nat.le_div_iff_mul_le hlimit
  have hmul : (t + 2) * limit = (t + 1) * limit + limit := Nat.succ_mul _ _
  unfold pageCount
  omega

@[simp] theorem cursorAt_zero : cursorAt key rows limit 0 = none := rfl

theorem cursorAt_succ (t : ℕ) :
    cursorAt key rows limit (t + 1) = (page key rows (cursorAt key rows limit t) limit).next :=
  Function.iterate_succ_apply' _ _ _

/-- Within the first round, what remains is what the pages so far did not hold. -/
theorem remaining_cursorAt_of_lt (hrows : (rows.map key).Nodup) (hlimit : 1 ≤ limit) {t : ℕ}
    (ht : t < pageCount (remaining key rows none).length limit) :
    remaining key rows (cursorAt key rows limit t)
      = (remaining key rows none).drop (t * limit) := by
  induction t with
  | zero => simp
  | succ t ih =>
    have hlt := (succ_lt_pageCount_iff hlimit).mp ht
    have ih := ih (by omega)
    have hmore : limit < (remaining key rows (cursorAt key rows limit t)).length := by
      rw [ih, List.length_drop]
      have : (t + 1) * limit = t * limit + limit := Nat.succ_mul _ _
      omega
    obtain ⟨c, hnext, -, -, hdrop⟩ := page_next_of_lt hrows hlimit hmore
    rw [cursorAt_succ, hnext, hdrop, ih, List.drop_drop, Nat.succ_mul]

/-- The round ends with its last page, and not before. -/
theorem cursorAt_succ_eq_none_iff (hrows : (rows.map key).Nodup) (hlimit : 1 ≤ limit) {t : ℕ}
    (ht : t < pageCount (remaining key rows none).length limit) :
    cursorAt key rows limit (t + 1) = none ↔
      t + 1 = pageCount (remaining key rows none).length limit := by
  have hmul : (t + 1) * limit = t * limit + limit := Nat.succ_mul _ _
  have hlast := (succ_lt_pageCount_iff (n := (remaining key rows none).length) (t := t) hlimit)
  rw [cursorAt_succ, page_next_eq_none_iff hlimit, remaining_cursorAt_of_lt hrows hlimit ht,
    List.length_drop]
  omega

/-- The rounds repeat. -/
theorem cursorAt_mod (hrows : (rows.map key).Nodup) (hlimit : 1 ≤ limit) (t : ℕ) :
    cursorAt key rows limit (t % pageCount (remaining key rows none).length limit)
      = cursorAt key rows limit t := by
  have hpos := pageCount_pos (remaining key rows none).length limit
  -- the cursor after the last page of a round is absent, so the iteration is periodic
  have hround := (cursorAt_succ_eq_none_iff
    (t := pageCount (remaining key rows none).length limit - 1) hrows hlimit (by omega)).mpr
    (by omega)
  rw [Nat.sub_add_cancel hpos] at hround
  exact Function.IsPeriodicPt.iterate_mod_apply hround t

/-- **The cursor is absent exactly at the start of a round.** -/
theorem cursorAt_eq_none_iff (hrows : (rows.map key).Nodup) (hlimit : 1 ≤ limit) {t : ℕ} :
    cursorAt key rows limit t = none ↔ pageCount (remaining key rows none).length limit ∣ t := by
  have hpos := pageCount_pos (remaining key rows none).length limit
  rw [← cursorAt_mod hrows hlimit, Nat.dvd_iff_mod_eq_zero]
  have hlt := Nat.mod_lt t hpos
  -- within a round only the first request has no cursor
  cases hmod : t % pageCount (remaining key rows none).length limit with
  | zero => simp
  | succ u =>
    rw [hmod] at hlt
    rw [cursorAt_succ_eq_none_iff hrows hlimit (by omega)]
    omega

/-- The pages of a round hold everything, in order. -/
theorem flatMap_page_round (hrows : (rows.map key).Nodup) (hlimit : 1 ≤ limit) :
    ((List.range (pageCount (remaining key rows none).length limit)).flatMap fun t =>
      (page key rows (cursorAt key rows limit t) limit).items) = remaining key rows none := by
  -- the first `k` pages hold the first `k * limit` elements
  have hpart : ∀ k ≤ pageCount (remaining key rows none).length limit,
      ((List.range k).flatMap fun t => (page key rows (cursorAt key rows limit t) limit).items)
        = (remaining key rows none).take (k * limit) := by
    intro k
    induction k with
    | zero => simp
    | succ k ih =>
      intro hk
      rw [List.range_succ, List.flatMap_append, ih (by omega), List.flatMap_singleton, page_items,
        remaining_cursorAt_of_lt hrows hlimit (by omega), Nat.succ_mul, List.take_add]
  have hlast := (succ_lt_pageCount_iff (n := (remaining key rows none).length)
    (t := pageCount (remaining key rows none).length limit - 1) hlimit)
  have hpos := pageCount_pos (remaining key rows none).length limit
  rw [Nat.sub_add_cancel hpos] at hlast
  rw [hpart _ le_rfl, List.take_of_length_le (by omega)]

/-- **A client that starts over repeats the collection**, once in every round. -/
theorem flatMap_page_cursorAt (hrows : (rows.map key).Nodup) (hlimit : 1 ≤ limit) (m : ℕ) :
    ((List.range (pageCount (remaining key rows none).length limit * m)).flatMap fun t =>
      (page key rows (cursorAt key rows limit t) limit).items)
      = (List.replicate m (remaining key rows none)).flatten := by
  induction m with
  | zero => simp
  | succ m ih =>
    rw [Nat.mul_succ, List.range_add, List.flatMap_append, ih, List.flatMap_map,
      List.replicate_succ', List.flatten_append]
    congr 1
    rw [List.flatten_singleton]
    -- the cursors of the last round are those of the first
    have hshift : ∀ t, cursorAt key rows limit
        (pageCount (remaining key rows none).length limit * m + t) = cursorAt key rows limit t := by
      intro t
      rw [← cursorAt_mod hrows hlimit, Nat.mul_add_mod, cursorAt_mod hrows hlimit]
    simp only [hshift]
    exact flatMap_page_round hrows hlimit

end Keyset
