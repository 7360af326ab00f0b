import Mathlib.Data.List.Chain
import SnapSearch.Lib.Keyset

/-!
# How far a walk gets while the collection changes

A client follows the cursors of keyset pages while others write.  Every page but the
last is full, and no key comes out twice, so a walk that has not ended has been given
as many keys as it has asked for.  Where elements are only added, above all that are
there, the pages line up: what is out is the front of the collection as it was read
last.

## Main definitions

* `asked` — how many elements the first requests ask for.
* `Grows` — elements are added above all that are there.
* `Reached` — a cursor and the number of elements before it.
* `AtFront` — a walk that is at the front of what it read last.

## Main results

* `Walk.length_le_card` — what is out is no more than the keys there ever were.
* `asked_le_length_of_resume` — **a walk that has not ended has what it asked for.**
* `atFront_walk` — **on a growing collection a walk is at the front of what it read
  last**, and ends with the first request that covers all there is.
-/

namespace Keyset

variable {ρ κ σ : Type*} [LinearOrder κ] {key : ρ → κ}

/-! ### Requests -/

section Asked

variable (limit : σ → ℕ)

/-- How many elements the first `k` requests ask for. -/
def asked : List σ → ℕ → ℕ
  | [], _ => 0
  | _ :: _, 0 => 0
  | s :: ss, k + 1 => limit s + asked ss k

@[simp] theorem asked_zero (ss : List σ) : asked limit ss 0 = 0 := by
  cases ss <;> rfl

@[simp] theorem asked_cons_succ (s : σ) (ss : List σ) (k : ℕ) :
    asked limit (s :: ss) (k + 1) = limit s + asked limit ss k := rfl

end Asked

/-! ### Any writes -/

/-- What is out is no more than the keys there ever were. -/
theorem Walk.length_le_card {Ss : List (Set ρ)} {out : List ρ} {pos : Position κ}
    (h : Walk key Ss out pos) {keys : Finset κ} (hkeys : ∀ S ∈ Ss, ∀ r ∈ S, key r ∈ keys) :
    out.length ≤ keys.card := by
  have hmem : ∀ r ∈ out, key r ∈ keys := by
    induction h with
    | start => simp
    | @page Ss out cursor S p hwalk hp ih =>
      intro r hr
      rcases List.mem_append.mp hr with hr | hr
      · exact ih (fun T hT => hkeys T (List.mem_append_left _ hT)) r hr
      · exact hkeys S (by simp) r ((hp.mem_iff r).mp hr).1
  have hnodup : (out.map key).Nodup := by
    rw [List.Nodup, List.pairwise_map]
    exact h.pairwise.imp fun hlt => hlt.ne
  calc out.length = (out.map key).toFinset.card := by
        rw [List.toFinset_card_of_nodup hnodup, List.length_map]
    _ ≤ keys.card := by
        apply Finset.card_le_card
        intro k hk
        rw [List.mem_toFinset, List.mem_map] at hk
        obtain ⟨r, hr, rfl⟩ := hk
        exact hmem r hr

section Walks

variable {rows : σ → List ρ} {limit : σ → ℕ}

/-- **A walk that has not ended has what it asked for**, whatever is written between
its requests. -/
theorem asked_le_length_of_resume {ss : List σ} (hlimits : ∀ s ∈ ss, 1 ≤ limit s)
    {cursor c : Option κ}
    (h : (walk (fun c s => page key (rows s) c (limit s)) cursor ss).2 = .resume c) :
    asked limit ss ss.length = ((walk (fun c s => page key (rows s) c (limit s)) cursor
      ss).1.flatMap Page.items).length := by
  induction ss generalizing cursor with
  | nil => rfl
  | cons s ss ih =>
    rw [List.forall_mem_cons] at hlimits
    rw [walk] at h ⊢
    cases hnext : (page key (rows s) cursor (limit s)).next with
    | none =>
      rw [hnext] at h
      cases h
    | some d =>
      rw [hnext] at h
      -- a page that announces another one is full
      have hfull : limit s < (remaining key (rows s) cursor).length := by
        by_contra hle
        rw [(page_next_eq_none_iff hlimits.1).mpr (by omega)] at hnext
        cases hnext
      simp only [List.length_cons, asked_cons_succ, List.flatMap_cons, List.length_append,
        ih hlimits.2 h, page_items, List.length_take]
      omega

/-! ### Writes at the end -/

variable (key) in
/-- Elements are added, and all of them above those that are there. -/
def Grows (rows rows' : List ρ) : Prop :=
  ∃ new, rows'.Perm (rows ++ new) ∧ ∀ r ∈ rows, ∀ r' ∈ new, key r < key r'

/-- What is added goes to the end. -/
theorem Grows.front {rows rows' : List ρ} (h : Grows key rows rows')
    (hrows' : (rows'.map key).Nodup) :
    remaining key rows none <+: remaining key rows' none := by
  obtain ⟨new, hperm, habove⟩ := h
  have hboth : ((rows ++ new).map key).Nodup := (hperm.map key).nodup_iff.mp hrows'
  rw [List.map_append, List.nodup_append] at hboth
  refine ⟨remaining key new none, ?_⟩
  apply eq_of_pairwise_of_mem_iff _ (pairwise_remaining hrows' none)
  · intro r
    simp [hperm.mem_iff]
  · rw [List.pairwise_append]
    refine ⟨pairwise_remaining hboth.1 none, pairwise_remaining hboth.2.1 none, ?_⟩
    intro r hr r' hr'
    exact habove r (mem_remaining.mp hr).1 r' (mem_remaining.mp hr').1

variable (key) in
/-- The cursor is that of the `n`-th element: the first `n` are out. -/
def Reached (rows : List ρ) : Option κ → ℕ → Prop
  | none, n => n = 0
  | some c, n => ∃ m, n = m + 1 ∧ (remaining key rows none)[m]?.map key = some c

theorem Reached.mono {rows rows' : List ρ} {cursor : Option κ} {n : ℕ}
    (h : Reached key rows cursor n)
    (hfront : remaining key rows none <+: remaining key rows' none) :
    Reached key rows' cursor n := by
  cases cursor with
  | none => exact h
  | some c =>
    obtain ⟨m, rfl, hm⟩ := h
    refine ⟨m, rfl, ?_⟩
    obtain ⟨r, hr, rfl⟩ := Option.map_eq_some_iff.mp hm
    obtain ⟨new, hnew⟩ := hfront
    rw [← hnew, List.getElem?_append_left (List.getElem?_eq_some_iff.mp hr).1, hr]
    rfl

/-- What remains are the elements that are not out. -/
theorem Reached.remaining_eq {rows : List ρ} (hrows : (rows.map key).Nodup) {cursor : Option κ}
    {n : ℕ} (h : Reached key rows cursor n) :
    remaining key rows cursor = (remaining key rows none).drop n := by
  cases cursor with
  | none =>
    obtain rfl : n = 0 := h
    rfl
  | some c =>
    obtain ⟨m, rfl, hm⟩ := h
    obtain ⟨r, hr, rfl⟩ := Option.map_eq_some_iff.mp hm
    obtain ⟨hlt, rfl⟩ := List.getElem?_eq_some_iff.mp hr
    rw [remaining_some_of_above hrows (above_none _),
      filter_lt_eq_drop (pairwise_remaining hrows none) hlt]

/-- The cursor after a page. -/
theorem Reached.next {rows : List ρ} (hrows : (rows.map key).Nodup) {cursor : Option κ} {n : ℕ}
    (h : Reached key rows cursor n) {limit : ℕ} (hlimit : 1 ≤ limit) {c : κ}
    (hnext : (page key rows cursor limit).next = some c) :
    Reached key rows (some c) (n + limit) ∧ n + limit < (remaining key rows none).length := by
  rw [page_next, h.remaining_eq hrows] at hnext
  split at hnext
  · next hlt =>
    rw [List.length_drop] at hlt
    refine ⟨⟨n + (limit - 1), by omega, ?_⟩, by omega⟩
    rw [← hnext, List.getLast?_eq_getElem?, List.length_take, List.length_drop,
      Nat.min_eq_left (by omega), List.getElem?_take_of_lt (by omega), List.getElem?_drop]
  · cases hnext

variable (key rows limit) in
/-- A walk from the `n`-th element on: its pages hold what stands between there and
what has been asked for, as it was read last; it goes on while that does not cover
what there is. -/
structure AtFront (n : ℕ) (ss : List σ) (w : List (Page ρ κ) × Position κ) : Prop where
  length_le : w.1.length ≤ ss.length
  items_eq : ∀ s, ss[w.1.length - 1]? = some s → w.1.flatMap Page.items =
    ((remaining key (rows s) none).take (n + asked limit ss w.1.length)).drop n
  covered_iff : ∀ m s, m < w.1.length → ss[m]? = some s →
    ((remaining key (rows s) none).length ≤ n + asked limit ss (m + 1) ↔
      w.2 = .finished ∧ m + 1 = w.1.length)
  ne_nil : w.2 = .finished → w.1 ≠ []
  length_eq : w.2 ≠ .finished → w.1.length = ss.length

/-- A walk that has ended holds all that was there when it was read last. -/
theorem AtFront.of_finished {n : ℕ} {ss : List σ} {w : List (Page ρ κ) × Position κ}
    (h : AtFront key rows limit n ss w) (hpos : w.2 = .finished) :
    ∃ s, ss[w.1.length - 1]? = some s ∧
      (remaining key (rows s) none).length ≤ n + asked limit ss w.1.length ∧
      w.1.flatMap Page.items = (remaining key (rows s) none).drop n := by
  have hpositive := List.length_pos_iff.mpr (h.ne_nil hpos)
  have hle := h.length_le
  have hs : ss[w.1.length - 1]? = some ss[w.1.length - 1] := List.getElem?_eq_getElem (by omega)
  have hcovered := (h.covered_iff _ _ (by omega) hs).mpr ⟨hpos, by omega⟩
  rw [Nat.sub_add_cancel hpositive] at hcovered
  refine ⟨_, hs, hcovered, ?_⟩
  rw [h.items_eq _ hs, List.take_of_length_le hcovered]

/-- Two slices that meet are one. -/
theorem drop_take_append_drop_take {l : List ρ} {a b c : ℕ} (hab : a ≤ b) (hbc : b ≤ c)
    (hb : b ≤ l.length) : (l.take b).drop a ++ (l.take c).drop b = (l.take c).drop a := by
  have htake : l.take b = (l.take c).take b := by rw [List.take_take, Nat.min_eq_left hbc]
  have hlen : a ≤ ((l.take c).take b).length := by
    rw [← htake, List.length_take]
    omega
  rw [htake, ← List.drop_append_of_le_length hlen, List.take_append_drop]

/-- On a growing collection, what was there is in front of what is there later. -/
theorem pairwise_front {ss : List σ} (hrows : ∀ s ∈ ss, ((rows s).map key).Nodup)
    (hgrows : ss.IsChain fun s s' => Grows key (rows s) (rows s')) :
    ss.Pairwise fun s s' => remaining key (rows s) none <+: remaining key (rows s') none := by
  have htrans : IsTrans σ fun s s' =>
      remaining key (rows s) none <+: remaining key (rows s') none :=
    ⟨fun _ _ _ => List.IsPrefix.trans⟩
  rw [← List.isChain_iff_pairwise]
  exact hgrows.imp_of_mem_imp fun s s' _ hs' h => h.front (hrows s' hs')

/-- **On a growing collection a walk is at the front of what it read last.** -/
theorem atFront_walk {ss : List σ} (hrows : ∀ s ∈ ss, ((rows s).map key).Nodup)
    (hlimits : ∀ s ∈ ss, 1 ≤ limit s)
    (hgrows : ss.Pairwise fun s s' =>
      remaining key (rows s) none <+: remaining key (rows s') none)
    {cursor : Option κ} {n : ℕ} (hreached : ∀ s ∈ ss.head?, Reached key (rows s) cursor n) :
    AtFront key rows limit n ss
      (walk (fun c s => page key (rows s) c (limit s)) cursor ss) := by
  -- each page brings the cursor of the next request forward by its limit
  induction ss generalizing cursor n with
  | nil => exact ⟨le_rfl, by simp, by simp, by simp [walk], fun _ => rfl⟩
  | cons s ss ih =>
    rw [List.forall_mem_cons] at hrows hlimits
    rw [List.pairwise_cons] at hgrows
    have hreached := hreached s rfl
    have hremaining := hreached.remaining_eq hrows.1
    have hitems : (page key (rows s) cursor (limit s)).items =
        ((remaining key (rows s) none).take (n + limit s)).drop n := by
      rw [page_items, hremaining, List.drop_take, Nat.add_sub_cancel_left]
    rw [walk]
    cases hnext : (page key (rows s) cursor (limit s)).next with
    | none =>
      have hcovered := (page_next_eq_none_iff hlimits.1).mp hnext
      rw [hremaining, List.length_drop] at hcovered
      refine ⟨by simp, ?_, ?_, by simp, by simp⟩
      · rintro t ht
        cases ht
        simpa using hitems
      · rintro m t hm ht
        obtain rfl : m = 0 := by simpa using hm
        cases ht
        have hle : (remaining key (rows s) none).length ≤ n + limit s := by omega
        simpa using hle
    | some c =>
      obtain ⟨hreached', hlt⟩ := hreached.next hrows.1 hlimits.1 hnext
      have hrest := ih hrows.2 hlimits.2 hgrows.2
        (fun t ht => hreached'.mono (hgrows.1 t (List.mem_of_mem_head? ht)))
      dsimp only
      generalize walk (fun c s => page key (rows s) c (limit s)) (some c) ss = w at hrest ⊢
      obtain ⟨ps, pos⟩ := w
      refine ⟨Nat.succ_le_succ hrest.length_le, ?_, ?_, by simp, ?_⟩
      · rintro t ht
        show (page key (rows s) cursor (limit s)).items ++ ps.flatMap Page.items = _
        rw [hitems]
        cases ps with
        | nil =>
          cases ht
          simp
        | cons p ps =>
          have ht' : ss[ps.length]? = some t := ht
          have hrestItems := hrest.items_eq t ht'
          obtain ⟨new, hnew⟩ := hgrows.1 t (List.mem_of_getElem? ht')
          -- the page holds the same elements as they are read last
          have hsame : (remaining key (rows s) none).take (n + limit s) =
              (remaining key (rows t) none).take (n + limit s) := by
            rw [← hnew, List.take_append_of_le_length hlt.le]
          have hlength : n + limit s ≤ (remaining key (rows t) none).length := by
            rw [← hnew, List.length_append]
            omega
          rw [hrestItems, hsame, drop_take_append_drop_take (by omega) (by omega) hlength]
          simp [Nat.add_assoc]
      · intro m t hm ht
        cases m with
        | zero =>
          cases ht
          have hne : ¬(pos = .finished ∧ 0 + 1 = ps.length + 1) := by
            rintro ⟨hfinished, hlength⟩
            exact hrest.ne_nil hfinished (List.length_eq_zero_iff.mp (by simpa using hlength.symm))
          refine iff_of_false ?_ hne
          simp
          omega
        | succ m =>
          have h := hrest.covered_iff m t (by simpa using hm) ht
          simp only [asked_cons_succ, List.length_cons, Nat.add_right_cancel_iff, ← Nat.add_assoc]
          exact h
      · intro hpos
        exact congrArg (· + 1) (hrest.length_eq hpos)

end Walks

end Keyset
