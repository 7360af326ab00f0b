import Mathlib.Algebra.BigOperators.Group.List.Basic
import SnapSearch.Lib.Visits

/-!
# Threads one after the other

Threads of a system run next to each other, call by call.  Where a call reads only
a part of the shared state that no call changes, and what it does to the rest is to
append to a log and to add to a total, a run of many threads is as good as one in
which each thread makes all of its calls at once.

## Main definitions

* `Prog.EndsAfter` — certain answers are the last that a program gets.
* `System.Passes` — a run with every state it passes.
* `System.Alone`, `System.Serial` — a thread that runs by itself, and threads that
  run one after the other.
* `System.Additive` — calls read a part of the state that stays, and add to the rest.

## Main results

* `System.Serial.reach` — running one after the other is one of the interleavings.
* `System.exists_serial` — **the threads that have ended could have run one after
  the other, in the order in which they ended**, with the same calls and answers, and
  leave the same log.
* `System.Ordered.total_eq` — the total is the same too once every thread has ended.
-/

namespace Prog

variable {ε Op : Type} {Res : Op → Type} {α β : Type} {A : (o : Op) → Except ε (Res o) → Prop}

/-! ### The last answer -/

/-- On every path, an answer that `A` holds of is the last. -/
def EndsAfter (A : (o : Op) → Except ε (Res o) → Prop) : Prog ε Res α → Prop
  | .pure _ => True
  | .raise _ => True
  | .call o k => ∀ r, (A o r → ∃ x, k r = ofExcept x) ∧ (k r).EndsAfter A

theorem endsAfter_ofExcept (x : Except ε α) : (ofExcept x : Prog ε Res α).EndsAfter A := by
  cases x <;> trivial

/-- A program that gets no such answer. -/
theorem endsAfter_of_calls {p : Prog ε Res α} (hp : p.Calls fun o => ∀ r, ¬A o r) :
    p.EndsAfter A := by
  induction p with
  | pure a => trivial
  | raise e => trivial
  | call o k ih =>
    intro r
    exact ⟨fun h => absurd h (hp.1 r), ih r (hp.2 r)⟩

/-- The first part of a sequence gets no such answer. -/
theorem endsAfter_bind_of_calls {p : Prog ε Res α} {f : α → Prog ε Res β}
    (hp : p.Calls fun o => ∀ r, ¬A o r) (hf : ∀ a, (f a).EndsAfter A) :
    (p.bind f).EndsAfter A := by
  induction p with
  | pure a => exact hf a
  | raise e => trivial
  | call o k ih =>
    intro r
    exact ⟨fun h => absurd h (hp.1 r), ih r (hp.2 r)⟩

/-- The second part of a sequence makes no call. -/
theorem endsAfter_bind {p : Prog ε Res α} {f : α → Prog ε Res β} (hp : p.EndsAfter A)
    (hf : ∀ a, ∃ x, f a = ofExcept x) : (p.bind f).EndsAfter A := by
  have hended : ∀ x : Except ε α, ∃ y, (ofExcept x : Prog ε Res α).bind f = ofExcept y := by
    intro x
    cases x with
    | ok a => exact hf a
    | error e => exact ⟨.error e, rfl⟩
  induction p with
  | pure a =>
    obtain ⟨x, hx⟩ := hf a
    rw [bind, hx]
    exact endsAfter_ofExcept x
  | raise e => trivial
  | call o k ih =>
    intro r
    refine ⟨?_, ih r (hp r).2⟩
    intro h
    obtain ⟨x, hx⟩ := (hp r).1 h
    show ∃ y, (k r).bind f = ofExcept y
    rw [hx]
    exact hended x

end Prog

namespace System

variable {τ S L ε Op : Type} {Res : Op → Type} {α : Type} (M : System τ S L ε Res α)

/-! ### Runs -/

/-- A run with every state it passes, the first and the last among them. -/
inductive Passes (x : S × List (Thread τ L ε Res α)) :
    List (S × List (Thread τ L ε Res α)) → S × List (Thread τ L ε Res α) → Prop
  | refl : Passes x [x] x
  | tail {y z : S × List (Thread τ L ε Res α)} {states : List (S × List (Thread τ L ε Res α))}
      (hrun : Passes x states y) (hstep : M.Step y z) : Passes x (states ++ [z]) z

variable {M} in
theorem Passes.reach {x y : S × List (Thread τ L ε Res α)}
    {states : List (S × List (Thread τ L ε Res α))} (hp : M.Passes x states y) : M.Reach x y := by
  induction hp with
  | refl => exact Relation.ReflTransGen.refl
  | tail _ hstep ih => exact ih.tail hstep

variable {M} in
theorem Passes.mem {x y : S × List (Thread τ L ε Res α)}
    {states : List (S × List (Thread τ L ε Res α))} (hp : M.Passes x states y) : y ∈ states := by
  cases hp <;> simp

variable {M} in
/-- A run that visits states passes them. -/
theorem Visits.passes {x y : S × List (Thread τ L ε Res α)} {visited : List S}
    (hv : M.Visits x visited y) :
    ∃ states, M.Passes x states y ∧ ∀ z ∈ states, z.1 ∈ visited ∨ z.1 = y.1 := by
  induction hv with
  | refl => exact ⟨_, .refl, by simp⟩
  | tail _ hstep ih =>
    obtain ⟨states, hpasses, hstates⟩ := ih
    refine ⟨_, hpasses.tail hstep, ?_⟩
    intro z hz
    rcases List.mem_append.mp hz with hz | hz
    · rcases hstates z hz with hmem | heq
      · exact Or.inl (List.mem_append_left _ hmem)
      · exact Or.inl (List.mem_append_right _ (List.mem_singleton.mpr heq))
    · rw [List.mem_singleton.mp hz]
      exact Or.inr rfl

/-- The thread that is started for `t`. -/
def fresh (t : τ) : Thread τ L ε Res α := ⟨t, M.start, [], M.prog t⟩

/-- A call of a thread, whatever the others do. -/
inductive Call : S × Thread τ L ε Res α → S × Thread τ L ε Res α → Prop
  | exec {s s' : S} {t : τ} {l l' : L} {h : List ((o : Op) × Except ε (Res o))} {o : Op}
      {k : Except ε (Res o) → Prog ε Res α} {r : Except ε (Res o)}
      (hexec : M.exec s l o r s' l') :
      Call (s, ⟨t, l, h, .call o k⟩) (s', ⟨t, l', h ++ [⟨o, r⟩], k r⟩)

/-- Calls of one thread, with nothing between them. -/
def Alone := Relation.ReflTransGen M.Call

end System

/-- The thread has made all of its calls. -/
def Thread.Ended {τ L ε Op : Type} {Res : Op → Type} {α : Type} (th : Thread τ L ε Res α) : Prop :=
  th.prog.result.isSome

namespace System

variable {τ S L ε Op : Type} {Res : Op → Type} {α : Type} (M : System τ S L ε Res α)

/-- Threads that run one after the other, each from its start to its end. -/
inductive Serial (s₀ : S) : List (Thread τ L ε Res α) → S → Prop
  | nil : Serial s₀ [] s₀
  | snoc {ths : List (Thread τ L ε Res α)} {th : Thread τ L ε Res α} {s s' : S}
      (hruns : Serial s₀ ths s) (halone : M.Alone (s, M.fresh th.tag) (s', th))
      (hended : th.Ended) : Serial s₀ (ths ++ [th]) s'

variable {M} in
/-- **Running one after the other is one of the interleavings.** -/
theorem Serial.reach {s₀ s : S} {ths : List (Thread τ L ε Res α)} (h : M.Serial s₀ ths s) :
    M.Reach (s₀, []) (s, ths) := by
  induction h with
  | nil => exact Relation.ReflTransGen.refl
  | @snoc ths th s s' _ halone _ ih =>
    refine (ih.tail (Step.spawn th.tag _ _)).trans ?_
    -- a call of the last thread is a step
    have hlast : ∀ x y : S × Thread τ L ε Res α, M.Alone x y →
        M.Reach (x.1, ths ++ [x.2]) (y.1, ths ++ [y.2]) := by
      intro x y hxy
      induction hxy with
      | refl => exact Relation.ReflTransGen.refl
      | @tail y z _ hcall ih =>
        refine ih.tail ?_
        cases hcall with
        | @exec _ _ t l l' h o k r hexec =>
          have hi : (ths ++ [(⟨t, l, h, .call o k⟩ : Thread τ L ε Res α)])[ths.length]?
              = some ⟨t, l, h, .call o k⟩ := by simp
          have hstep := Step.exec hi hexec
          rwa [List.set_append_right _ _ (Nat.le_refl _), Nat.sub_self, List.set_cons_zero]
            at hstep
    exact hlast _ _ halone

/-! ### Calls that add up -/

section Additive

variable {V B N : Type} [AddCommMonoid N]

/-- The step reads the same afterwards, and adds entries to the log and an amount to
the total. -/
structure Adds (view : S → V) (log : S → List B) (total : S → N) (s s' : S) (entries : List B)
    (n : N) : Prop where
  view_eq : view s' = view s
  log_eq : log s' = log s ++ entries
  total_eq : total s' = total s + n

/-- Calls read a part of the shared state that they leave, and add to the rest of it
what they would add to any state that reads the same.  Entries of the log come with
answers that `A` holds of, and the amounts are told by the answers. -/
structure Additive (view : S → V) (log : S → List B) (total : S → N)
    (weight : (o : Op) → Except ε (Res o) → N) (A : (o : Op) → Except ε (Res o) → Prop) :
    Prop where
  exec : ∀ {s : S} {l : L} {o : Op} {r : Except ε (Res o)} {s' : S} {l' : L},
    M.exec s l o r s' l' → ∃ entries, (¬A o r → entries = []) ∧
      Adds view log total s s' entries (weight o r) ∧ ∀ x, view x = view s →
        ∃ x', M.exec x l o r x' l' ∧ Adds view log total x x' entries (weight o r)
  drift : ∀ {s s' : S}, M.drift s s' → log s' = log s ∧ total s' = total s

/-- What the calls of a thread add to the total. -/
def totalOf (weight : (o : Op) → Except ε (Res o) → N) (th : Thread τ L ε Res α) : N :=
  (th.history.map fun e => weight e.1 e.2).sum

/-- The thread can make the calls it has made on every state that reads `v`, with the
same answers, and adds the same there. -/
def Replays (view : S → V) (log : S → List B) (total : S → N)
    (weight : (o : Op) → Except ε (Res o) → N) (v : V) (th : Thread τ L ε Res α)
    (entries : List B) : Prop :=
  ∀ x, view x = v → ∃ x', M.Alone (x, M.fresh th.tag) (x', th) ∧
    Adds view log total x x' entries (totalOf weight th)

variable {M} {view : S → V} {log : S → List B} {total : S → N}
  {weight : (o : Op) → Except ε (Res o) → N} {A : (o : Op) → Except ε (Res o) → Prop} {s₀ s : S}
  {ts : List (Thread τ L ε Res α)}

theorem Adds.refl (s : S) : Adds view log total s s [] 0 where
  view_eq := rfl
  log_eq := (List.append_nil _).symm
  total_eq := (add_zero _).symm

theorem Adds.trans {s s' s'' : S} {entries entries' : List B} {n n' : N}
    (h : Adds view log total s s' entries n) (h' : Adds view log total s' s'' entries' n') :
    Adds view log total s s'' (entries ++ entries') (n + n') where
  view_eq := h'.view_eq.trans h.view_eq
  log_eq := by rw [h'.log_eq, h.log_eq, List.append_assoc]
  total_eq := by rw [h'.total_eq, h.total_eq, add_assoc]

theorem totalOf_snoc (t : τ) (l : L) (h : List ((o : Op) × Except ε (Res o))) (o : Op)
    (r : Except ε (Res o)) (p : Prog ε Res α) (l' : L) (p' : Prog ε Res α) :
    totalOf weight (⟨t, l', h ++ [⟨o, r⟩], p'⟩ : Thread τ L ε Res α) =
      totalOf weight (⟨t, l, h, p⟩ : Thread τ L ε Res α) + weight o r := by
  simp [totalOf]

theorem replays_fresh (v : V) (t : τ) :
    M.Replays view log total weight v (M.fresh t) [] := by
  intro x _
  exact ⟨x, Relation.ReflTransGen.refl, .refl x⟩

/-- One call more. -/
theorem Replays.call (hM : M.Additive view log total weight A) {v : V} {t : τ} {l l' : L}
    {h : List ((o : Op) × Except ε (Res o))} {o : Op} {k : Except ε (Res o) → Prog ε Res α}
    {r : Except ε (Res o)} {entries : List B}
    (hth : M.Replays view log total weight v ⟨t, l, h, .call o k⟩ entries) {s' : S}
    (hv : view s = v) (hexec : M.exec s l o r s' l') :
    ∃ entries', (¬A o r → entries' = []) ∧ Adds view log total s s' entries' (weight o r) ∧
      M.Replays view log total weight v ⟨t, l', h ++ [⟨o, r⟩], k r⟩ (entries ++ entries') := by
  obtain ⟨entries', hnone, hadds, hevery⟩ := hM.exec hexec
  refine ⟨entries', hnone, hadds, ?_⟩
  intro x hx
  obtain ⟨x', halone, hadds'⟩ := hth x hx
  obtain ⟨x'', hexec', hadds''⟩ := hevery x' (by rw [hadds'.view_eq, hx, hv])
  refine ⟨x'', halone.tail (.exec hexec'), ?_⟩
  rw [totalOf_snoc t l h o r (.call o k)]
  exact hadds'.trans hadds''

/-! ### The total -/

/-- Replacing one entry of a list by one that counts more changes the sum by as much. -/
theorem sum_map_set_of_add {β : Type} (f : β → N) {bs : List β} {i : ℕ} {b b' : β}
    (h : bs[i]? = some b) {n : N} (hb : f b' = f b + n) :
    ((bs.set i b').map f).sum = (bs.map f).sum + n := by
  induction bs generalizing i with
  | nil => cases h
  | cons c bs ih =>
    cases i with
    | zero =>
      cases h
      simp only [List.set_cons_zero, List.map_cons, List.sum_cons, hb]
      exact add_right_comm _ _ _
    | succ i =>
      simp only [List.set_cons_succ, List.map_cons, List.sum_cons, ih h]
      exact (add_assoc _ _ _).symm

/-- **The total is a sum over the threads**, in every interleaving. -/
theorem total_of_reach (hM : M.Additive view log total weight A)
    (hr : M.Reach (s₀, []) (s, ts)) : total s = total s₀ + (ts.map (totalOf weight)).sum := by
  generalize hx : (s, ts) = x at hr
  induction hr generalizing s ts with
  | refl =>
    cases hx
    exact (add_zero _).symm
  | tail _ hstep ih =>
    subst hx
    cases hstep with
    | spawn t =>
      rw [ih rfl, List.map_append, List.sum_append]
      simp [totalOf]
    | @exec s₁ _ ts₁ i t l l' h o k r hi hexec =>
      obtain ⟨_, -, hadds, -⟩ := hM.exec hexec
      rw [hadds.total_eq, ih rfl,
        sum_map_set_of_add (totalOf weight) hi (totalOf_snoc t l h o r (.call o k) l' (k r)),
        add_assoc]
    | drift hdrift => rw [(hM.drift hdrift).2, ih rfl]

/-! ### The order -/

/-- The places of the threads that have ended. -/
def EndedAt (ts : List (Thread τ L ε Res α)) (i : ℕ) : Prop := ∃ th, ts[i]? = some th ∧ th.Ended

variable (M view log) in
/-- The threads that have ended, in an order in which they could have run one after the
other and left the same log. -/
structure Ordered (s₀ s : S) (ts : List (Thread τ L ε Res α)) (order : List ℕ) (x : S) :
    Prop where
  nodup : order.Nodup
  mem_iff : ∀ i, i ∈ order ↔ EndedAt ts i
  serial : M.Serial s₀ (order.filterMap fun i => ts[i]?) x
  view_eq : view x = view s₀
  log_eq : log x = log s

variable (M view log total weight) in
/-- Every thread can be replayed, and has written nothing to the log unless it has
ended. -/
def Replayable (v : V) (ts : List (Thread τ L ε Res α)) : Prop :=
  ∀ th ∈ ts, ∃ entries, M.Replays view log total weight v th entries ∧ (¬th.Ended → entries = [])

/-- Threads that are at the same places run one after the other as before. -/
theorem Ordered.serial_congr {order : List ℕ} {x : S} (h : M.Ordered view log s₀ s ts order x)
    {ts' : List (Thread τ L ε Res α)} (hts : ∀ i ∈ order, ts'[i]? = ts[i]?) :
    M.Serial s₀ (order.filterMap fun i => ts'[i]?) x := by
  rw [List.filterMap_congr hts]
  exact h.serial

/-- A thread that has just ended runs after the others. -/
theorem Ordered.snoc {order : List ℕ} {x : S} (h : M.Ordered view log s₀ s ts order x)
    {ts' : List (Thread τ L ε Res α)} {i : ℕ} {th : Thread τ L ε Res α} (hi : ts'[i]? = some th)
    (hended : th.Ended) (hnew : i ∉ order) (hother : ∀ j, j ≠ i → ts'[j]? = ts[j]?)
    {entries : List B}
    (hreplay : M.Replays view log total weight (view s₀) th entries) {s' : S}
    (hlog : log s' = log s ++ entries) : ∃ x', M.Ordered view log s₀ s' ts' (order ++ [i]) x' := by
  obtain ⟨x', halone, hadds⟩ := hreplay x h.view_eq
  have hserial := h.serial_congr fun j hj => hother j (by rintro rfl; exact hnew hj)
  refine ⟨x', ?_, ?_, ?_, hadds.view_eq.trans h.view_eq, ?_⟩
  · rw [List.nodup_append]
    refine ⟨h.nodup, by simp, ?_⟩
    rintro a ha b hb rfl
    rw [List.mem_singleton] at hb
    exact hnew (hb ▸ ha)
  · intro j
    rw [List.mem_append, List.mem_singleton]
    by_cases hj : j = i
    · subst hj
      exact ⟨fun _ => ⟨th, hi, hended⟩, fun _ => Or.inr rfl⟩
    · rw [h.mem_iff, EndedAt, EndedAt, hother j hj]
      exact ⟨fun hmem => hmem.resolve_right hj, Or.inl⟩
  · rw [List.filterMap_append, List.filterMap_cons, hi, List.filterMap_nil]
    exact hserial.snoc halone hended
  · rw [hadds.log_eq, h.log_eq, hlog]

/-- One thread has moved: it goes last if it has just ended, and otherwise the order
stays. -/
theorem Ordered.place {order : List ℕ} {x : S} (h : M.Ordered view log s₀ s ts order x)
    {ts' : List (Thread τ L ε Res α)} {i : ℕ} {th : Thread τ L ε Res α} (hi : ts'[i]? = some th)
    (hnew : ¬EndedAt ts i) (hother : ∀ j, j ≠ i → ts'[j]? = ts[j]?) {entries : List B}
    (hreplay : M.Replays view log total weight (view s₀) th entries)
    (hquiet : ¬th.Ended → entries = []) {s' : S} (hlog : log s' = log s ++ entries) :
    ∃ order' x', order <+: order' ∧ M.Ordered view log s₀ s' ts' order' x' := by
  have hnotMem : i ∉ order := fun hmem => hnew ((h.mem_iff i).mp hmem)
  by_cases hended : th.Ended
  · obtain ⟨x', hx'⟩ := h.snoc hi hended hnotMem hother hreplay hlog
    exact ⟨_, x', List.prefix_append _ _, hx'⟩
  · refine ⟨order, x, List.prefix_rfl, h.nodup, ?_, ?_, h.view_eq, ?_⟩
    · intro j
      rw [h.mem_iff]
      by_cases hj : j = i
      · subst hj
        refine iff_of_false hnew ?_
        rintro ⟨th', hth', hended'⟩
        rw [hi] at hth'
        cases hth'
        exact hended hended'
      · rw [EndedAt, EndedAt, hother j hj]
    · exact h.serial_congr fun j hj => hother j (by rintro rfl; exact hnotMem hj)
    · rw [hlog, hquiet hended, List.append_nil, h.log_eq]

/-- **One step**: the order stays, or the thread that has just ended is added to it. -/
theorem Ordered.step (hM : M.Additive view log total weight A)
    (hprog : ∀ th ∈ ts, th.prog.EndsAfter A) {order : List ℕ} {x : S}
    (h : M.Ordered view log s₀ s ts order x)
    (hreplay : M.Replayable view log total weight (view s₀) ts) (hview : view s = view s₀)
    {s' : S} {ts' : List (Thread τ L ε Res α)} (hstep : M.Step (s, ts) (s', ts')) :
    (∃ order' x', order <+: order' ∧ M.Ordered view log s₀ s' ts' order' x') ∧
      M.Replayable view log total weight (view s₀) ts' := by
  cases hstep with
  | spawn t =>
    have hfresh : M.Replays view log total weight (view s₀) (M.fresh t) [] :=
      replays_fresh (view s₀) t
    have hlast : (ts ++ [M.fresh t])[ts.length]? = some (M.fresh t) := by simp
    refine ⟨h.place hlast ?_ ?_ hfresh (fun _ => rfl) (List.append_nil (log s)).symm, ?_⟩
    · rintro ⟨th, hth, -⟩
      simp at hth
    · intro j hj
      rcases Nat.lt_or_gt_of_ne hj with hlt | hgt
      · exact List.getElem?_append_left hlt
      · rw [List.getElem?_eq_none_iff.mpr (by simp; omega),
          List.getElem?_eq_none_iff.mpr (Nat.le_of_lt hgt)]
    · intro th hth
      rcases List.mem_append.mp hth with hth | hth
      · exact hreplay th hth
      · rw [List.mem_singleton] at hth
        subst hth
        exact ⟨[], hfresh, fun _ => rfl⟩
  | @exec _ _ _ i t l l' hist o k r hi hexec =>
    obtain ⟨entries, hentries, hnone⟩ := hreplay _ (List.mem_of_getElem? hi)
    obtain ⟨entries', hnone', hadds, hreplay'⟩ := hentries.call hM hview hexec
    -- the thread had not ended, so it had written nothing
    obtain rfl := hnone Bool.noConfusion
    rw [List.nil_append] at hreplay'
    -- a call that writes to the log is the last one of its thread
    have hquiet : ¬(⟨t, l', hist ++ [⟨o, r⟩], k r⟩ : Thread τ L ε Res α).Ended →
        entries' = [] := by
      intro hnot
      apply hnone'
      intro hA
      obtain ⟨y, hy⟩ := (hprog _ (List.mem_of_getElem? hi) r).1 hA
      apply hnot
      show (k r).result.isSome
      rw [hy, Prog.result_ofExcept]
      rfl
    refine ⟨h.place (List.getElem?_set_self (List.getElem?_eq_some_iff.mp hi).1) ?_
      (fun j hj => List.getElem?_set_ne hj.symm) hreplay' hquiet hadds.log_eq, ?_⟩
    · rintro ⟨th, hth, hended⟩
      rw [hi] at hth
      cases hth
      exact Bool.noConfusion hended
    · intro th hth
      rcases List.mem_or_eq_of_mem_set hth with hth | rfl
      · exact hreplay th hth
      · exact ⟨entries', hreplay', hquiet⟩
  | drift hdrift =>
    exact ⟨⟨order, x, List.prefix_rfl, h.nodup, h.mem_iff, h.serial, h.view_eq,
      h.log_eq.trans (hM.drift hdrift).1.symm⟩, hreplay⟩

/-- **The threads that have ended could have run one after the other**, in the order in
which they ended: each makes the same calls with the same answers, and the log is the
same. -/
theorem exists_serial (hM : M.Additive view log total weight A)
    (hprog : ∀ t, (M.prog t).EndsAfter A) {states : List (S × List (Thread τ L ε Res α))}
    (hp : M.Passes (s₀, []) states (s, ts)) (hview : ∀ y ∈ states, view y.1 = view s₀) :
    ∃ order x, M.Ordered view log s₀ s ts order x ∧
      ∀ y ∈ states, ∃ done, done <+: order ∧ ∀ i, i ∈ done ↔ EndedAt y.2 i := by
  have hmain : ∃ order x, M.Ordered view log s₀ s ts order x ∧
      (∀ y ∈ states, ∃ done, done <+: order ∧ ∀ i, i ∈ done ↔ EndedAt y.2 i) ∧
      M.Replayable view log total weight (view s₀) ts := by
    generalize hz : (s, ts) = z at hp
    induction hp generalizing s ts with
    | refl =>
      cases hz
      have hnil : M.Ordered view log s₀ s₀ ([] : List (Thread τ L ε Res α)) [] s₀ :=
        ⟨List.nodup_nil, by simp [EndedAt], .nil, rfl, rfl⟩
      refine ⟨[], s₀, hnil, ?_, by simp [Replayable]⟩
      intro y hy
      rw [List.mem_singleton] at hy
      subst hy
      exact ⟨[], List.prefix_rfl, hnil.mem_iff⟩
    | @tail y _ states hrun hstep ih =>
      subst hz
      obtain ⟨s₁, ts₁⟩ := y
      obtain ⟨order, x, hordered, hdone, hreplay⟩ :=
        ih (fun y hy => hview y (List.mem_append_left _ hy)) rfl
      have hthreads := forall_prog_of_reach (Q := fun p => p.EndsAfter A) hprog
        (fun _ _ r hq => (hq r).2) hrun.reach
      obtain ⟨⟨order', x', hfront, hordered'⟩, hreplay'⟩ := hordered.step hM hthreads hreplay
        (hview _ (List.mem_append_left _ hrun.mem)) hstep
      refine ⟨order', x', hordered', ?_, hreplay'⟩
      intro y hy
      rcases List.mem_append.mp hy with hy | hy
      · obtain ⟨done, hpre, hmem⟩ := hdone y hy
        exact ⟨done, hpre.trans hfront, hmem⟩
      · rw [List.mem_singleton] at hy
        subst hy
        exact ⟨order', List.prefix_rfl, hordered'.mem_iff⟩
  obtain ⟨order, x, hordered, hdone, -⟩ := hmain
  exact ⟨order, x, hordered, hdone⟩

theorem filterMap_range_getElem? {β : Type} (bs : List β) :
    (List.range bs.length).filterMap (fun i => bs[i]?) = bs := by
  induction bs with
  | nil => rfl
  | cons b bs ih =>
    rw [List.length_cons, List.range_succ_eq_map, List.filterMap_cons, List.filterMap_map]
    exact congrArg (b :: ·) ih

/-- Where every thread has ended, the order has them all. -/
theorem Ordered.perm {order : List ℕ} {x : S} (h : M.Ordered view log s₀ s ts order x)
    (hended : ∀ th ∈ ts, th.Ended) : order.Perm (List.range ts.length) := by
  rw [List.perm_ext_iff_of_nodup h.nodup List.nodup_range]
  intro i
  rw [h.mem_iff, List.mem_range]
  constructor
  · rintro ⟨th, hth, -⟩
    exact (List.getElem?_eq_some_iff.mp hth).1
  · intro hlt
    exact ⟨ts[i], List.getElem?_eq_getElem hlt, hended _ (List.getElem_mem hlt)⟩

/-- **The total is the same too** once every thread has ended. -/
theorem Ordered.total_eq (hM : M.Additive view log total weight A) {order : List ℕ} {x : S}
    (h : M.Ordered view log s₀ s ts order x) (hended : ∀ th ∈ ts, th.Ended)
    (hr : M.Reach (s₀, []) (s, ts)) : total x = total s := by
  have hperm : (order.filterMap fun i => ts[i]?).Perm ts := by
    have := (h.perm hended).filterMap fun i => ts[i]?
    rwa [filterMap_range_getElem?] at this
  rw [total_of_reach hM hr, total_of_reach hM h.serial.reach, (hperm.map _).sum_eq]

end Additive

end System
