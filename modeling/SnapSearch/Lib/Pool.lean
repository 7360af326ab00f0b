import Mathlib.Algebra.Order.Group.Nat
import Mathlib.Data.Fintype.Card
import Mathlib.Order.Lattice.Nat
import SnapSearch.Lib.Prog

/-!
# Threads that share a pool

Each thread holds connections of a pool, by what it uses them for.  A call that
needs one waits until the pool has one to give; what it then keeps, it keeps until
a later call or its end gives it back.  A thread that holds one connection may have
to wait for another, so threads can block each other.

## Main definitions

* `Prog.Within` — a program makes at most so many calls on every path.
* `System.Pool`, `System.Client` — which calls need a connection, and a thread with
  the connections it holds.
* `System.Pool.Move`, `System.Pool.Step` — the steps of threads that wait for each
  other only, and all steps.
* `System.Pool.Moves` — the moves of threads one after another, while the shared state
  may change by itself.

## Main results

* `System.Pool.reach_threads` — a run with a pool is a run without it.
* `System.Pool.count_le`, `System.Pool.exists_moves_stuck` — **moves come to an end.**
* `System.Pool.capacity_le_of_stuck` — **threads that hold up each other have
  taken the whole pool.**
* `System.Pool.finished_of_stuck` — **fewer threads finish.**
-/

namespace Prog

variable {ε Op : Type} {Res : Op → Type} {α β : Type}

/-! ### The length of a program -/

/-- The program makes at most `n` calls, whatever they answer. -/
def Within : ℕ → Prog ε Res α → Prop
  | _, .pure _ => True
  | _, .raise _ => True
  | n, .call _ k => 1 ≤ n ∧ ∀ r, (k r).Within (n - 1)

theorem Within.mono {n m : ℕ} (hnm : n ≤ m) {p : Prog ε Res α} (hp : p.Within n) :
    p.Within m := by
  induction p generalizing n m with
  | pure a => trivial
  | raise e => trivial
  | call o k ih =>
    obtain ⟨hn, hrest⟩ := hp
    refine ⟨by omega, ?_⟩
    intro r
    exact ih r (by omega) (hrest r)

theorem within_ofExcept (n : ℕ) (r : Except ε α) : (ofExcept r : Prog ε Res α).Within n := by
  cases r <;> trivial

theorem within_perform (o : Op) : (perform o : Prog ε Res (Res o)).Within 1 :=
  ⟨le_rfl, within_ofExcept _⟩

theorem within_bind {n m : ℕ} {p : Prog ε Res α} {f : α → Prog ε Res β} (hp : p.Within n)
    (hf : ∀ a, (f a).Within m) : (p.bind f).Within (n + m) := by
  induction p generalizing n with
  | pure a => exact (hf a).mono (by omega)
  | raise e => trivial
  | call o k ih =>
    obtain ⟨hn, hrest⟩ := hp
    refine ⟨by omega, ?_⟩
    intro r
    exact (ih r (hrest r)).mono (by omega)

theorem within_handle {n m : ℕ} {p : Prog ε Res α} {h : ε → Prog ε Res α} (hp : p.Within n)
    (hh : ∀ e, (h e).Within m) : (p.handle h).Within (n + m) := by
  induction p generalizing n with
  | pure a => trivial
  | raise e => exact (hh e).mono (by omega)
  | call o k ih =>
    obtain ⟨hn, hrest⟩ := hp
    refine ⟨by omega, ?_⟩
    intro r
    exact (ih r (hrest r)).mono (by omega)

/-- The number of calls a program may still make. -/
noncomputable def callsLeft (p : Prog ε Res α) : ℕ := sInf {n | p.Within n}

theorem callsLeft_le {p : Prog ε Res α} {n : ℕ} (h : p.Within n) : p.callsLeft ≤ n := Nat.sInf_le h

theorem within_callsLeft {p : Prog ε Res α} (h : ∃ n, p.Within n) : p.Within p.callsLeft :=
  Nat.sInf_mem h

/-- A call made is one call less to make. -/
theorem callsLeft_lt {o : Op} {k : Except ε (Res o) → Prog ε Res α}
    (h : ∃ n, (call o k).Within n) (r : Except ε (Res o)) :
    (k r).callsLeft < (call o k).callsLeft ∧ ∃ n, (k r).Within n := by
  obtain ⟨hone, hrest⟩ := within_callsLeft h
  have hle := callsLeft_le (hrest r)
  exact ⟨by omega, _, hrest r⟩

/-! ### Two phases -/

/-- The program makes calls of the first kind, then calls of the second. -/
def Phased (A B : Op → Prop) : Prog ε Res α → Prop
  | .pure _ => True
  | .raise _ => True
  | .call o k => (A o ∧ ∀ r, (k r).Phased A B) ∨ (B o ∧ ∀ r, (k r).Calls B)

theorem Calls.phased {A B : Op → Prop} {p : Prog ε Res α} (hp : p.Calls B) : p.Phased A B := by
  cases p with
  | pure a => trivial
  | raise e => trivial
  | call o k => exact Or.inr hp

theorem phased_bind {A B : Op → Prop} {p : Prog ε Res α} {f : α → Prog ε Res β}
    (hp : p.Calls A) (hf : ∀ a, (f a).Calls B) : (p.bind f).Phased A B := by
  induction p with
  | pure a => exact (hf a).phased
  | raise e => trivial
  | call o k ih =>
    refine Or.inl ⟨hp.1, ?_⟩
    intro r
    exact ih r (hp.2 r)

theorem Phased.next {A B : Op → Prop} {o : Op} {k : Except ε (Res o) → Prog ε Res α}
    (h : (call o k).Phased A B) (r : Except ε (Res o)) : (k r).Phased A B := by
  rcases h with h | h
  · exact h.2 r
  · exact (h.2 r).phased

end Prog

namespace System

variable {τ S L ε Op : Type} {Res : Op → Type} {α κ : Type}

/-! ### Threads with connections -/

/-- A thread with the connections it holds, by what it uses them for. -/
structure Client (τ L ε : Type) {Op : Type} (Res : Op → Type) (α κ : Type) where
  thread : Thread τ L ε Res α
  held : List κ

/-- How threads use a pool of connections. -/
structure Pool (L ε : Type) {Op : Type} (Res : Op → Type) (κ : Type) where
  /-- The connections that may be out at one time. -/
  capacity : ℕ
  /-- The connection that a call is made over, if it needs one. -/
  needs : L → Op → Option κ
  /-- The connections a thread may hold after a call, by those it held before. -/
  keeps : (o : Op) → Except ε (Res o) → List κ → List κ → Prop
  /-- What a call raises that has waited too long. -/
  timeout : ε

namespace Pool

/-- The connections that are out. -/
def inUse (cs : List (Client τ L ε Res α κ)) : ℕ := (cs.map fun c => c.held.length).sum

/-- What a thread waits for: the connection its next call needs and it does not
hold. -/
def waitsFor [DecidableEq κ] (P : Pool L ε Res κ) (c : Client τ L ε Res α κ) : Option κ :=
  match c.thread.prog with
  | .call o _ => (P.needs c.thread.locals o).filter fun x => x ∉ c.held
  | _ => none

/-- The thread has ended and given everything back. -/
def finished (c : Client τ L ε Res α κ) : Bool := c.thread.prog.result.isSome && c.held.isEmpty

/-- Taking or giving back connections leaves the threads as they are. -/
theorem map_thread_set {cs : List (Client τ L ε Res α κ)} {i : ℕ} {c : Client τ L ε Res α κ}
    (hi : cs[i]? = some c) (held : List κ) :
    (cs.set i ⟨c.thread, held⟩).map Client.thread = cs.map Client.thread :=
  map_set_of_eq Client.thread hi rfl

theorem inUse_set {cs : List (Client τ L ε Res α κ)} {i : ℕ} {c : Client τ L ε Res α κ}
    (hi : cs[i]? = some c) (c' : Client τ L ε Res α κ) :
    inUse (cs.set i c') + c.held.length = inUse cs + c'.held.length :=
  sum_map_set (fun c : Client τ L ε Res α κ => c.held.length) hi c'

/-- No thread holds two connections for one use, and the pool is not exceeded. -/
structure Sound (P : Pool L ε Res κ) (cs : List (Client τ L ε Res α κ)) : Prop where
  nodup : ∀ c ∈ cs, c.held.Nodup
  inUse_le : inUse cs ≤ P.capacity

/-- Where a thread holds less, the connections stay sound. -/
theorem Sound.set {cs : List (Client τ L ε Res α κ)} (h : Sound P cs) {i : ℕ}
    {c : Client τ L ε Res α κ} (hi : cs[i]? = some c) {c' : Client τ L ε Res α κ}
    (hsub : c'.held.Sublist c.held) : Sound P (cs.set i c') where
  nodup := by
    intro d hd
    rcases List.mem_or_eq_of_mem_set hd with hd | rfl
    · exact h.nodup d hd
    · exact (h.nodup c (List.mem_of_getElem? hi)).sublist hsub
  inUse_le := by
    have hset := inUse_set hi c'
    have hlen := hsub.length_le
    have hle := h.inUse_le
    omega

section Steps

variable [DecidableEq κ] (M : System τ S L ε Res α) (P : Pool L ε Res κ)

/-- What thread `i` does without being told to give up: it takes a connection, makes
its next call over the connection it needs, or gives back all once it has ended. -/
inductive Move (i : ℕ) :
    S × List (Client τ L ε Res α κ) → S × List (Client τ L ε Res α κ) → Prop
  | checkout {s : S} {cs : List (Client τ L ε Res α κ)} {c : Client τ L ε Res α κ} {x : κ}
      (hi : cs[i]? = some c) (hwaits : P.waitsFor c = some x) (hfree : inUse cs < P.capacity) :
      Move i (s, cs) (s, cs.set i ⟨c.thread, x :: c.held⟩)
  | exec {s s' : S} {cs : List (Client τ L ε Res α κ)} {t : τ} {l l' : L}
      {h : List ((o : Op) × Except ε (Res o))} {o : Op} {k : Except ε (Res o) → Prog ε Res α}
      {r : Except ε (Res o)} {held held' : List κ}
      (hi : cs[i]? = some ⟨⟨t, l, h, .call o k⟩, held⟩)
      (hready : P.waitsFor (⟨⟨t, l, h, .call o k⟩, held⟩ : Client τ L ε Res α κ) = none)
      (hexec : M.exec s l o r s' l') (hkeeps : P.keeps o r held held') :
      Move i (s, cs) (s', cs.set i ⟨⟨t, l', h ++ [⟨o, r⟩], k r⟩, held'⟩)
  | close {s : S} {cs : List (Client τ L ε Res α κ)} {c : Client τ L ε Res α κ}
      (hi : cs[i]? = some c) (hended : c.thread.prog.result.isSome) (hheld : c.held ≠ []) :
      Move i (s, cs) (s, cs.set i ⟨c.thread, []⟩)

/-- All steps: a move, a thread that starts, a change of the shared state by itself,
and a call that is told it has waited too long. -/
inductive Step : S × List (Client τ L ε Res α κ) → S × List (Client τ L ε Res α κ) → Prop
  | move {x y : S × List (Client τ L ε Res α κ)} {i : ℕ} (h : Move M P i x y) : Step x y
  | spawn (t : τ) (s : S) (cs : List (Client τ L ε Res α κ)) :
      Step (s, cs) (s, cs ++ [⟨⟨t, M.start, [], M.prog t⟩, []⟩])
  | drift {s s' : S} {cs : List (Client τ L ε Res α κ)} (h : M.drift s s') : Step (s, cs) (s', cs)
  | expire {s s' : S} {cs : List (Client τ L ε Res α κ)} {i : ℕ} {t : τ} {l l' : L}
      {h : List ((o : Op) × Except ε (Res o))} {o : Op} {k : Except ε (Res o) → Prog ε Res α}
      {held : List κ} {x : κ} (hi : cs[i]? = some ⟨⟨t, l, h, .call o k⟩, held⟩)
      (hwaits : P.waitsFor (⟨⟨t, l, h, .call o k⟩, held⟩ : Client τ L ε Res α κ) = some x)
      (hexec : M.exec s l o (.error P.timeout) s' l') :
      Step (s, cs)
        (s', cs.set i ⟨⟨t, l', h ++ [⟨o, .error P.timeout⟩], k (.error P.timeout)⟩, held⟩)

/-- The states a run can reach. -/
def Reach := Relation.ReflTransGen (Step M P)

/-- No thread can move. -/
def Stuck (x : S × List (Client τ L ε Res α κ)) : Prop := ¬ ∃ i y, Move M P i x y

/-- The moves of these threads, in this order, while the shared state may change by
itself. -/
inductive Moves :
    List ℕ → S × List (Client τ L ε Res α κ) → S × List (Client τ L ε Res α κ) → Prop
  | refl (x : S × List (Client τ L ε Res α κ)) : Moves [] x x
  | move {movers : List ℕ} {i : ℕ} {x y z : S × List (Client τ L ε Res α κ)}
      (hrun : Moves movers x y) (h : Move M P i y z) : Moves (movers ++ [i]) x z
  | drift {movers : List ℕ} {x : S × List (Client τ L ε Res α κ)} {s s' : S}
      {cs : List (Client τ L ε Res α κ)} (hrun : Moves movers x (s, cs)) (h : M.drift s s') :
      Moves movers x (s', cs)

end Steps

section Runs

variable [DecidableEq κ] {M : System τ S L ε Res α} {P : Pool L ε Res κ}

/-! ### Runs without the pool -/

theorem reach_threads_of_move {x y : S × List (Client τ L ε Res α κ)} {i : ℕ}
    (h : Move M P i x y) :
    M.Reach (x.1, x.2.map Client.thread) (y.1, y.2.map Client.thread) := by
  cases h with
  | checkout hi hwaits hfree =>
    rw [map_thread_set hi]
    exact Relation.ReflTransGen.refl
  | exec hi hready hexec hkeeps =>
    rw [List.map_set]
    refine Relation.ReflTransGen.single (System.Step.exec ?_ hexec)
    rw [List.getElem?_map, hi]
    rfl
  | close hi hended hheld =>
    rw [map_thread_set hi]
    exact Relation.ReflTransGen.refl

/-- **A run with a pool is a run without it**, as far as its threads can tell. -/
theorem reach_threads {x y : S × List (Client τ L ε Res α κ)} (h : Reach M P x y) :
    M.Reach (x.1, x.2.map Client.thread) (y.1, y.2.map Client.thread) := by
  induction h with
  | refl => exact Relation.ReflTransGen.refl
  | tail _ hstep ih =>
    refine ih.trans ?_
    cases hstep with
    | move hmove => exact reach_threads_of_move hmove
    | spawn t s cs =>
      rw [List.map_append]
      exact Relation.ReflTransGen.single (System.Step.spawn t s _)
    | drift hdrift => exact Relation.ReflTransGen.single (System.Step.drift hdrift)
    | expire hi hwaits hexec =>
      rw [List.map_set]
      refine Relation.ReflTransGen.single (System.Step.exec ?_ hexec)
      rw [List.getElem?_map, hi]
      rfl

/-- Moves are steps. -/
theorem Moves.reach {movers : List ℕ} {x y : S × List (Client τ L ε Res α κ)}
    (h : Moves M P movers x y) : Reach M P x y := by
  induction h with
  | refl => exact Relation.ReflTransGen.refl
  | move _ hmove ih => exact ih.tail (.move hmove)
  | drift _ hdrift ih => exact ih.tail (.drift hdrift)

/-- One run of moves after another. -/
theorem Moves.trans {movers movers' : List ℕ} {x y z : S × List (Client τ L ε Res α κ)}
    (hxy : Moves M P movers x y) (hyz : Moves M P movers' y z) :
    Moves M P (movers ++ movers') x z := by
  induction hyz with
  | refl => rwa [List.append_nil]
  | move _ hmove ih =>
    rw [← List.append_assoc]
    exact (ih hxy).move hmove
  | drift _ hdrift ih => exact (ih hxy).drift hdrift

/-- A move of one thread leaves the others as they are. -/
theorem getElem?_of_move {x y : S × List (Client τ L ε Res α κ)} {i j : ℕ}
    (h : Move M P i x y) (hij : i ≠ j) : y.2[j]? = x.2[j]? := by
  cases h <;> exact List.getElem?_set_ne hij

/-- A thread that does not move stays as it is. -/
theorem Moves.getElem?_of_notMem {movers : List ℕ} {x y : S × List (Client τ L ε Res α κ)}
    (h : Moves M P movers x y) {j : ℕ} (hj : j ∉ movers) : y.2[j]? = x.2[j]? := by
  induction h with
  | refl => rfl
  | move _ hmove ih =>
    rw [List.mem_append, List.mem_singleton, not_or] at hj
    rw [getElem?_of_move hmove (Ne.symm hj.2), ih hj.1]
  | drift _ _ ih => exact ih hj

/-! ### What the steps keep -/

theorem notMem_held_of_waitsFor {c : Client τ L ε Res α κ} {x : κ} (h : P.waitsFor c = some x) :
    x ∉ c.held := by
  unfold waitsFor at h
  split at h
  · have := (Option.filter_eq_some_iff.mp h).2
    simpa using this
  · cases h

section Invariant

variable (hshrink : ∀ o r held held', P.keeps o r held held' → held'.Sublist held)

include hshrink

theorem Sound.move {s s' : S} {cs cs' : List (Client τ L ε Res α κ)} {i : ℕ} (h : Sound P cs)
    (hmove : Move M P i (s, cs) (s', cs')) : Sound P cs' := by
  cases hmove with
  | @checkout _ _ c x hi hwaits hfree =>
    refine ⟨?_, ?_⟩
    · intro d hd
      rcases List.mem_or_eq_of_mem_set hd with hd | rfl
      · exact h.nodup d hd
      · exact List.nodup_cons.mpr
          ⟨notMem_held_of_waitsFor hwaits, h.nodup c (List.mem_of_getElem? hi)⟩
    · have hset := inUse_set hi ⟨c.thread, x :: c.held⟩
      rw [List.length_cons] at hset
      omega
  | exec hi hready hexec hkeeps => exact h.set hi (hshrink _ _ _ _ hkeeps)
  | close hi hended hheld => exact h.set hi (List.nil_sublist _)

theorem Sound.step {s s' : S} {cs cs' : List (Client τ L ε Res α κ)} (h : Sound P cs)
    (hstep : Step M P (s, cs) (s', cs')) : Sound P cs' := by
  cases hstep with
  | move hmove => exact h.move hshrink hmove
  | spawn t =>
    refine ⟨?_, ?_⟩
    · intro d hd
      rcases List.mem_append.mp hd with hd | hd
      · exact h.nodup d hd
      · rw [List.mem_singleton] at hd
        subst hd
        exact List.nodup_nil
    · have hle := h.inUse_le
      simpa [inUse] using hle
  | drift => exact h
  | expire hi => exact h.set hi (List.Sublist.refl _)

theorem Sound.reach {x y : S × List (Client τ L ε Res α κ)} (h : Sound P x.2)
    (hr : Reach M P x y) : Sound P y.2 := by
  induction hr with
  | refl => exact h
  | tail _ hstep ih => exact ih.step hshrink hstep

end Invariant

/-! ### Threads that hold up each other -/

section Stuck

variable (hexec : ∀ s l o, ∃ r s' l', M.exec s l o r s' l')
  (hkeeps : ∀ o r held, ∃ held', P.keeps o r held held')

include hexec hkeeps

/-- Where no thread can move, each has finished or waits, and where one waits the
pool is empty. -/
theorem cases_of_stuck {s : S} {cs : List (Client τ L ε Res α κ)} (hstuck : Stuck M P (s, cs)) :
    (∀ c ∈ cs, finished c = true ∨ (P.waitsFor c).isSome = true) ∧
      ((∃ c ∈ cs, (P.waitsFor c).isSome = true) → P.capacity ≤ inUse cs) := by
  refine ⟨?_, ?_⟩
  · intro c hc
    obtain ⟨i, hi⟩ := List.mem_iff_getElem?.mp hc
    by_contra hnot
    rw [not_or, Bool.not_eq_true, Bool.not_eq_true, Option.isSome_eq_false_iff,
      Option.isNone_iff_eq_none] at hnot
    obtain ⟨hfinished, hready⟩ := hnot
    apply hstuck
    obtain ⟨⟨t, l, h, p⟩, held⟩ := c
    cases p with
    | call o k =>
      obtain ⟨r, s', l', hstep⟩ := hexec s l o
      obtain ⟨held', hheld⟩ := hkeeps o r held
      exact ⟨i, _, .exec hi hready hstep hheld⟩
    | _ =>
      refine ⟨i, _, .close hi rfl ?_⟩
      intro hnil
      simp [finished, Prog.result] at hfinished
      exact hfinished hnil
  · intro hwaits
    obtain ⟨c, hc, hsome⟩ := hwaits
    obtain ⟨i, hi⟩ := List.mem_iff_getElem?.mp hc
    obtain ⟨x, hx⟩ := Option.isSome_iff_exists.mp hsome
    by_contra hlt
    exact hstuck ⟨i, _, .checkout hi hx (Nat.lt_of_not_le hlt)⟩

/-- **Threads that hold up each other have taken the whole pool**: each of them
waits, and holds a connection for every other use at most. -/
theorem capacity_le_of_stuck [Fintype κ] {s : S} {cs : List (Client τ L ε Res α κ)}
    (hsound : Sound P cs) (hstuck : Stuck M P (s, cs)) (hopen : ∃ c ∈ cs, finished c = false) :
    P.capacity ≤ (Fintype.card κ - 1) * cs.countP fun c => (P.waitsFor c).isSome := by
  obtain ⟨hcases, hfull⟩ := cases_of_stuck hexec hkeeps hstuck
  obtain ⟨c, hc, hnot⟩ := hopen
  have hwaits : (P.waitsFor c).isSome = true := by
    rcases hcases c hc with hfinished | hwaits
    · rw [hnot] at hfinished
      cases hfinished
    · exact hwaits
  refine (hfull ⟨c, hc, hwaits⟩).trans ?_
  -- a waiting thread does not hold what it waits for, a finished one holds nothing
  have hheld : ∀ c ∈ cs, c.held.length ≤
      (Fintype.card κ - 1) * if (P.waitsFor c).isSome then 1 else 0 := by
    intro c hc
    cases hw : P.waitsFor c with
    | some x =>
      have hnodup := List.nodup_cons.mpr ⟨notMem_held_of_waitsFor hw, hsound.nodup c hc⟩
      have hcard := hnodup.length_le_card
      rw [List.length_cons] at hcard
      simp only [Option.isSome_some, if_true]
      omega
    | none =>
      have hfinished := (hcases c hc).resolve_right (by simp [hw])
      simp only [finished, Bool.and_eq_true, List.isEmpty_iff] at hfinished
      rw [hfinished.2]
      exact Nat.zero_le _
  clear hcases hfull hstuck hsound hc hnot hwaits
  induction cs with
  | nil => exact Nat.zero_le _
  | cons c cs ih =>
    rw [List.forall_mem_cons] at hheld
    have hrest := ih hheld.2
    have hfirst := hheld.1
    rw [List.countP_cons, Nat.mul_add]
    show c.held.length + inUse cs ≤ _
    omega

/-- **Fewer threads finish**: where the threads that have not finished cannot take
the whole pool, no state but the end is stuck. -/
theorem finished_of_stuck [Fintype κ] {s : S} {cs : List (Client τ L ε Res α κ)}
    (hsound : Sound P cs)
    (hfew : (Fintype.card κ - 1) * cs.countP (fun c => !finished c) < P.capacity)
    (hstuck : Stuck M P (s, cs)) : ∀ c ∈ cs, finished c = true := by
  by_contra hnot
  have hopen : ∃ c ∈ cs, finished c = false := by simpa using hnot
  have hcapacity := capacity_le_of_stuck hexec hkeeps hsound hstuck hopen
  -- a thread that waits has not finished
  have hle : (cs.countP fun c => (P.waitsFor c).isSome) ≤ cs.countP fun c => !finished c := by
    apply List.countP_mono_left
    intro c _ hwaits
    obtain ⟨⟨t, l, h, p⟩, held⟩ := c
    cases p with
    | call o k => rfl
    | _ => cases hwaits
  have := Nat.mul_le_mul_left (Fintype.card κ - 1) hle
  omega

end Stuck

/-! ### Moves come to an end -/

/-- What a thread may still move: each call may need a connection taken first, and
what it holds is given back at the end. -/
noncomputable def weight (P : Pool L ε Res κ) (c : Client τ L ε Res α κ) : ℕ :=
  3 * c.thread.prog.callsLeft + (if (P.waitsFor c).isSome then 2 else 0) +
    if c.held = [] then 0 else 1

/-- Every thread makes finitely many calls. -/
def Bounded (cs : List (Client τ L ε Res α κ)) : Prop :=
  ∀ c ∈ cs, ∃ n, c.thread.prog.Within n

omit [DecidableEq κ] in
theorem Bounded.set {cs : List (Client τ L ε Res α κ)} (h : Bounded cs) (i : ℕ)
    {c : Client τ L ε Res α κ} (hc : ∃ n, c.thread.prog.Within n) : Bounded (cs.set i c) := by
  intro d hd
  rcases List.mem_or_eq_of_mem_set hd with hd | rfl
  · exact h d hd
  · exact hc

variable (P) in
/-- What the thread at a place may still move. -/
noncomputable def weightAt (cs : List (Client τ L ε Res α κ)) (i : ℕ) : ℕ :=
  cs[i]?.elim 0 (weight P)

theorem weightAt_of_getElem? {cs : List (Client τ L ε Res α κ)} {i : ℕ}
    {c : Client τ L ε Res α κ} (hi : cs[i]? = some c) : weightAt P cs i = weight P c := by
  rw [weightAt, hi, Option.elim_some]

theorem weightAt_of_getElem?_eq_none {cs : List (Client τ L ε Res α κ)} {i : ℕ}
    (hi : cs[i]? = none) : weightAt P cs i = 0 := by
  rw [weightAt, hi, Option.elim_none]

theorem weightAt_set_self {cs : List (Client τ L ε Res α κ)} {i : ℕ}
    {c : Client τ L ε Res α κ} (hi : cs[i]? = some c) (c' : Client τ L ε Res α κ) :
    weightAt P (cs.set i c') i = weight P c' :=
  weightAt_of_getElem? (List.getElem?_set_self (List.getElem?_eq_some_iff.mp hi).1)

theorem weightAt_set_of_ne {cs : List (Client τ L ε Res α κ)} {i j : ℕ} (hij : i ≠ j)
    (c : Client τ L ε Res α κ) : weightAt P (cs.set i c) j = weightAt P cs j := by
  rw [weightAt, weightAt, List.getElem?_set_ne hij]

section Measure

variable (hshrink : ∀ o r held held', P.keeps o r held held' → held'.Sublist held)

include hshrink

/-- A move makes the weight of its thread less. -/
theorem weight_move {s s' : S} {cs cs' : List (Client τ L ε Res α κ)} {i : ℕ}
    (hbounded : Bounded cs) (h : Move M P i (s, cs) (s', cs')) :
    ∃ c c', cs[i]? = some c ∧ cs' = cs.set i c' ∧ (∃ n, c'.thread.prog.Within n) ∧
      weight P c' < weight P c := by
  cases h with
  | @checkout _ _ c x hi hwaits hfree =>
    refine ⟨c, _, hi, rfl, hbounded c (List.mem_of_getElem? hi), ?_⟩
    -- the call has what it waited for
    have hready : P.waitsFor (⟨c.thread, x :: c.held⟩ : Client τ L ε Res α κ) = none := by
      obtain ⟨⟨t, l, h, p⟩, held⟩ := c
      cases p with
      | call o k =>
        have hneeds := (Option.filter_eq_some_iff.mp hwaits).1
        simp [waitsFor, hneeds]
      | _ => cases hwaits
    unfold weight
    rw [hready, hwaits]
    show 3 * c.thread.prog.callsLeft + 0 + 1 < 3 * c.thread.prog.callsLeft + 2 + _
    omega
  | @exec _ _ _ t l l' h o k r held held' hi hready hexec hkeeps =>
    obtain ⟨hlt, hrest⟩ := Prog.callsLeft_lt (hbounded _ (List.mem_of_getElem? hi)) r
    refine ⟨_, _, hi, rfl, hrest, ?_⟩
    -- a thread that held nothing still holds nothing
    have hheld : (if held' = [] then 0 else 1) ≤ if held = [] then 0 else 1 := by
      have hsub := hshrink _ _ _ _ hkeeps
      split
      · exact Nat.zero_le _
      · next hne =>
        rw [if_neg]
        rintro rfl
        exact hne (List.sublist_nil.mp hsub)
    unfold weight
    rw [hready]
    have hwait : (if (P.waitsFor (⟨⟨t, l', h ++ [⟨o, r⟩], k r⟩, held'⟩ :
        Client τ L ε Res α κ)).isSome then 2 else 0) ≤ 2 := by
      split <;> omega
    show 3 * (k r).callsLeft + _ + (if held' = [] then 0 else 1) <
      3 * (Prog.call o k).callsLeft + 0 + (if held = [] then 0 else 1)
    omega
  | @close _ _ c hi hended hheld =>
    refine ⟨c, _, hi, rfl, hbounded c (List.mem_of_getElem? hi), ?_⟩
    -- an ended thread waits for nothing
    have hnone : ∀ held, P.waitsFor (⟨c.thread, held⟩ : Client τ L ε Res α κ) = none := by
      intro held
      obtain ⟨⟨t, l, h, p⟩, held⟩ := c
      cases p with
      | call o k => cases hended
      | _ => rfl
    unfold weight
    rw [hnone, hnone c.held, if_neg hheld]
    show 3 * c.thread.prog.callsLeft + 0 + 0 < 3 * c.thread.prog.callsLeft + 0 + 1
    omega

omit hshrink in
/-- A thread that has finished has no weight. -/
theorem weight_of_finished {c : Client τ L ε Res α κ} (h : finished c = true) :
    weight P c = 0 := by
  obtain ⟨⟨t, l, h, p⟩, held⟩ := c
  simp only [finished, Bool.and_eq_true, List.isEmpty_iff] at h
  obtain ⟨hended, rfl⟩ := h
  cases p with
  | call o k => cases hended
  | pure a =>
    have hnone : (Prog.pure a : Prog ε Res α).Within 0 := trivial
    unfold weight
    rw [Nat.le_zero.mp (Prog.callsLeft_le hnone)]
    rfl
  | raise e =>
    have hnone : (Prog.raise e : Prog ε Res α).Within 0 := trivial
    unfold weight
    rw [Nat.le_zero.mp (Prog.callsLeft_le hnone)]
    rfl

/-- No thread that has finished starts again. -/
theorem unfinished_move {s s' : S} {cs cs' : List (Client τ L ε Res α κ)} {i : ℕ}
    (hbounded : Bounded cs) (h : Move M P i (s, cs) (s', cs')) :
    (cs'.countP fun c => !finished c) ≤ cs.countP fun c => !finished c := by
  obtain ⟨c, c', hi, rfl, -, hlt⟩ := weight_move hshrink hbounded h
  obtain ⟨hlen, rfl⟩ := List.getElem?_eq_some_iff.mp hi
  have hopen : finished cs[i] = false := by
    rw [← Bool.not_eq_true]
    intro hfinished
    rw [weight_of_finished hfinished] at hlt
    omega
  have hpos : 0 < cs.countP fun c => !finished c :=
    List.countP_pos_iff.mpr ⟨cs[i], List.getElem_mem hlen, by rw [hopen]; rfl⟩
  rw [List.countP_set hlen, hopen]
  show _ - 1 + _ ≤ _
  split <;> omega

/-- Every move costs its thread some of its weight, and none of the others. -/
theorem count_add_weightAt_le {movers : List ℕ} {x y : S × List (Client τ L ε Res α κ)}
    (hbounded : Bounded x.2) (h : Moves M P movers x y) :
    Bounded y.2 ∧ (∀ i, movers.count i + weightAt P y.2 i ≤ weightAt P x.2 i) ∧
      (y.2.countP fun c => !finished c) ≤ x.2.countP fun c => !finished c := by
  induction h with
  | refl => exact ⟨hbounded, fun i => by simp, le_rfl⟩
  | @move movers i x y z hrun hmove ih =>
    obtain ⟨hbounded', hle, hcount⟩ := ih hbounded
    have hcount' := unfinished_move hshrink hbounded' hmove
    obtain ⟨c, c', hi, hz, hwithin, hlt⟩ := weight_move hshrink hbounded' hmove
    refine ⟨?_, ?_, hcount'.trans hcount⟩
    · rw [hz]
      exact hbounded'.set i hwithin
    · intro j
      have hj := hle j
      rw [hz, List.count_append, List.count_singleton]
      by_cases hij : i = j
      · subst hij
        rw [weightAt_of_getElem? hi] at hj
        rw [weightAt_set_self hi, beq_self_eq_true, if_pos rfl]
        omega
      · rw [weightAt_set_of_ne hij, if_neg (by simpa using hij)]
        omega
  | drift hrun hdrift ih => exact ih hbounded

omit hshrink in
/-- What a thread may move that makes at most `b` calls. -/
theorem weightAt_le {b : ℕ} {cs : List (Client τ L ε Res α κ)}
    (hbound : ∀ c ∈ cs, c.thread.prog.Within b) (i : ℕ) : weightAt P cs i ≤ 3 * b + 3 := by
  cases hi : cs[i]? with
  | none =>
    rw [weightAt_of_getElem?_eq_none hi]
    exact Nat.zero_le _
  | some c =>
    have hcalls := Prog.callsLeft_le (hbound c (List.mem_of_getElem? hi))
    rw [weightAt_of_getElem? hi]
    unfold weight
    split <;> split <;> omega

omit hshrink in
/-- Who may still move has not finished. -/
theorem exists_unfinished_of_weightAt_pos {cs : List (Client τ L ε Res α κ)} {i : ℕ}
    (h : 0 < weightAt P cs i) : ∃ c, cs[i]? = some c ∧ finished c = false := by
  cases hi : cs[i]? with
  | none =>
    rw [weightAt_of_getElem?_eq_none hi] at h
    exact absurd h (Nat.lt_irrefl 0)
  | some c =>
    refine ⟨c, rfl, ?_⟩
    rw [← Bool.not_eq_true]
    intro hfinished
    rw [weightAt_of_getElem? hi, weight_of_finished hfinished] at h
    exact absurd h (Nat.lt_irrefl 0)

/-- **Moves come to an end**: a thread that makes at most `b` calls makes at most three
moves for each call, and three more. -/
theorem count_le {movers : List ℕ} {b : ℕ} {x y : S × List (Client τ L ε Res α κ)}
    (hbound : ∀ c ∈ x.2, c.thread.prog.Within b) (h : Moves M P movers x y) (i : ℕ) :
    movers.count i ≤ 3 * b + 3 := by
  obtain ⟨-, hle, -⟩ := count_add_weightAt_le hshrink (fun c hc => ⟨b, hbound c hc⟩) h
  have hi := hle i
  have hweight : weightAt P x.2 i ≤ 3 * b + 3 := weightAt_le hbound i
  omega

/-- Only threads that have not finished move. -/
theorem unfinished_of_mem {movers : List ℕ} {x y : S × List (Client τ L ε Res α κ)}
    (hbounded : Bounded x.2) (h : Moves M P movers x y) {i : ℕ} (hi : i ∈ movers) :
    ∃ c, x.2[i]? = some c ∧ finished c = false := by
  obtain ⟨-, hle, -⟩ := count_add_weightAt_le hshrink hbounded h
  have hlei := hle i
  have hpos := List.count_pos_iff.mpr hi
  have hweight : 0 < weightAt P x.2 i := by omega
  exact exists_unfinished_of_weightAt_pos hweight

/-- Threads can move until no thread can. -/
theorem exists_moves_stuck {s : S} {cs : List (Client τ L ε Res α κ)} (hbounded : Bounded cs) :
    ∃ movers y, Moves M P movers (s, cs) y ∧ Stuck M P y := by
  generalize hw : (cs.map (weight P)).sum = w
  induction w using Nat.strong_induction_on generalizing s cs with
  | _ w ih =>
    by_cases hstuck : Stuck M P (s, cs)
    · exact ⟨[], _, .refl _, hstuck⟩
    · obtain ⟨i, ⟨s', cs'⟩, hmove⟩ := not_not.mp hstuck
      obtain ⟨c, c', hi, rfl, hwithin, hlt⟩ := weight_move hshrink hbounded hmove
      have hsum := sum_map_set (weight P) hi c'
      obtain ⟨movers, y, hmoves, hend⟩ := ih _ (by omega) (hbounded.set i hwithin) rfl
      exact ⟨_, y, ((Moves.refl _).move hmove).trans hmoves, hend⟩

end Measure

/-! ### A way out -/

/-- Threads that may give up waiting always have a way to end. -/
theorem exists_reach_ended (hexec : ∀ s l o, ∃ r s' l', M.exec s l o r s' l')
    (hkeeps : ∀ o r held, ∃ held', P.keeps o r held held')
    (hexpire : ∀ s l o x, P.needs l o = some x → ∃ s' l', M.exec s l o (.error P.timeout) s' l')
    {s : S} {cs : List (Client τ L ε Res α κ)} (hbounded : Bounded cs) :
    ∃ s' cs', Reach M P (s, cs) (s', cs') ∧ ∀ c ∈ cs', c.thread.prog.result.isSome := by
  generalize hw : (cs.map fun c => c.thread.prog.callsLeft).sum = w
  induction w using Nat.strong_induction_on generalizing s cs with
  | _ w ih =>
    by_cases hended : ∀ c ∈ cs, c.thread.prog.result.isSome
    · exact ⟨s, cs, Relation.ReflTransGen.refl, hended⟩
    · have hopen : ∃ c ∈ cs, c.thread.prog.result = none := by simpa using hended
      obtain ⟨⟨⟨t, l, h, p⟩, held⟩, hc, hnone⟩ := hopen
      obtain ⟨i, hi⟩ := List.mem_iff_getElem?.mp hc
      cases p with
      | call o k =>
        -- its next call is made, or given up: one call less either way
        have hnext : ∃ s' r l' held', Step M P (s, cs)
            (s', cs.set i ⟨⟨t, l', h ++ [⟨o, r⟩], k r⟩, held'⟩) := by
          cases hwaits : P.waitsFor (⟨⟨t, l, h, .call o k⟩, held⟩ : Client τ L ε Res α κ) with
          | none =>
            obtain ⟨r, s', l', hstep⟩ := hexec s l o
            obtain ⟨held', hheld⟩ := hkeeps o r held
            exact ⟨s', r, l', held', .move (.exec hi hwaits hstep hheld)⟩
          | some x =>
            obtain ⟨s', l', hstep⟩ := hexpire s l o x (Option.filter_eq_some_iff.mp hwaits).1
            exact ⟨s', _, l', held, .expire hi hwaits hstep⟩
        obtain ⟨s', r, l', held', hstep⟩ := hnext
        obtain ⟨hlt, hrest⟩ := Prog.callsLeft_lt (hbounded _ hc) r
        have hsum := sum_map_set (fun c : Client τ L ε Res α κ => c.thread.prog.callsLeft) hi
          ⟨⟨t, l', h ++ [⟨o, r⟩], k r⟩, held'⟩
        simp only at hsum
        have hless : ((cs.set i ⟨⟨t, l', h ++ [⟨o, r⟩], k r⟩, held'⟩).map fun c =>
            c.thread.prog.callsLeft).sum < w := by omega
        obtain ⟨s'', cs'', hreach, hall⟩ := ih _ hless (hbounded.set i hrest) rfl
        exact ⟨s'', cs'', Relation.ReflTransGen.head hstep hreach, hall⟩
      | _ => cases hnone

end Runs

end Pool

end System
