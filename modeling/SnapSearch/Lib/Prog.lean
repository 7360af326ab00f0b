import Mathlib.Algebra.GroupWithZero.Nat
import Mathlib.Data.Nat.Notation
import Mathlib.Logic.Relation

/-!
# Programs that call operations

A program is a tree: it ends with a value, ends with an exception, or calls an
operation and continues with what the operation answers, a result or an
exception of its own.  What an operation does is not part of the tree, so one
program is run alone by a handler, run next to others on a shared state, or
examined over every answer it may get.

## Main definitions

* `Prog` — the trees, a monad with `throw` and `try … catch`.
* `Prog.run` — a program run alone by a handler.
* `Prog.Calls` — what every operation a program may call satisfies.
* `Prog.Ends` — how every path of a program ends.
* `Prog.Obeys` — what holds on every path of a program, told by a ledger of the
  calls made so far.
* `System`, `System.Step` — threads of programs interleaved on a shared state.

## Main results

* `Prog.run_rel` — **two runs that no call can tell apart end alike.**
* `Prog.obeys_bind`, `Prog.obeys_handle` — the rules of `Obeys`.
* `System.obeys_of_reach` — **what every path of a program obeys, every thread
  obeys in every interleaving.**
-/

/-- A program over operations `Op` answering `Res o`, with exceptions `ε`. -/
inductive Prog (ε : Type) {Op : Type} (Res : Op → Type) (α : Type)
  /-- End with a value. -/
  | pure (a : α)
  /-- End with an exception. -/
  | raise (e : ε)
  /-- Call an operation and go on with its answer. -/
  | call (o : Op) (k : Except ε (Res o) → Prog ε Res α)

namespace Prog

variable {ε Op : Type} {Res : Op → Type} {α β γ σ : Type}

/-! ### The monad -/

/-- Go on with the value of a program. -/
def bind : Prog ε Res α → (α → Prog ε Res β) → Prog ε Res β
  | .pure a, f => f a
  | .raise e, _ => .raise e
  | .call o k, f => .call o fun r => (k r).bind f

/-- Go on with the exception of a program. -/
def handle : Prog ε Res α → (ε → Prog ε Res α) → Prog ε Res α
  | .pure a, _ => .pure a
  | .raise e, h => h e
  | .call o k, h => .call o fun r => (k r).handle h

/-- A settled result as a program. -/
def ofExcept : Except ε α → Prog ε Res α
  | .ok a => .pure a
  | .error e => .raise e

/-- The program of one operation: its exception is raised. -/
def perform (o : Op) : Prog ε Res (Res o) := .call o ofExcept

instance : Monad (Prog ε Res) where
  pure := .pure
  bind := bind

instance : MonadExceptOf ε (Prog ε Res) where
  throw := .raise
  tryCatch := handle

@[simp] theorem bind_eq (p : Prog ε Res α) (f : α → Prog ε Res β) : p >>= f = p.bind f := rfl

@[simp] theorem pure_eq (a : α) : (Pure.pure a : Prog ε Res α) = .pure a := rfl

@[simp] theorem throw_eq (e : ε) : (throw e : Prog ε Res α) = .raise e := rfl

@[simp] theorem tryCatch_eq (p : Prog ε Res α) (h : ε → Prog ε Res α) :
    tryCatch p h = p.handle h := rfl

@[simp] theorem ofExcept_ok (a : α) : (ofExcept (.ok a) : Prog ε Res α) = .pure a := rfl

@[simp] theorem ofExcept_error (e : ε) : (ofExcept (.error e) : Prog ε Res α) = .raise e := rfl

/-! ### Running a program alone -/

/-- Run a program with a handler that answers each call from a state. -/
def run (step : σ → (o : Op) → Except ε (Res o) × σ) : Prog ε Res α → σ → Except ε α × σ
  | .pure a, s => (.ok a, s)
  | .raise e, s => (.error e, s)
  | .call o k, s => (k (step s o).1).run step (step s o).2

variable (step : σ → (o : Op) → Except ε (Res o) × σ)

@[simp] theorem run_call (o : Op) (k : Except ε (Res o) → Prog ε Res α) (s : σ) :
    (call o k).run step s = (k (step s o).1).run step (step s o).2 := rfl

@[simp] theorem run_ofExcept (r : Except ε α) (s : σ) :
    (ofExcept r : Prog ε Res α).run step s = (r, s) := by
  cases r <;> rfl

/-- A sequence runs its first part, and the second where the first gave a value. -/
theorem run_bind (p : Prog ε Res α) (f : α → Prog ε Res β) (s : σ) :
    (p.bind f).run step s =
      match p.run step s with
      | (.ok a, s') => (f a).run step s'
      | (.error e, s') => (.error e, s') := by
  induction p generalizing s with
  | pure a => rfl
  | raise e => rfl
  | call o k ih => rw [bind, run_call, ih, run_call]

/-- A guarded program runs its handler where the body raised. -/
theorem run_handle (p : Prog ε Res α) (h : ε → Prog ε Res α) (s : σ) :
    (p.handle h).run step s =
      match p.run step s with
      | (.ok a, s') => (.ok a, s')
      | (.error e, s') => (h e).run step s' := by
  induction p generalizing s with
  | pure a => rfl
  | raise e => rfl
  | call o k ih => rw [handle, run_call, ih, run_call]

/-! ### The calls of a program -/

/-- Every operation that some path of the program calls satisfies `A`. -/
def Calls (A : Op → Prop) : Prog ε Res α → Prop
  | .pure _ => True
  | .raise _ => True
  | .call o k => A o ∧ ∀ r, (k r).Calls A

section Calls

variable {A B : Op → Prop}

theorem Calls.mono (h : ∀ o, A o → B o) {p : Prog ε Res α} (hp : p.Calls A) : p.Calls B := by
  induction p with
  | pure a => trivial
  | raise e => trivial
  | call o k ih =>
    refine ⟨h o hp.1, ?_⟩
    intro r
    exact ih r (hp.2 r)

theorem calls_ofExcept (r : Except ε α) : (ofExcept r : Prog ε Res α).Calls A := by
  cases r <;> trivial

theorem calls_perform {o : Op} (h : A o) : (perform o : Prog ε Res (Res o)).Calls A :=
  ⟨h, calls_ofExcept⟩

theorem calls_bind {p : Prog ε Res α} {f : α → Prog ε Res β} (hp : p.Calls A)
    (hf : ∀ a, (f a).Calls A) : (p.bind f).Calls A := by
  induction p with
  | pure a => exact hf a
  | raise e => trivial
  | call o k ih =>
    refine ⟨hp.1, ?_⟩
    intro r
    exact ih r (hp.2 r)

theorem calls_handle {p : Prog ε Res α} {h : ε → Prog ε Res α} (hp : p.Calls A)
    (hh : ∀ e, (h e).Calls A) : (p.handle h).Calls A := by
  induction p with
  | pure a => trivial
  | raise e => exact hh e
  | call o k ih =>
    refine ⟨hp.1, ?_⟩
    intro r
    exact ih r (hp.2 r)

/-- What every call keeps, a run keeps. -/
theorem run_invariant {step : σ → (o : Op) → Except ε (Res o) × σ} {P : σ → Prop}
    (hstep : ∀ s o, A o → P s → P (step s o).2) {p : Prog ε Res α} (hp : p.Calls A) {s : σ}
    (h : P s) : P (p.run step s).2 := by
  induction p generalizing s with
  | pure a => exact h
  | raise e => exact h
  | call o k ih => exact ih _ (hp.2 _) (hstep s o hp.1 h)

/-- **Two runs that no call can tell apart end alike**, and in related states. -/
theorem run_rel {τ : Type} {step : σ → (o : Op) → Except ε (Res o) × σ}
    {step' : τ → (o : Op) → Except ε (Res o) × τ} {R : σ → τ → Prop}
    (hstep : ∀ s t o, A o → R s t →
      (step s o).1 = (step' t o).1 ∧ R (step s o).2 (step' t o).2)
    {p : Prog ε Res α} (hp : p.Calls A) {s : σ} {t : τ} (h : R s t) :
    (p.run step s).1 = (p.run step' t).1 ∧ R (p.run step s).2 (p.run step' t).2 := by
  induction p generalizing s t with
  | pure a => exact ⟨rfl, h⟩
  | raise e => exact ⟨rfl, h⟩
  | call o k ih =>
    obtain ⟨hans, hnext⟩ := hstep s t o hp.1 h
    rw [run_call, run_call, hans]
    exact ih _ (hp.2 _) hnext

end Calls

/-! ### The ends of a program -/

section Paths

variable (may : (o : Op) → Except ε (Res o) → Prop)

/-- Every path of the program ends with a result that satisfies `Q`, as long as
the calls answer what they may. -/
def Ends (Q : Except ε α → Prop) : Prog ε Res α → Prop
  | .pure a => Q (.ok a)
  | .raise e => Q (.error e)
  | .call o k => ∀ r, may o r → (k r).Ends Q

variable {may}

theorem Ends.mono {Q Q' : Except ε α → Prop} (h : ∀ r, Q r → Q' r) {p : Prog ε Res α}
    (hp : p.Ends may Q) : p.Ends may Q' := by
  induction p with
  | pure a => exact h _ hp
  | raise e => exact h _ hp
  | call o k ih =>
    intro r hr
    exact ih r (hp r hr)

theorem ends_of_forall {Q : Except ε α → Prop} (h : ∀ r, Q r) (p : Prog ε Res α) :
    p.Ends may Q := by
  induction p with
  | pure a => exact h _
  | raise e => exact h _
  | call o k ih =>
    intro r _
    exact ih r

theorem ends_ofExcept {Q : Except ε α → Prop} {r : Except ε α} (h : Q r) :
    (ofExcept r : Prog ε Res α).Ends may Q := by
  cases r <;> exact h

theorem ends_perform {o : Op} : (perform o : Prog ε Res (Res o)).Ends may (may o) := by
  intro r hr
  exact ends_ofExcept hr

theorem ends_bind {Q : Except ε β → Prop} {f : α → Prog ε Res β} {p : Prog ε Res α}
    (hp : p.Ends may fun r => match r with
      | .ok a => (f a).Ends may Q
      | .error e => Q (.error e)) : (p.bind f).Ends may Q := by
  induction p with
  | pure a => exact hp
  | raise e => exact hp
  | call o k ih =>
    intro r hr
    exact ih r (hp r hr)

theorem ends_handle {Q : Except ε α → Prop} {h : ε → Prog ε Res α} {p : Prog ε Res α}
    (hp : p.Ends may fun r => match r with
      | .ok a => Q (.ok a)
      | .error e => (h e).Ends may Q) : (p.handle h).Ends may Q := by
  induction p with
  | pure a => exact hp
  | raise e => exact hp
  | call o k ih =>
    intro r hr
    exact ih r (hp r hr)

/-- A run is one of the paths. -/
theorem Ends.run {Q : Except ε α → Prop} {p : Prog ε Res α} (hp : p.Ends may Q)
    (step : σ → (o : Op) → Except ε (Res o) × σ) (hstep : ∀ s o, may o (step s o).1) (s : σ) :
    Q (p.run step s).1 := by
  induction p generalizing s with
  | pure a => exact hp
  | raise e => exact hp
  | call o k ih => exact ih _ (hp _ (hstep s o)) _

/-! ### Every path of a program, with a ledger -/

variable (may) in
/-- On every path of the program, as long as the calls answer what they may: `J`
holds of the ledger and the call whenever one is made, and `Q` relates the ledger
to the end. -/
def Obeys (next : γ → (o : Op) → Except ε (Res o) → γ) (J : γ → Op → Prop)
    (Q : γ → Except ε α → Prop) : γ → Prog ε Res α → Prop
  | g, .pure a => Q g (.ok a)
  | g, .raise e => Q g (.error e)
  | g, .call o k => J g o ∧ ∀ r, may o r → (k r).Obeys next J Q (next g o r)

variable {next : γ → (o : Op) → Except ε (Res o) → γ} {J : γ → Op → Prop}

theorem Obeys.mono {Q Q' : γ → Except ε α → Prop} (h : ∀ g r, Q g r → Q' g r) {g : γ}
    {p : Prog ε Res α} (hp : p.Obeys may next J Q g) : p.Obeys may next J Q' g := by
  induction p generalizing g with
  | pure a => exact h _ _ hp
  | raise e => exact h _ _ hp
  | call o k ih =>
    refine ⟨hp.1, ?_⟩
    intro r hr
    exact ih r (hp.2 r hr)

theorem obeys_ofExcept {Q : γ → Except ε α → Prop} {g : γ} {r : Except ε α} (h : Q g r) :
    (ofExcept r : Prog ε Res α).Obeys may next J Q g := by
  cases r <;> exact h

theorem obeys_perform {o : Op} {Q : γ → Except ε (Res o) → Prop} {g : γ} (hJ : J g o)
    (h : ∀ r, may o r → Q (next g o r) r) :
    (perform o : Prog ε Res (Res o)).Obeys may next J Q g := by
  refine ⟨hJ, ?_⟩
  intro r hr
  exact obeys_ofExcept (h r hr)

/-- A program whose calls leave the ledger alone ends with the ledger it had. -/
theorem obeys_of_calls {A : Op → Prop} {Q : Except ε α → Prop} {g : γ}
    (hnext : ∀ o r, A o → next g o r = g) (hJ : ∀ o, A o → J g o) {p : Prog ε Res α}
    (hcalls : p.Calls A) (hends : p.Ends may Q) :
    p.Obeys may next J (fun g' r => g' = g ∧ Q r) g := by
  induction p with
  | pure a => exact ⟨rfl, hends⟩
  | raise e => exact ⟨rfl, hends⟩
  | call o k ih =>
    refine ⟨hJ o hcalls.1, ?_⟩
    intro r hr
    rw [hnext o r hcalls.1]
    exact ih r (hcalls.2 r) (hends r hr)

/-- The rule of sequencing. -/
theorem obeys_bind {Q : γ → Except ε β → Prop} {f : α → Prog ε Res β} {g : γ}
    {p : Prog ε Res α}
    (hp : p.Obeys may next J (fun g r => match r with
      | .ok a => (f a).Obeys may next J Q g
      | .error e => Q g (.error e)) g) : (p.bind f).Obeys may next J Q g := by
  induction p generalizing g with
  | pure a => exact hp
  | raise e => exact hp
  | call o k ih =>
    refine ⟨hp.1, ?_⟩
    intro r hr
    exact ih r (hp.2 r hr)

/-- The rule of guarding. -/
theorem obeys_handle {Q : γ → Except ε α → Prop} {h : ε → Prog ε Res α} {g : γ}
    {p : Prog ε Res α}
    (hp : p.Obeys may next J (fun g r => match r with
      | .ok a => Q g (.ok a)
      | .error e => (h e).Obeys may next J Q g) g) : (p.handle h).Obeys may next J Q g := by
  induction p generalizing g with
  | pure a => exact hp
  | raise e => exact hp
  | call o k ih =>
    refine ⟨hp.1, ?_⟩
    intro r hr
    exact ih r (hp.2 r hr)

/-- **A run keeps its books**: where the state agrees with the ledger and every call
keeps it so, the run ends with a ledger that the state agrees with. -/
theorem Obeys.run {Q : γ → Except ε α → Prop} {g : γ} {p : Prog ε Res α}
    (hp : p.Obeys may next J Q g) (step : σ → (o : Op) → Except ε (Res o) × σ)
    {R : σ → γ → Prop}
    (hstep : ∀ s g o, J g o → R s g →
      may o (step s o).1 ∧ R (step s o).2 (next g o (step s o).1)) {s : σ} (h : R s g) :
    ∃ g', R (p.run step s).2 g' ∧ Q g' (p.run step s).1 := by
  induction p generalizing g s with
  | pure a => exact ⟨g, h, hp⟩
  | raise e => exact ⟨g, h, hp⟩
  | call o k ih =>
    obtain ⟨hmay, hnext⟩ := hstep s g o hp.1 h
    exact ih _ (hp.2 _ hmay) hnext

end Paths

/-! ### Ended programs -/

/-- The result of a program that has ended. -/
def result : Prog ε Res α → Option (Except ε α)
  | .pure a => some (.ok a)
  | .raise e => some (.error e)
  | .call _ _ => none

@[simp] theorem result_ofExcept (r : Except ε α) : (ofExcept r : Prog ε Res α).result = some r := by
  cases r <;> rfl

/-- A program that has ended obeys with its result. -/
theorem Obeys.of_result {may : (o : Op) → Except ε (Res o) → Prop}
    {next : γ → (o : Op) → Except ε (Res o) → γ} {J : γ → Op → Prop} {Q : γ → Except ε α → Prop}
    {g : γ} {p : Prog ε Res α} (hp : p.Obeys may next J Q g) {r : Except ε α}
    (hr : p.result = some r) : Q g r := by
  cases p with
  | pure a =>
    cases hr
    exact hp
  | raise e =>
    cases hr
    exact hp
  | call o k => cases hr

end Prog

/-! ### Threads on a shared state -/

/-- Replacing one entry of a list changes a sum over it by the difference. -/
theorem sum_map_set {α : Type} (f : α → ℕ) {l : List α} {i : ℕ} {a : α} (h : l[i]? = some a)
    (b : α) : ((l.set i b).map f).sum + f a = (l.map f).sum + f b := by
  induction l generalizing i with
  | nil => cases h
  | cons x l ih =>
    cases i with
    | zero =>
      cases h
      simp only [List.set_cons_zero, List.map_cons, List.sum_cons]
      omega
    | succ i =>
      have := ih h
      simp only [List.set_cons_succ, List.map_cons, List.sum_cons]
      omega

/-- Replacing one entry of a list by one with the same value leaves its values. -/
theorem map_set_of_eq {α β : Type} (f : α → β) {l : List α} {i : ℕ} {a b : α} (h : l[i]? = some a)
    (hb : f b = f a) : (l.set i b).map f = l.map f := by
  induction l generalizing i with
  | nil => rfl
  | cons x l ih =>
    cases i with
    | zero =>
      cases h
      rw [List.set_cons_zero, List.map_cons, List.map_cons, hb]
    | succ i => rw [List.set_cons_succ, List.map_cons, List.map_cons, ih h]

/-- One run of a program next to others: what it was started for, its own state,
the calls it has made with their answers, and what is left of it. -/
structure Thread (τ L ε : Type) {Op : Type} (Res : Op → Type) (α : Type) where
  tag : τ
  locals : L
  history : List ((o : Op) × Except ε (Res o))
  prog : Prog ε Res α

/-- How threads meet a shared state: the program and first own state of a thread,
what a call may do, and what may change by itself. -/
structure System (τ S L ε : Type) {Op : Type} (Res : Op → Type) (α : Type) where
  prog : τ → Prog ε Res α
  start : L
  exec : S → L → (o : Op) → Except ε (Res o) → S → L → Prop
  drift : S → S → Prop

namespace System

variable {τ S L ε Op : Type} {Res : Op → Type} {α γ : Type} (M : System τ S L ε Res α)

/-- One step of the system: a thread starts, a thread makes its next call, or the
shared state changes by itself. -/
inductive Step : S × List (Thread τ L ε Res α) → S × List (Thread τ L ε Res α) → Prop
  | spawn (t : τ) (s : S) (ts : List (Thread τ L ε Res α)) :
      Step (s, ts) (s, ts ++ [⟨t, M.start, [], M.prog t⟩])
  | exec {s s' : S} {ts : List (Thread τ L ε Res α)} {i : ℕ} {t : τ} {l l' : L}
      {h : List ((o : Op) × Except ε (Res o))} {o : Op} {k : Except ε (Res o) → Prog ε Res α}
      {r : Except ε (Res o)} (hi : ts[i]? = some ⟨t, l, h, .call o k⟩)
      (hexec : M.exec s l o r s' l') :
      Step (s, ts) (s', ts.set i ⟨t, l', h ++ [⟨o, r⟩], k r⟩)
  | drift {s s' : S} {ts : List (Thread τ L ε Res α)} (h : M.drift s s') : Step (s, ts) (s', ts)

/-- The states a run can reach. -/
def Reach := Relation.ReflTransGen M.Step

/-- What a thread's history adds up to. -/
def ledger (next : γ → (o : Op) → Except ε (Res o) → γ) (g : γ)
    (h : List ((o : Op) × Except ε (Res o))) : γ :=
  h.foldl (fun g e => next g e.1 e.2) g

@[simp] theorem ledger_append_singleton (next : γ → (o : Op) → Except ε (Res o) → γ) (g : γ)
    (h : List ((o : Op) × Except ε (Res o))) (o : Op) (r : Except ε (Res o)) :
    ledger next g (h ++ [⟨o, r⟩]) = next (ledger next g h) o r := by
  simp [ledger]

section Books

variable {M} {next : γ → (o : Op) → Except ε (Res o) → γ} {J : γ → Op → Prop} {g₀ : γ}
  {Q : τ → γ → Except ε α → Prop} {may : (o : Op) → Except ε (Res o) → Prop} {s₀ s : S}
  {ts : List (Thread τ L ε Res α)} (hprog : ∀ t, (M.prog t).Obeys may next J (Q t) g₀)
  (hexec : ∀ s l o r s' l', M.exec s l o r s' l' → may o r) (hr : M.Reach (s₀, []) (s, ts))

include hprog hexec hr

/-- **What every path of a program obeys, every thread obeys in every
interleaving.** -/
theorem obeys_of_reach :
    ∀ th ∈ ts, th.prog.Obeys may next J (Q th.tag) (ledger next g₀ th.history) := by
  generalize hx : (s, ts) = x at hr
  induction hr generalizing s ts with
  | refl => cases hx; simp
  | tail _ hstep ih =>
    subst hx
    cases hstep with
    | spawn t =>
      intro th hth
      rcases List.mem_append.mp hth with hth | hth
      · exact ih rfl th hth
      · rw [List.mem_singleton] at hth
        subst hth
        exact hprog t
    | exec hi hstep =>
      intro th hth
      rcases List.mem_or_eq_of_mem_set hth with hth | rfl
      · exact ih rfl th hth
      · rw [ledger_append_singleton]
        exact (ih rfl _ (List.mem_of_getElem? hi)).2 _ (hexec _ _ _ _ _ _ hstep)
    | drift => exact ih rfl

/-- An invariant of the shared state and the threads holds in every state that is
reached, if every call keeps it that is made as the program obeys. -/
theorem inv_of_reach {I : S → List (Thread τ L ε Res α) → Prop} (hinit : I s₀ [])
    (hspawn : ∀ s ts t, I s ts → I s (ts ++ [⟨t, M.start, [], M.prog t⟩]))
    (hcall : ∀ s ts i t l h o k r s' l', I s ts → ts[i]? = some ⟨t, l, h, .call o k⟩ →
      J (ledger next g₀ h) o → M.exec s l o r s' l' →
      I s' (ts.set i ⟨t, l', h ++ [⟨o, r⟩], k r⟩))
    (hdrift : ∀ s s' ts, I s ts → M.drift s s' → I s' ts) : I s ts := by
  generalize hx : (s, ts) = x at hr
  induction hr generalizing s ts with
  | refl => cases hx; exact hinit
  | @tail y _ hreach hstep ih =>
    subst hx
    cases hstep with
    | spawn t => exact hspawn _ _ t (ih rfl)
    | exec hi hstep =>
      -- the thread still obeys, so `J` holds at its call
      have hobeys := obeys_of_reach hprog hexec hreach _ (List.mem_of_getElem? hi)
      exact hcall _ _ _ _ _ _ _ _ _ _ _ (ih rfl) hi hobeys.1 hstep
    | drift h => exact hdrift _ _ _ (ih rfl) h

end Books

variable {M} in
/-- What answering a call keeps of a program holds of what is left of every
thread. -/
theorem forall_prog_of_reach {Q : Prog ε Res α → Prop} (hprog : ∀ t, Q (M.prog t))
    (hcall : ∀ o k r, Q (.call o k) → Q (k r)) {s₀ s : S} {ts : List (Thread τ L ε Res α)}
    (hr : M.Reach (s₀, []) (s, ts)) : ∀ th ∈ ts, Q th.prog := by
  generalize hx : (s, ts) = x at hr
  induction hr generalizing s ts with
  | refl => cases hx; simp
  | tail _ hstep ih =>
    subst hx
    cases hstep with
    | spawn t =>
      intro th hth
      rcases List.mem_append.mp hth with hth | hth
      · exact ih rfl th hth
      · rw [List.mem_singleton] at hth
        subst hth
        exact hprog t
    | exec hi hstep =>
      intro th hth
      rcases List.mem_or_eq_of_mem_set hth with hth | rfl
      · exact ih rfl th hth
      · exact hcall _ _ _ (ih rfl _ (List.mem_of_getElem? hi))
    | drift => exact ih rfl

end System
