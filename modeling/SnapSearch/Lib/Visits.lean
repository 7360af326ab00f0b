import Mathlib.Data.List.Forall2
import SnapSearch.Lib.Prog

/-!
# What a thread has seen

A thread of an interleaving makes its calls at moments of its own choosing, and
between them the shared state may change.  A run that keeps the states its steps
were taken from tells, for every thread started in it, at which of these states
each of its calls was answered.

## Main definitions

* `Prog.Gives` — the path of a program that a list of answered calls takes.
* `Prog.Follows` — what is left of a program after these calls.
* `System.Visits` — a run with the shared states its steps were taken from.
* `System.Made` — a call that is answered so on a shared state.
* `System.turns` — a run told turn by turn, which can be computed.

## Main results

* `Prog.gives_bind` — the rule of sequencing for `Gives`.
* `System.exists_visits_iff` — every run visits states, and only runs do.
* `System.visits_turns` — **turns make a run.**
* `System.seen_of_visits` — **a thread has made its calls, in their order, at
  moments of the run it was started in.**
-/

namespace Prog

variable {ε Op : Type} {Res : Op → Type} {α β σ : Type}

/-! ### Paths -/

/-- The calls `h`, answered as they are, are all that the program makes, and it
ends with `r`. -/
def Gives : Prog ε Res α → List ((o : Op) × Except ε (Res o)) → Except ε α → Prop
  | .pure a, h, r => h = [] ∧ r = .ok a
  | .raise e, h, r => h = [] ∧ r = .error e
  | .call o k, h, r => ∃ x h', h = ⟨o, x⟩ :: h' ∧ (k x).Gives h' r

theorem gives_ofExcept {x r : Except ε α} {h : List ((o : Op) × Except ε (Res o))} :
    (ofExcept x : Prog ε Res α).Gives h r ↔ h = [] ∧ r = x := by
  cases x <;> exact Iff.rfl

/-- A sequence takes a path of its first part, and from there, where it gave a
value, one of the second. -/
theorem gives_bind {p : Prog ε Res α} {f : α → Prog ε Res β} {r : Except ε β}
    {h : List ((o : Op) × Except ε (Res o))} :
    (p.bind f).Gives h r ↔ ∃ h₁ h₂ r₁, h = h₁ ++ h₂ ∧ p.Gives h₁ r₁ ∧
      match r₁ with
      | .ok a => (f a).Gives h₂ r
      | .error e => h₂ = [] ∧ r = .error e := by
  induction p generalizing h with
  | pure a =>
    constructor
    · intro hgives
      exact ⟨[], h, .ok a, rfl, ⟨rfl, rfl⟩, hgives⟩
    · intro hgives
      obtain ⟨h₁, h₂, r₁, rfl, ⟨rfl, rfl⟩, hrest⟩ := hgives
      exact hrest
  | raise e =>
    constructor
    · intro hgives
      obtain ⟨rfl, rfl⟩ := hgives
      exact ⟨[], [], .error e, rfl, ⟨rfl, rfl⟩, rfl, rfl⟩
    · intro hgives
      obtain ⟨h₁, h₂, r₁, rfl, ⟨rfl, rfl⟩, rfl, rfl⟩ := hgives
      exact ⟨rfl, rfl⟩
  | call o k ih =>
    constructor
    · intro hgives
      obtain ⟨x, h', rfl, hrest⟩ := hgives
      obtain ⟨h₁, h₂, r₁, rfl, hfirst, hsecond⟩ := (ih x).mp hrest
      exact ⟨⟨o, x⟩ :: h₁, h₂, r₁, rfl, ⟨x, h₁, rfl, hfirst⟩, hsecond⟩
    · intro hgives
      obtain ⟨h₁, h₂, r₁, rfl, ⟨x, h', rfl, hfirst⟩, hsecond⟩ := hgives
      exact ⟨x, h' ++ h₂, rfl, (ih x).mpr ⟨h', h₂, r₁, rfl, hfirst, hsecond⟩⟩

/-- A path ends as every path ends. -/
theorem Gives.ends {may : (o : Op) → Except ε (Res o) → Prop} {Q : Except ε α → Prop}
    {p : Prog ε Res α} (hp : p.Ends may Q) {h : List ((o : Op) × Except ε (Res o))}
    {r : Except ε α} (hgives : p.Gives h r) (hmay : ∀ e ∈ h, may e.1 e.2) : Q r := by
  induction p generalizing h with
  | pure a =>
    obtain ⟨-, rfl⟩ := hgives
    exact hp
  | raise e =>
    obtain ⟨-, rfl⟩ := hgives
    exact hp
  | call o k ih =>
    obtain ⟨x, h', rfl, hrest⟩ := hgives
    rw [List.forall_mem_cons] at hmay
    exact ih x (hp x hmay.1) hrest hmay.2

/-- The calls of a path are calls of the program. -/
theorem Gives.calls {A : Op → Prop} {p : Prog ε Res α} (hp : p.Calls A)
    {h : List ((o : Op) × Except ε (Res o))} {r : Except ε α} (hgives : p.Gives h r) :
    ∀ e ∈ h, A e.1 := by
  induction p generalizing h with
  | pure a =>
    obtain ⟨rfl, -⟩ := hgives
    simp
  | raise e =>
    obtain ⟨rfl, -⟩ := hgives
    simp
  | call o k ih =>
    obtain ⟨x, h', rfl, hrest⟩ := hgives
    rw [List.forall_mem_cons]
    exact ⟨hp.1, ih x (hp.2 x) hrest⟩

/-- What is left of a program once the calls `h` have been answered. -/
inductive Follows : Prog ε Res α → List ((o : Op) × Except ε (Res o)) → Prog ε Res α → Prop
  | start (p : Prog ε Res α) : Follows p [] p
  | call {o : Op} {k : Except ε (Res o) → Prog ε Res α} {x : Except ε (Res o)}
      {h : List ((o : Op) × Except ε (Res o))} {q : Prog ε Res α} (hrest : Follows (k x) h q) :
      Follows (.call o k) (⟨o, x⟩ :: h) q

theorem Follows.eq_of_nil {p q : Prog ε Res α} (h : Follows p [] q) : q = p := by
  generalize hh : ([] : List ((o : Op) × Except ε (Res o))) = h' at h
  cases h with
  | start => rfl
  | call => cases hh

/-- One call more. -/
theorem Follows.snoc {p : Prog ε Res α} {h : List ((o : Op) × Except ε (Res o))} {o : Op}
    {k : Except ε (Res o) → Prog ε Res α} (hp : Follows p h (.call o k)) (x : Except ε (Res o)) :
    Follows p (h ++ [⟨o, x⟩]) (k x) := by
  generalize hq : Prog.call o k = q at hp
  induction hp with
  | start p =>
    subst hq
    exact .call (.start _)
  | call hrest ih => exact .call (ih hq)

/-- The calls of the first part of a sequence. -/
theorem Follows.bind {p q : Prog ε Res α} {h : List ((o : Op) × Except ε (Res o))}
    (hp : Follows p h q) (f : α → Prog ε Res β) : Follows (p.bind f) h (q.bind f) := by
  induction hp with
  | start p => exact .start _
  | call hrest ih => exact .call ih

/-- A run takes a path, and its calls are answered by states that the calls keep. -/
theorem exists_follows_run {A : Op → Prop} (step : σ → (o : Op) → Except ε (Res o) × σ)
    {P : σ → Prop} (hstep : ∀ s o, A o → P s → P (step s o).2) {p : Prog ε Res α}
    (hp : p.Calls A) {s : σ} (hs : P s) :
    ∃ h, Follows p h (ofExcept (p.run step s).1) ∧
      ∀ e ∈ h, A e.1 ∧ ∃ s, P s ∧ (step s e.1).1 = e.2 := by
  induction p generalizing s with
  | pure a => exact ⟨[], .start _, by simp⟩
  | raise e => exact ⟨[], .start _, by simp⟩
  | call o k ih =>
    obtain ⟨h, hfollows, hall⟩ := ih (step s o).1 (hp.2 _) (hstep s o hp.1 hs)
    refine ⟨⟨o, (step s o).1⟩ :: h, .call hfollows, ?_⟩
    rw [List.forall_mem_cons]
    exact ⟨⟨hp.1, s, hs, rfl⟩, hall⟩

/-- A program that has ended has taken one of its paths. -/
theorem Follows.gives {p q : Prog ε Res α} {h : List ((o : Op) × Except ε (Res o))}
    (hp : Follows p h q) {r : Except ε α} (hr : q.result = some r) : p.Gives h r := by
  induction hp with
  | start p =>
    cases p with
    | pure a => exact ⟨rfl, (Option.some.inj hr).symm⟩
    | raise e => exact ⟨rfl, (Option.some.inj hr).symm⟩
    | call o k => cases hr
  | call hrest ih => exact ⟨_, _, rfl, ih hr⟩

end Prog

/-- What is related to two lists one after the other is two lists one after the
other. -/
theorem exists_append_of_forall₂ {α β : Type} {R : α → β → Prop} {l : List α} {l₁ l₂ : List β}
    (h : List.Forall₂ R l (l₁ ++ l₂)) :
    ∃ k₁ k₂, l = k₁ ++ k₂ ∧ List.Forall₂ R k₁ l₁ ∧ List.Forall₂ R k₂ l₂ :=
  ⟨l.take l₁.length, l.drop l₁.length, (List.take_append_drop _ _).symm,
    List.forall₂_take_append _ _ _ h, List.forall₂_drop_append _ _ _ h⟩

/-- What is in the second of two related lists is related to something in the first. -/
theorem exists_of_forall₂_mem {α β : Type} {R : α → β → Prop} {l : List α} {l' : List β}
    (h : List.Forall₂ R l l') {b : β} (hb : b ∈ l') : ∃ a ∈ l, R a b := by
  induction h with
  | nil => cases hb
  | @cons a _ _ _ hab _ ih =>
    rcases List.mem_cons.mp hb with rfl | hb
    · exact ⟨a, List.mem_cons_self, hab⟩
    · obtain ⟨a', ha', hab'⟩ := ih hb
      exact ⟨a', List.mem_cons_of_mem _ ha', hab'⟩

namespace System

variable {τ S L ε Op : Type} {Res : Op → Type} {α : Type} (M : System τ S L ε Res α)

/-! ### Runs with their states -/

/-- A run, with the shared states its steps were taken from. -/
inductive Visits : S × List (Thread τ L ε Res α) → List S → S × List (Thread τ L ε Res α) → Prop
  | refl (x : S × List (Thread τ L ε Res α)) : Visits x [] x
  | tail {x y z : S × List (Thread τ L ε Res α)} {visited : List S} (hrun : Visits x visited y)
      (hstep : M.Step y z) : Visits x (visited ++ [y.1]) z

/-- A call that may be answered so on a shared state. -/
def Made (s : S) (e : (o : Op) × Except ε (Res o)) : Prop :=
  ∃ l s' l', M.exec s l e.1 e.2 s' l'

variable {M}

/-- Every run visits states, and only runs do. -/
theorem exists_visits_iff {x y : S × List (Thread τ L ε Res α)} :
    (∃ visited, M.Visits x visited y) ↔ M.Reach x y := by
  constructor
  · rintro ⟨visited, hv⟩
    induction hv with
    | refl => exact Relation.ReflTransGen.refl
    | tail _ hstep ih => exact ih.tail hstep
  · intro hr
    induction hr with
    | refl => exact ⟨[], .refl x⟩
    | tail _ hstep ih =>
      obtain ⟨visited, hvisits⟩ := ih
      exact ⟨_, hvisits.tail hstep⟩

theorem Visits.trans {x y z : S × List (Thread τ L ε Res α)} {visited visited' : List S}
    (hxy : M.Visits x visited y) (hyz : M.Visits y visited' z) :
    M.Visits x (visited ++ visited') z := by
  induction hyz with
  | refl => rwa [List.append_nil]
  | tail _ hstep ih =>
    rw [← List.append_assoc]
    exact ih.tail hstep

/-! ### Runs turn by turn -/

/-- What happens next: a thread starts, the thread at a place makes its next call, to an
effect of a kind `φ`, or the shared state changes in a way `δ`. -/
inductive Turn (τ φ δ : Type)
  | spawn (t : τ)
  | exec (i : ℕ) (f : φ)
  | drift (d : δ)

section Turns

variable {φ δ : Type} (M) (act : φ → S × L → (o : Op) → Except ε (Res o) × (S × L))
  (change : δ → S → S)

/-- The state after a turn: `none` where the thread has no call to make. -/
def turn : S × List (Thread τ L ε Res α) → Turn τ φ δ → Option (S × List (Thread τ L ε Res α))
  | (s, ts), .spawn t => some (s, ts ++ [⟨t, M.start, [], M.prog t⟩])
  | (s, ts), .exec i f =>
      match ts[i]? with
      | some ⟨t, l, h, .call o k⟩ =>
          let (r, s', l') := act f (s, l) o
          some (s', ts.set i ⟨t, l', h ++ [⟨o, r⟩], k r⟩)
      | _ => none
  | (s, ts), .drift d => some (change d s, ts)

/-- The states that turns are taken from, and the state after them. -/
def turns : S × List (Thread τ L ε Res α) → List (Turn τ φ δ) →
    Option (List S × (S × List (Thread τ L ε Res α)))
  | x, [] => some ([], x)
  | x, t :: rest =>
      (turn M act change x t).bind fun y =>
        (turns y rest).map fun r => (x.1 :: r.1, r.2)

variable {M act change}

theorem step_of_turn
    (hact : ∀ f s l o, M.exec s l o (act f (s, l) o).1 (act f (s, l) o).2.1 (act f (s, l) o).2.2)
    (hchange : ∀ d s, M.drift s (change d s)) {x y : S × List (Thread τ L ε Res α)}
    {t : Turn τ φ δ} (h : turn M act change x t = some y) : M.Step x y := by
  obtain ⟨s, ts⟩ := x
  cases t with
  | spawn t =>
    cases h
    exact .spawn t s ts
  | exec i f =>
    simp only [turn] at h
    split at h
    · next t l hist o k hi =>
      cases h
      exact .exec hi (hact f s l o)
    · cases h
  | drift d =>
    cases h
    exact .drift (hchange d s)

/-- **Turns make a run**, and the states they are taken from are those it visits. -/
theorem visits_turns
    (hact : ∀ f s l o, M.exec s l o (act f (s, l) o).1 (act f (s, l) o).2.1 (act f (s, l) o).2.2)
    (hchange : ∀ d s, M.drift s (change d s)) {x y : S × List (Thread τ L ε Res α)}
    {rest : List (Turn τ φ δ)} {visited : List S}
    (h : turns M act change x rest = some (visited, y)) : M.Visits x visited y := by
  induction rest generalizing x visited with
  | nil =>
    cases h
    exact .refl _
  | cons t rest ih =>
    rw [turns, Option.bind_eq_some_iff] at h
    obtain ⟨z, hturn, hrest⟩ := h
    rw [Option.map_eq_some_iff] at hrest
    obtain ⟨⟨visited', y'⟩, hturns, heq⟩ := hrest
    cases heq
    exact (Visits.tail (.refl x) (step_of_turn hact hchange hturn)).trans (ih hturns)

/-- What turns keep of the shared state holds wherever they are taken from. -/
theorem forall_of_turns {P : S → Prop}
    (hact : ∀ f s l o, P s → P (act f (s, l) o).2.1) {x y : S × List (Thread τ L ε Res α)}
    {rest : List (Turn τ φ δ)} (hchange : ∀ d, .drift d ∈ rest → ∀ s, P s → P (change d s))
    {visited : List S} (hx : P x.1) (h : turns M act change x rest = some (visited, y)) :
    ∀ s ∈ visited, P s := by
  induction rest generalizing x visited with
  | nil =>
    cases h
    simp
  | cons t rest ih =>
    rw [turns, Option.bind_eq_some_iff] at h
    obtain ⟨z, hturn, hrest⟩ := h
    rw [Option.map_eq_some_iff] at hrest
    obtain ⟨⟨visited', y'⟩, hturns, heq⟩ := hrest
    cases heq
    have hz : P z.1 := by
      obtain ⟨s, ts⟩ := x
      cases t with
      | spawn t =>
        cases hturn
        exact hx
      | exec i f =>
        simp only [turn] at hturn
        split at hturn
        · cases hturn
          exact hact f s _ _ hx
        · cases hturn
      | drift d =>
        cases hturn
        exact hchange d List.mem_cons_self s hx
    rw [List.forall_mem_cons]
    exact ⟨hx, ih (fun d hd => hchange d (List.mem_cons_of_mem _ hd)) hz hturns⟩

end Turns

/-- Running a thread alone visits states that its calls keep. -/
theorem visits_run {P : S → Prop} (step : S × L → (o : Op) → Except ε (Res o) × (S × L))
    (hstep : ∀ s l o, M.exec s l o (step (s, l) o).1 (step (s, l) o).2.1 (step (s, l) o).2.2)
    (hP : ∀ s l o, P s → P (step (s, l) o).2.1) (ts : List (Thread τ L ε Res α)) (t : τ)
    (p : Prog ε Res α) {s : S} (hs : P s) (l : L) (h : List ((o : Op) × Except ε (Res o))) :
    ∃ h' visited, M.Visits (s, ts ++ [⟨t, l, h, p⟩]) visited
      ((p.run step (s, l)).2.1,
        ts ++ [⟨t, (p.run step (s, l)).2.2, h', Prog.ofExcept (p.run step (s, l)).1⟩]) ∧
      ∀ x ∈ visited, P x := by
  induction p generalizing s l h with
  | pure a => exact ⟨h, [], .refl _, by simp⟩
  | raise e => exact ⟨h, [], .refl _, by simp⟩
  | call o k ih =>
    obtain ⟨h', visited, hvisits, hvisited⟩ := ih (step (s, l) o).1 (hP s l o hs)
      (step (s, l) o).2.2 (h ++ [⟨o, (step (s, l) o).1⟩])
    have hi : (ts ++ [(⟨t, l, h, .call o k⟩ : Thread τ L ε Res α)])[ts.length]?
        = some ⟨t, l, h, .call o k⟩ := by simp
    have hfirst := Visits.tail (.refl _) (Step.exec hi (hstep s l o))
    rw [List.set_append_right _ _ (Nat.le_refl _), Nat.sub_self, List.set_cons_zero] at hfirst
    refine ⟨h', _, hfirst.trans hvisits, ?_⟩
    rw [List.nil_append, List.singleton_append, List.forall_mem_cons]
    exact ⟨hs, hvisited⟩

/-- The calls of a thread with the moments they were answered at: the thread is
what is left of its program, and the moments are states of the run, in order. -/
def Seen (M : System τ S L ε Res α) (visited : List S) (th : Thread τ L ε Res α) : Prop :=
  Prog.Follows (M.prog th.tag) th.history th.prog ∧
    ∃ moments : List S, moments.Sublist visited ∧ List.Forall₂ M.Made moments th.history

theorem Seen.visit {visited : List S} {th : Thread τ L ε Res α} (h : Seen M visited th) (s : S) :
    Seen M (visited ++ [s]) th := by
  obtain ⟨hfollows, moments, hsub, hmade⟩ := h
  exact ⟨hfollows, moments, hsub.trans (List.sublist_append_left _ _), hmade⟩

/-- **A thread has made its calls, in their order, at moments of the run it was
started in.** -/
theorem seen_of_visits {x : S × List (Thread τ L ε Res α)} {visited : List S} {s : S}
    {ts : List (Thread τ L ε Res α)} (hv : M.Visits x visited (s, ts)) {i : ℕ}
    (hi : x.2.length ≤ i) {th : Thread τ L ε Res α} (hth : ts[i]? = some th) :
    Seen M visited th := by
  generalize hy : (s, ts) = y at hv
  induction hv generalizing s ts th with
  | refl =>
    subst hy
    -- no thread has been started
    have hlt := (List.getElem?_eq_some_iff.mp hth).1
    exact absurd hlt (Nat.not_lt.mpr hi)
  | @tail y z visited hrun hstep ih =>
    subst hy
    cases hstep with
    | spawn t =>
      rw [List.getElem?_append] at hth
      split at hth
      · exact (ih hth rfl).visit _
      · rw [List.getElem?_singleton] at hth
        split at hth
        · cases hth
          exact ⟨.start _, [], List.nil_sublist _, .nil⟩
        · cases hth
    | @exec s₁ _ ts₁ j t l l' h o k r hj hexec =>
      by_cases hij : j = i
      · subst hij
        rw [List.getElem?_set_self (List.getElem?_eq_some_iff.mp hj).1] at hth
        cases hth
        -- the thread's own call: its moment is the state the step was taken from
        obtain ⟨hfollows, moments, hsub, hmade⟩ := ih hj rfl
        refine ⟨hfollows.snoc r, moments ++ [s₁], hsub.append (List.Sublist.refl _), ?_⟩
        exact List.rel_append hmade (.cons ⟨l, _, l', hexec⟩ .nil)
      · rw [List.getElem?_set_ne hij] at hth
        exact (ih hth rfl).visit _
    | drift => exact (ih hth rfl).visit _

end System
