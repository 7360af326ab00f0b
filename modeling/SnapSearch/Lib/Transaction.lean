import Mathlib.Data.List.Forall2
import SnapSearch.Lib.Script

/-!
# Scripts on a transactional database

A connection shows a script its own changes, and they become durable at a commit.
Inside an autocommit block every statement is durable at once; some statements can run
there only, and one that is cut there may leave something else behind than all of its
effect or none of it.

## Main definitions

* `Script.Sql` — statements by their failure, their effect and what a cut may leave.
* `Script.Sql.machine` — the statements on a connection.

## Main results

* `Sql.keeps_pair` — a statement keeps what its effect keeps.
* `Sql.durable_of_run` — **a run within one transaction leaves nothing**, cut or not.
* `Sql.ran_map` — statements that each set one slot.
* `Sql.run_transaction` — a script in one transaction leaves nothing or all.
* `Machine.run_append` — a script in two parts.
* `Machine.run_of_forall₂` — one machine follows another.
-/

namespace Script

/-- A connection: what is durable, what its transaction sees, and whether each
statement commits. -/
structure Txn (σ : Type) where
  durable : σ
  working : σ
  autocommit : Bool

/-- Change what the transaction sees. -/
def Txn.change {σ : Type} (c : Txn σ) (f : σ → σ) : Txn σ :=
  { c with working := f c.working, durable := if c.autocommit then f c.working else c.durable }

/-- The connection that sees a state. -/
def Txn.to {σ : Type} (c : Txn σ) (x : σ) : Txn σ := c.change fun _ => x

/-- Nothing is pending in the transaction of an autocommit block. -/
def Txn.Settled {σ : Type} (c : Txn σ) : Prop := c.autocommit = true → c.durable = c.working

@[simp] theorem Txn.autocommit_to {σ : Type} (c : Txn σ) (x : σ) :
    (c.to x).autocommit = c.autocommit := rfl

@[simp] theorem Txn.working_to {σ : Type} (c : Txn σ) (x : σ) : (c.to x).working = x := rfl

@[simp] theorem Txn.to_to {σ : Type} (c : Txn σ) (x y : σ) : (c.to x).to y = c.to y := by
  obtain ⟨durable, working, autocommit⟩ := c
  cases autocommit <;> rfl

/-- Outside an autocommit block a change is not durable. -/
theorem Txn.durable_to {σ : Type} {c : Txn σ} (h : c.autocommit = false) (x : σ) :
    (c.to x).durable = c.durable := by
  simp [Txn.to, Txn.change, h]

theorem Txn.settled_to {σ : Type} (c : Txn σ) (x : σ) : (c.to x).Settled := fun h => if_pos h

theorem Txn.settled_of_eq_false {σ : Type} {c : Txn σ} (h : c.autocommit = false) : c.Settled := by
  intro hauto
  rw [h] at hauto
  cases hauto

/-- What a statement is to the transaction. -/
inductive Control
  | change
  /-- A change that cannot be made inside a transaction. -/
  | alone
  | beginAutocommit
  | endAutocommit
  | commit
  deriving DecidableEq

/-- What is left of a statement that a script is cut at. -/
inductive Outcome
  | undone
  | done
  /-- What such a statement leaves behind where it runs outside a transaction. -/
  | half
  deriving DecidableEq

/-- Statements on states: why one fails, if it does, what it changes, and what a cut may
leave of it. -/
structure Sql (S σ ε : Type) where
  control : S → Control
  failure : S → σ → Option ε
  effect : S → σ → σ
  residue : S → σ → σ
  notAlone : ε
  interrupted : ε

namespace Sql

variable {S σ ε : Type} (D : Sql S σ ε)

/-- What a statement does that does not fail. -/
def apply (s : S) (c : Txn σ) : Txn σ :=
  match D.control s with
  | .change => c.change (D.effect s)
  | .alone => c.change (D.effect s)
  | .beginAutocommit => { c with durable := c.working, autocommit := true }
  | .endAutocommit => { c with autocommit := false }
  | .commit => { c with durable := c.working }

/-- Execute a statement. -/
def execute (s : S) (c : Txn σ) : Except ε (Txn σ) :=
  if D.control s = .alone ∧ c.autocommit = false then .error D.notAlone
  else match D.failure s c.working with
    | some e => .error e
    | none => .ok (D.apply s c)

/-- After a statement nothing is pending in an autocommit block. -/
theorem settled_apply (s : S) (c : Txn σ) : (D.apply s c).Settled := by
  unfold apply
  cases D.control s with
  | change => exact c.settled_to _
  | alone => exact c.settled_to _
  | beginAutocommit => exact fun _ => rfl
  | endAutocommit =>
    intro hauto
    cases hauto
  | commit => exact fun _ => rfl

/-- What is left of a statement that a script is cut at: nothing of one that fails. -/
def cut (o : Outcome) (s : S) (c : Txn σ) : Txn σ :=
  match o, D.execute s c with
  | .done, .ok c' => c'
  | .half, .ok _ => if D.control s = .alone then c.change (D.residue s) else c
  | _, _ => c

/-- The statements on a connection. -/
def machine : Machine S (Txn σ) Outcome ε where
  execute := D.execute
  cut := D.cut
  interrupted := D.interrupted

variable {D} {s : S} {c c' : Txn σ}

theorem execute_eq_ok_iff : D.execute s c = .ok c' ↔
    (D.control s = .alone → c.autocommit = true) ∧ D.failure s c.working = none ∧
      D.apply s c = c' := by
  unfold execute
  split
  · next h => simp [h]
  · next h =>
    have halone : D.control s = .alone → c.autocommit = true := by simpa using h
    cases D.failure s c.working with
    | none => simpa using fun _ => halone
    | some e => simp

/-- What a cut may leave: nothing, all, or what else the statement leaves behind. -/
theorem cut_cases (D : Sql S σ ε) (o : Outcome) (s : S) (c : Txn σ) :
    D.cut o s c = c ∨ (o = .done ∧ D.execute s c = .ok (D.cut o s c)) ∨
      (D.control s = .alone ∧ D.failure s c.working = none ∧
        D.cut o s c = c.change (D.residue s)) := by
  cases hs : D.execute s c with
  | error e =>
    left
    cases o <;> simp [cut, hs]
  | ok c' =>
    cases o with
    | undone => exact Or.inl rfl
    | done => exact Or.inr (Or.inl ⟨rfl, by simp [cut, hs]⟩)
    | half =>
      by_cases halone : D.control s = .alone
      · refine Or.inr (Or.inr ⟨halone, (execute_eq_ok_iff.mp hs).2.1, ?_⟩)
        simp [cut, hs, halone]
      · left
        simp [cut, hs, halone]

/-- **A statement keeps what its effect keeps**, and what a cut may leave of it: what the
transaction sees becomes durable, and nothing else. -/
theorem keeps_pair {P Q : σ → Prop} (hPQ : ∀ x, Q x → P x)
    (heffect : ∀ x, D.failure s x = none → Q x → Q (D.effect s x))
    (hresidue : D.control s = .alone → ∀ x, D.failure s x = none → Q x → Q (D.residue s x)) :
    D.machine.Keeps (fun c => P c.durable ∧ Q c.working) s := by
  have hchange : ∀ (c : Txn σ) (f : σ → σ), P c.durable → Q (f c.working) →
      P (c.change f).durable ∧ Q (c.change f).working := by
    intro c f hP hQ
    refine ⟨?_, hQ⟩
    unfold Txn.change
    split
    · exact hPQ _ hQ
    · exact hP
  have hexecute : ∀ c c' : Txn σ, P c.durable ∧ Q c.working → D.execute s c = .ok c' →
      P c'.durable ∧ Q c'.working := by
    intro c c' h hs
    obtain ⟨-, hfailure, rfl⟩ := execute_eq_ok_iff.mp hs
    have heffect := hchange c _ h.1 (heffect c.working hfailure h.2)
    unfold apply
    cases D.control s with
    | change => exact heffect
    | alone => exact heffect
    | beginAutocommit => exact ⟨hPQ _ h.2, h.2⟩
    | endAutocommit => exact h
    | commit => exact ⟨hPQ _ h.2, h.2⟩
  refine ⟨hexecute, ?_⟩
  intro o c h
  show P (D.cut o s c).durable ∧ Q (D.cut o s c).working
  rcases cut_cases D o s c with hcut | ⟨-, hs⟩ | ⟨halone, hfailure, hcut⟩
  · rwa [hcut]
  · exact hexecute c _ h hs
  · rw [hcut]
    exact hchange c _ h.1 (hresidue halone c.working hfailure h.2)

theorem keeps_both (Q : σ → Prop) (heffect : ∀ x, D.failure s x = none → Q x → Q (D.effect s x))
    (hresidue : D.control s = .alone → ∀ x, D.failure s x = none → Q x → Q (D.residue s x)) :
    D.machine.Keeps (fun c => Q c.durable ∧ Q c.working) s :=
  keeps_pair (fun _ h => h) heffect hresidue

/-- Only the beginning of an autocommit block ends a transaction for good. -/
theorem keeps_autocommit (hs : D.control s ≠ .beginAutocommit) :
    D.machine.Keeps (fun c => c.autocommit = false) s := by
  have hexecute : ∀ c c' : Txn σ, c.autocommit = false → D.execute s c = .ok c' →
      c'.autocommit = false := by
    intro c c' h hc
    obtain ⟨-, -, rfl⟩ := execute_eq_ok_iff.mp hc
    unfold apply
    cases hcontrol : D.control s with
    | beginAutocommit => exact absurd hcontrol hs
    | endAutocommit => rfl
    | _ => exact h
  refine ⟨hexecute, ?_⟩
  intro o c h
  show (D.cut o s c).autocommit = false
  rcases cut_cases D o s c with hcut | ⟨-, hc⟩ | ⟨-, -, hcut⟩
  · rwa [hcut]
  · exact hexecute c _ h hc
  · rwa [hcut]

/-- A change within a transaction leaves what is durable. -/
theorem keeps_durable (hs : D.control s = .change) (x : σ) :
    D.machine.Keeps (fun c => c.autocommit = false ∧ c.durable = x) s := by
  have hexecute : ∀ c c' : Txn σ, c.autocommit = false ∧ c.durable = x →
      D.execute s c = .ok c' → c'.autocommit = false ∧ c'.durable = x := by
    intro c c' h hc
    obtain ⟨-, -, rfl⟩ := execute_eq_ok_iff.mp hc
    simp [apply, hs, Txn.change, h.1, h.2]
  refine ⟨hexecute, ?_⟩
  intro o c h
  show (D.cut o s c).autocommit = false ∧ (D.cut o s c).durable = x
  rcases cut_cases D o s c with hcut | ⟨-, hc⟩ | ⟨halone, -, -⟩
  · rwa [hcut]
  · exact hexecute c _ h hc
  · rw [hs] at halone
    cases halone

/-- A change is seen at once. -/
theorem ran_change (hs : D.control s = .change) (hfailure : D.failure s c.working = none) :
    D.machine.Ran [s] c (c.to (D.effect s c.working)) := by
  refine Machine.ran_cons.mpr ⟨_, execute_eq_ok_iff.mpr ⟨?_, hfailure, rfl⟩,
    Machine.ran_nil.mpr ?_⟩
  · intro halone
    rw [hs] at halone
    cases halone
  · unfold apply
    rw [hs]
    rfl

end Sql

namespace Machine

variable {S C O ε : Type} {M : Machine S C O ε}

/-- What every statement keeps, a run keeps, cut or not. -/
theorem run_keeps {P : C → Prop} {ss : List S} (hss : ∀ s ∈ ss, M.Keeps P s)
    (stop : Option (Stop O)) {c : C} (h : P c) : P (M.run ss stop c).2 := by
  rcases M.run_cases ss stop c with ⟨c', hran, hrun, -⟩ |
    ⟨before, s, after, o, c', rfl, -, hran, hrun⟩ | ⟨before, s, after, c', e, rfl, hran, -, hrun⟩
  · rw [hrun]
    exact hran.keeps hss h
  · rw [hrun]
    exact (hss s (by simp)).2 o c' (hran.keeps (fun t ht => hss t (by simp [ht])) h)
  · rw [hrun]
    exact hran.keeps (fun t ht => hss t (by simp [ht])) h

/-- Statements that do nothing run. -/
theorem ran_of_forall {ss : List S} {c : C} (h : ∀ s ∈ ss, M.execute s c = .ok c) :
    M.Ran ss c c := by
  induction ss with
  | nil => exact ran_nil.mpr rfl
  | cons s ss ih =>
    rw [List.forall_mem_cons] at h
    exact ran_cons.mpr ⟨c, h.1, ih h.2⟩

/-- **A script in two parts**: the run ends in the first, or goes on with the second. -/
theorem run_append (ss ts : List S) (stop : Option (Stop O)) (c : C) :
    (M.run (ss ++ ts) stop c = M.run ss stop c ∧ ∃ e, (M.run ss stop c).1 = .error e) ∨
      ∃ c' stop', M.Ran ss c c' ∧ M.run (ss ++ ts) stop c = M.run ts stop' c' := by
  induction ss generalizing stop c with
  | nil => exact Or.inr ⟨c, stop, ran_nil.mpr rfl, rfl⟩
  | cons s ss ih =>
    by_cases hzero : ∃ o, stop = some ⟨0, o⟩
    · obtain ⟨o, rfl⟩ := hzero
      exact Or.inl ⟨rfl, _, rfl⟩
    · rw [List.cons_append, run_cons fun o h => hzero ⟨o, h⟩, run_cons fun o h => hzero ⟨o, h⟩]
      cases hs : M.execute s c with
      | error e => exact Or.inl ⟨rfl, e, rfl⟩
      | ok d =>
        rcases ih (stop.map fun stop => ⟨stop.position - 1, stop.outcome⟩) d with
          hfirst | ⟨c', stop', hran, hrest⟩
        · exact Or.inl hfirst
        · exact Or.inr ⟨c', stop', ran_cons.mpr ⟨d, hs, hran⟩, hrest⟩

/-- **One machine follows another**: where every statement of a script does to the images
of states what its counterpart does, so does the script, cut or not. -/
theorem run_of_forall₂ {T D P : Type} {N : Machine T D P ε} {R : S → T → Prop} {I : C → Prop}
    {g : C → D} {o : O → P}
    (hexecute : ∀ s t, R s t → ∀ c, I c → N.execute t (g c) = (M.execute s c).map g ∧
      ∀ c', M.execute s c = .ok c' → I c')
    (hcut : ∀ s t, R s t → ∀ x c, I c → N.cut (o x) t (g c) = g (M.cut x s c))
    (hinterrupted : N.interrupted = M.interrupted) {ss : List S} {ts : List T}
    (hss : List.Forall₂ R ss ts) (stop : Option (Stop O)) {c : C} (hc : I c) :
    N.run ts (stop.map fun stop => ⟨stop.position, o stop.outcome⟩) (g c) =
      ((M.run ss stop c).1, g (M.run ss stop c).2) := by
  induction hss generalizing stop c with
  | nil => rfl
  | @cons s t ss ts hs _ ih =>
    by_cases hzero : ∃ x, stop = some ⟨0, x⟩
    · obtain ⟨x, rfl⟩ := hzero
      show (Except.error N.interrupted, N.cut (o x) t (g c)) = _
      rw [hcut s t hs x c hc, hinterrupted]
      rfl
    · have hzero' : ∀ y, stop.map (fun stop => (⟨stop.position, o stop.outcome⟩ : Stop P)) ≠
          some ⟨0, y⟩ := by
        intro y hy
        obtain ⟨⟨k, x⟩, rfl, hk⟩ := Option.map_eq_some_iff.mp hy
        obtain rfl : k = 0 := congrArg Stop.position hk
        exact hzero ⟨x, rfl⟩
      obtain ⟨hsame, hnext⟩ := hexecute s t hs c hc
      rw [run_cons hzero', run_cons fun x h => hzero ⟨x, h⟩, hsame]
      cases hexec : M.execute s c with
      | error e => rfl
      | ok c' =>
        have hrest := ih (stop.map fun stop => ⟨stop.position - 1, stop.outcome⟩) (hnext c' hexec)
        rw [Option.map_map] at hrest ⊢
        exact hrest

end Machine

namespace Sql

variable {S σ ε : Type} {D : Sql S σ ε}

/-- **A run within one transaction leaves nothing**, cut or not. -/
theorem durable_of_run {ss : List S} (hss : ∀ s ∈ ss, D.control s = .change)
    (stop : Option (Stop Outcome)) {c : Txn σ} (hauto : c.autocommit = false) :
    (D.machine.run ss stop c).2.autocommit = false ∧
      (D.machine.run ss stop c).2.durable = c.durable :=
  Machine.run_keeps (P := fun d : Txn σ => d.autocommit = false ∧ d.durable = c.durable)
    (fun s hs => keeps_durable (hss s hs) _) stop ⟨hauto, rfl⟩

/-- **Statements that each set one slot** run, from a state where every one of them can:
each slot is set, the others stay, and so does what every statement keeps. -/
theorem ran_map {α κ τ : Type} (as : List α) (f : α → S) (key : α → κ) (slot : κ → σ → τ)
    (new : α → τ) (ready : α → τ → Prop) (P : σ → Prop) {c : Txn σ} (hsettled : c.Settled)
    (hcontrol : ∀ a, D.control (f a) = .change ∨ D.control (f a) = .alone ∧ c.autocommit = true)
    (hstep : ∀ a ∈ as, ∀ x, P x → ready a (slot (key a) x) → D.failure (f a) x = none ∧
      P (D.effect (f a) x) ∧ slot (key a) (D.effect (f a) x) = new a ∧
        ∀ k ≠ key a, slot k (D.effect (f a) x) = slot k x)
    (hnodup : (as.map key).Nodup) (hready : ∀ a ∈ as, ready a (slot (key a) c.working))
    (hP : P c.working) :
    ∃ w, D.machine.Ran (as.map f) c (c.to w) ∧ P w ∧ (∀ a ∈ as, slot (key a) w = new a) ∧
      ∀ k ∉ as.map key, slot k w = slot k c.working := by
  induction as generalizing c with
  | nil =>
    refine ⟨c.working, Machine.ran_nil.mpr ?_, hP, by simp, fun _ _ => rfl⟩
    obtain ⟨durable, working, autocommit⟩ := c
    cases autocommit with
    | false => rfl
    | true =>
      have hdurable : durable = working := hsettled rfl
      rw [hdurable]
      rfl
  | cons a as ih =>
    rw [List.map_cons, List.nodup_cons] at hnodup
    rw [List.forall_mem_cons] at hready hstep
    obtain ⟨hfailure, hP', hslot, hother⟩ := hstep.1 c.working hP hready.1
    have hexecute : D.machine.execute (f a) c = .ok (c.to (D.effect (f a) c.working)) := by
      refine execute_eq_ok_iff.mpr ⟨?_, hfailure, ?_⟩
      · intro halone
        rcases hcontrol a with hchange | hauto
        · rw [hchange] at halone
          cases halone
        · exact hauto.2
      · unfold apply
        rcases hcontrol a with hchange | ⟨halone, -⟩
        · rw [hchange]
          rfl
        · rw [halone]
          rfl
    obtain ⟨w, hran, hPw, hset, hframe⟩ := ih (c := c.to (D.effect (f a) c.working))
      (c.settled_to _) hcontrol hstep.2 hnodup.2 (by
        intro b hb
        have hne : key b ≠ key a := by
          intro heq
          exact hnodup.1 (heq ▸ List.mem_map_of_mem hb)
        show ready b (slot (key b) (D.effect (f a) c.working))
        rw [hother _ hne]
        exact hready.2 b hb) hP'
    refine ⟨w, Machine.ran_cons.mpr ⟨_, hexecute, ?_⟩, hPw, ?_, ?_⟩
    · rwa [Txn.to_to] at hran
    · rw [List.forall_mem_cons]
      refine ⟨?_, hset⟩
      rw [hframe _ hnodup.1]
      exact hslot
    · intro k hk
      rw [List.map_cons, List.mem_cons, not_or] at hk
      rw [hframe k hk.2]
      exact hother k hk.1

/-- A commit makes all durable, or nothing where it is cut. -/
theorem run_commit {s : S} (hs : D.control s = .commit) (hfailure : ∀ x, D.failure s x = none)
    (stop : Option (Stop Outcome)) (c : Txn σ) :
    (D.machine.run [s] stop c).2.durable = c.durable ∨
      (D.machine.run [s] stop c).2.durable = c.working := by
  have hexecute : D.execute s c = .ok { c with durable := c.working } := by
    refine execute_eq_ok_iff.mpr ⟨?_, hfailure _, ?_⟩
    · intro halone
      rw [hs] at halone
      cases halone
    · simp [apply, hs]
  by_cases hzero : ∃ o, stop = some ⟨0, o⟩
  · obtain ⟨o, rfl⟩ := hzero
    show (D.cut o s c).durable = c.durable ∨ (D.cut o s c).durable = c.working
    rcases cut_cases D o s c with hcut | ⟨-, hc⟩ | ⟨halone, -, -⟩
    · exact Or.inl (by rw [hcut])
    · rw [hexecute] at hc
      right
      rw [← Except.ok.inj hc]
    · rw [hs] at halone
      cases halone
  · rw [Machine.run_cons fun o h => hzero ⟨o, h⟩]
    have hmachine : D.machine.execute s c = .ok { c with durable := c.working } := hexecute
    rw [hmachine]
    exact Or.inr rfl

/-- **A script in one transaction** leaves nothing, or all that its statements do. -/
theorem run_transaction {ss : List S} {s : S} (hss : ∀ s ∈ ss, D.control s = .change)
    (hs : D.control s = .commit) (hfailure : ∀ x, D.failure s x = none)
    (stop : Option (Stop Outcome)) {c : Txn σ} (hauto : c.autocommit = false) {w : σ}
    (hran : D.machine.Ran ss c (c.to w)) :
    (D.machine.run (ss ++ [s]) stop c).2.durable = c.durable ∨
      (D.machine.run (ss ++ [s]) stop c).2.durable = w := by
  rcases Machine.run_append (M := D.machine) ss [s] stop c with
    ⟨hrun, -⟩ | ⟨c', stop', hran', hrun⟩
  · rw [hrun]
    exact Or.inl (durable_of_run hss stop hauto).2
  · obtain rfl := hran.unique hran'
    rw [hrun]
    have hcommit := run_commit hs hfailure stop' (c.to w)
    rwa [Txn.durable_to hauto, Txn.working_to] at hcommit

end Sql

end Script
