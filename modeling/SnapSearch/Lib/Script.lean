import Mathlib.Data.Nat.Notation
import Mathlib.Data.List.Basic

/-!
# Scripts that may be cut short

A script is a list of statements, executed one after another on a state.  It ends
early where a statement fails, and it may be cut at any of them: the statement it is
cut at has then taken its whole effect, none of it, or what else such a statement can
leave behind.

## Main definitions

* `Script.Machine` — what a statement does, and what a cut may leave of it.
* `Script.Machine.run` — the run of a script, cut or not.
* `Script.Machine.Ran` — a script that ran to its end.
* `Script.Machine.Keeps` — a property that a statement keeps, cut or not.

## Main results

* `run_cases` — **a run ends at the end of its script, at its cut or at a statement
  that fails**, after the statements before have run.
* `Ran.of_mem` — what one statement establishes and all keep, holds after the script.
* `run_blocked` — a statement that keeps failing is never passed.
-/

namespace Script

/-- Where a script is cut, and what is left of the statement there. -/
structure Stop (O : Type) where
  position : ℕ
  outcome : O
  deriving DecidableEq

/-- What statements do to a state.  A cut ends the script with an exception of its
own. -/
structure Machine (S C O ε : Type) where
  execute : S → C → Except ε C
  cut : O → S → C → C
  interrupted : ε

namespace Machine

variable {S C O ε : Type} (M : Machine S C O ε)

/-- Run a script, up to where it is cut. -/
def run : List S → Option (Stop O) → C → Except ε Unit × C
  | [], _, c => (.ok (), c)
  | s :: _, some ⟨0, o⟩, c => (.error M.interrupted, M.cut o s c)
  | s :: ss, stop, c =>
      match M.execute s c with
      | .error e => (.error e, c)
      | .ok c' => run ss (stop.map fun stop => ⟨stop.position - 1, stop.outcome⟩) c'

/-- The script has run to its end. -/
def Ran (ss : List S) (c c' : C) : Prop := M.run ss none c = (.ok (), c')

/-- The statement keeps a property, and so does what a cut leaves of it. -/
def Keeps (P : C → Prop) (s : S) : Prop :=
  (∀ c c', P c → M.execute s c = .ok c' → P c') ∧ ∀ o c, P c → P (M.cut o s c)

variable {M}

/-- Where it is not cut at once, a script runs its first statement. -/
theorem run_cons {s : S} {ss : List S} {stop : Option (Stop O)} {c : C}
    (h : ∀ o, stop ≠ some ⟨0, o⟩) :
    M.run (s :: ss) stop c = match M.execute s c with
      | .error e => (.error e, c)
      | .ok c' => M.run ss (stop.map fun stop => ⟨stop.position - 1, stop.outcome⟩) c' := by
  match stop with
  | none => rfl
  | some ⟨0, o⟩ => exact absurd rfl (h o)
  | some ⟨k + 1, o⟩ => rfl

@[simp] theorem ran_nil {c c' : C} : M.Ran [] c c' ↔ c = c' := by
  simp [Ran, run]

theorem ran_cons {s : S} {ss : List S} {c c' : C} :
    M.Ran (s :: ss) c c' ↔ ∃ d, M.execute s c = .ok d ∧ M.Ran ss d c' := by
  cases h : M.execute s c with
  | error e => simp [Ran, run, h]
  | ok d => simp [Ran, run, h]

theorem ran_append {ss ts : List S} {c c' : C} :
    M.Ran (ss ++ ts) c c' ↔ ∃ d, M.Ran ss c d ∧ M.Ran ts d c' := by
  induction ss generalizing c with
  | nil => simp
  | cons s ss ih =>
    simp only [List.cons_append, ran_cons, ih]
    constructor
    · rintro ⟨a, ha, b, hb, hts⟩
      exact ⟨b, ⟨a, ha, hb⟩, hts⟩
    · rintro ⟨b, ⟨a, ha, hb⟩, hts⟩
      exact ⟨a, ha, b, hb, hts⟩

/-- A script runs in one way. -/
theorem Ran.unique {ss : List S} {c d d' : C} (h : M.Ran ss c d) (h' : M.Ran ss c d') : d = d' := by
  unfold Ran at h h'
  rw [h] at h'
  exact (Prod.mk.inj h').2

/-- Where a script ran and the first part of it has run, it goes on with the next
statement. -/
theorem Ran.next {before after : List S} {s : S} {c d d' : C}
    (h : M.Ran (before ++ s :: after) c d) (hbefore : M.Ran before c d') :
    ∃ d'', M.execute s d' = .ok d'' ∧ M.Ran after d'' d := by
  obtain ⟨e, he, hrest⟩ := ran_append.mp h
  obtain rfl := he.unique hbefore
  exact ran_cons.mp hrest

theorem Keeps.and {P Q : C → Prop} {s : S} (hP : M.Keeps P s) (hQ : M.Keeps Q s) :
    M.Keeps (fun c => P c ∧ Q c) s := by
  refine ⟨?_, ?_⟩
  · intro c c' h hs
    exact ⟨hP.1 c c' h.1 hs, hQ.1 c c' h.2 hs⟩
  · intro o c h
    exact ⟨hP.2 o c h.1, hQ.2 o c h.2⟩

/-- What every statement keeps, a script keeps. -/
theorem Ran.keeps {P : C → Prop} {ss : List S} (hss : ∀ s ∈ ss, M.Keeps P s) {c c' : C}
    (hrun : M.Ran ss c c') (h : P c) : P c' := by
  induction ss generalizing c with
  | nil => exact ran_nil.mp hrun ▸ h
  | cons s ss ih =>
    rw [List.forall_mem_cons] at hss
    obtain ⟨d, hd, hrest⟩ := ran_cons.mp hrun
    exact ih hss.2 hrest (hss.1.1 c d h hd)

/-- **What one statement establishes and all keep**, holds after the script. -/
theorem Ran.of_mem {P : C → Prop} {ss : List S} (hss : ∀ s ∈ ss, M.Keeps P s) {s : S} (hs : s ∈ ss)
    (hestablishes : ∀ c c', M.execute s c = .ok c' → P c') {c c' : C} (hrun : M.Ran ss c c') :
    P c' := by
  obtain ⟨before, after, rfl⟩ := List.append_of_mem hs
  obtain ⟨d, -, hrun⟩ := ran_append.mp hrun
  obtain ⟨d', hd', hrest⟩ := ran_cons.mp hrun
  refine hrest.keeps ?_ (hestablishes d d' hd')
  intro t ht
  exact hss t (by simp [ht])

/-- **How a run may end**: at the end of the script, at the statement where it is cut,
or at one that fails. -/
theorem run_cases (ss : List S) (stop : Option (Stop O)) (c : C) :
    (∃ c', M.Ran ss c c' ∧ M.run ss stop c = (.ok (), c') ∧
      ∀ k o, stop = some ⟨k, o⟩ → ss.length ≤ k) ∨
    (∃ before s after o c', ss = before ++ s :: after ∧ stop = some ⟨before.length, o⟩ ∧
      M.Ran before c c' ∧ M.run ss stop c = (.error M.interrupted, M.cut o s c')) ∨
    ∃ before s after c' e, ss = before ++ s :: after ∧ M.Ran before c c' ∧
      M.execute s c' = .error e ∧ M.run ss stop c = (.error e, c') := by
  induction ss generalizing stop c with
  | nil => exact Or.inl ⟨c, ran_nil.mpr rfl, rfl, fun _ _ _ => Nat.zero_le _⟩
  | cons s ss ih =>
    by_cases hzero : ∃ o, stop = some ⟨0, o⟩
    · obtain ⟨o, rfl⟩ := hzero
      exact Or.inr (Or.inl ⟨[], s, ss, o, c, rfl, rfl, ran_nil.mpr rfl, rfl⟩)
    · rw [run_cons fun o h => hzero ⟨o, h⟩]
      cases hs : M.execute s c with
      | error e => exact Or.inr (Or.inr ⟨[], s, ss, c, e, rfl, ran_nil.mpr rfl, hs, rfl⟩)
      | ok d =>
        -- the rest is cut one statement earlier
        rcases ih (stop.map fun stop => ⟨stop.position - 1, stop.outcome⟩) d with
          ⟨c', hran, hrest, hlate⟩ | ⟨before, t, after, o, c', rfl, hstop, hran, hrest⟩ |
          ⟨before, t, after, c', e, rfl, hran, hfail, hrest⟩
        · refine Or.inl ⟨c', ran_cons.mpr ⟨d, hs, hran⟩, hrest, ?_⟩
          rintro k o rfl
          have hk : k ≠ 0 := by
            rintro rfl
            exact hzero ⟨o, rfl⟩
          have := hlate (k - 1) o rfl
          rw [List.length_cons]
          omega
        · refine Or.inr (Or.inl ⟨s :: before, t, after, o, c', rfl, ?_,
            ran_cons.mpr ⟨d, hs, hran⟩, hrest⟩)
          cases stop with
          | none => cases hstop
          | some stop =>
            obtain ⟨k, o'⟩ := stop
            simp only [Option.map_some, Option.some.injEq, Stop.mk.injEq] at hstop
            have hk : k ≠ 0 := by
              rintro rfl
              exact hzero ⟨o', rfl⟩
            rw [List.length_cons, ← hstop.1, ← hstop.2, Nat.sub_add_cancel (by omega)]
        · exact Or.inr (Or.inr ⟨s :: before, t, after, c', e, rfl, ran_cons.mpr ⟨d, hs, hran⟩,
            hfail, hrest⟩)

/-- **A statement that keeps failing is never passed**: no run of the script ends well,
and what the statements before it keep holds at its end. -/
theorem run_blocked {P : C → Prop} {before after : List S} {s : S}
    (hbefore : ∀ t ∈ before, M.Keeps P t) (hfail : ∀ c, P c → ∃ e, M.execute s c = .error e)
    (hcut : ∀ o c, P c → P (M.cut o s c)) (stop : Option (Stop O)) {c : C} (h : P c) :
    (∃ e, (M.run (before ++ s :: after) stop c).1 = .error e) ∧
      P (M.run (before ++ s :: after) stop c).2 := by
  induction before generalizing stop c with
  | nil =>
    obtain ⟨e, he⟩ := hfail c h
    by_cases hzero : ∃ o, stop = some ⟨0, o⟩
    · obtain ⟨o, rfl⟩ := hzero
      exact ⟨⟨_, rfl⟩, hcut o c h⟩
    · rw [List.nil_append, run_cons fun o h => hzero ⟨o, h⟩, he]
      exact ⟨⟨e, rfl⟩, h⟩
  | cons t before ih =>
    rw [List.forall_mem_cons] at hbefore
    by_cases hzero : ∃ o, stop = some ⟨0, o⟩
    · obtain ⟨o, rfl⟩ := hzero
      exact ⟨⟨_, rfl⟩, hbefore.1.2 o c h⟩
    · rw [List.cons_append, run_cons fun o h => hzero ⟨o, h⟩]
      cases ht : M.execute t c with
      | error e => exact ⟨⟨e, rfl⟩, h⟩
      | ok d => exact ih hbefore.2 _ (hbefore.1.1 c d h ht)

end Machine

end Script
