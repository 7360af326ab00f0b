import SnapSearch.Revisions

/-!
# The second revision within the history

`Migration` models the second revision alone, `Revisions` the whole history with the
tables.  Between the two upper revisions they tell the same.

## Main definitions

* `Schema.catalog` — what `Migration` sees of a database.
* `Counterpart` — the statements of the second revision in both models.

## Main results

* `catalog_attempt` — an attempt in one model is an attempt in the other.
* `catalog_run` — **so is every history that stays off `base`.**
-/

namespace SnapSearch
namespace Revisions

open Script
open Migration (trigramIndexes)

variable {ρ : Type}

/-! ### What the other model sees -/

/-- The text that is stamped. -/
def Revision.id : Revision → Option String
  | base => none
  | coreTables => some Migration.downRevision
  | trigramIndexes => some Migration.revision

/-- The indexes, the extension and the stamp. -/
def Schema.catalog (db : Schema ρ) : Migration.Catalog where
  indexes := fun name => (db.indexes name).map Index.state
  pgTrgm := db.pgTrgm
  revision := db.revision.id.getD ""

/-- A connection, as the other model sees it. -/
def connection (c : Txn (Schema ρ)) : Migration.Connection :=
  ⟨c.durable.catalog, c.working.catalog, c.autocommit⟩

/-- What is left of a statement, in the words of the other model. -/
def outcome : Outcome → Migration.Outcome
  | .undone => .undone
  | .done => .done
  | .half => .leftInvalid

/-- The attempt that an event is in the other model, if it is one that stays off `base`. -/
def Event.attempt : Event ρ → Option Migration.Attempt
  | migrate ⟨.trigramIndexes, stop⟩ =>
      some ⟨.upgrade, stop.map fun stop => ⟨stop.position, outcome stop.outcome⟩⟩
  | migrate ⟨.coreTables, stop⟩ =>
      some ⟨.downgrade, stop.map fun stop => ⟨stop.position, outcome stop.outcome⟩⟩
  | _ => none

theorem catalog_setIndex (db : Schema ρ) (name : String) (index : Option Index) :
    (db.setIndex name index).catalog = db.catalog.setIndex name (index.map Index.state) := by
  have hindexes : (fun k => ((db.setIndex name index).indexes k).map Index.state) =
      Function.update (fun k => (db.indexes k).map Index.state) name (index.map Index.state) := by
    funext k
    by_cases hk : k = name
    · subst hk
      rw [Schema.indexes_setIndex_self, Function.update_self]
    · rw [Schema.indexes_setIndex_of_ne hk, Function.update_of_ne hk]
  exact congrArg (Migration.Catalog.mk · db.pgTrgm (db.revision.id.getD "")) hindexes

theorem connection_change {c : Txn (Schema ρ)} {f : Schema ρ → Schema ρ}
    {f' : Migration.Catalog → Migration.Catalog}
    (h : (f c.working).catalog = f' c.working.catalog) :
    connection (c.change f) = (connection c).change f' := by
  unfold connection Txn.change Migration.Connection.change
  cases c.autocommit <;> simp [h]

/-! ### Statements -/

/-- The statements of the second revision, each with its counterpart. -/
inductive Counterpart : Statement ρ → Migration.Statement → Prop
  | createExtension : Counterpart .createExtension .createExtension
  | beginAutocommit : Counterpart .beginAutocommit .beginAutocommit
  | endAutocommit : Counterpart .endAutocommit .endAutocommit
  | createIndex (i : Migration.TrigramIndex) (h : i.table ∈ coreTables) :
      Counterpart (.createIndexConcurrently i.name i.table) (.createIndex i)
  | dropIndex (i : Migration.TrigramIndex) :
      Counterpart (.dropIndexConcurrently i.name) (.dropIndex i)
  | analyze (table : String) (h : table ∈ coreTables) :
      Counterpart (.analyze table) (.analyze table)
  | stamp (revision : Revision) :
      Counterpart (.stamp revision) (.stampRevision (revision.id.getD ""))
  | commit : Counterpart .commit .commit

/-- The tables are there, and nothing is pending in an autocommit block. -/
structure Usable (c : Txn (Schema ρ)) : Prop where
  isSome_tables : ∀ table ∈ coreTables, (c.working.tables table).isSome
  settled : c.Settled

namespace Counterpart

variable {s : Statement ρ} {t : Migration.Statement} {c c' : Txn (Schema ρ)}

/-- A statement fails as its counterpart does. -/
theorem failure (h : Counterpart s t) (hc : Usable c) :
    t.failure (connection c) =
      if (sql ρ).control s = .alone ∧ c.autocommit = false then some (.other "InternalError")
      else (sql ρ).failure s c.working := by
  have hnone : ∀ table ∈ coreTables, (c.working.tables table).isNone = false := by
    intro table htable
    rw [Option.isNone_eq_false_iff]
    exact hc.isSome_tables table htable
  cases h with
  | createIndex i hi =>
    simp only [Migration.Statement.failure, sql, Statement.control, Statement.failure, connection,
      Schema.catalog, hnone _ hi, Option.isSome_map, Bool.not_eq_true, true_and, Bool.false_eq_true,
      false_or]
    grind
  | dropIndex i =>
    simp only [Migration.Statement.failure, sql, Statement.control, Statement.failure, connection,
      Schema.catalog, Option.isNone_map, Bool.not_eq_true, true_and]
  | analyze table htable =>
    simp [Migration.Statement.failure, sql, Statement.control, Statement.failure,
      hnone _ htable]
  | _ => rfl

/-- A statement does what its counterpart does. -/
theorem apply (h : Counterpart s t) (hc : Usable c) :
    t.apply (connection c) = connection ((sql ρ).apply s c) := by
  cases h with
  | createExtension => exact (connection_change rfl).symm
  | createIndex i hi => exact (connection_change (catalog_setIndex c.working _ _)).symm
  | dropIndex i => exact (connection_change (catalog_setIndex c.working _ _)).symm
  | stamp revision => exact (connection_change rfl).symm
  | analyze table htable =>
    -- what the transaction sees is durable already where it is to be
    have hsame : c.change id = c := by
      obtain ⟨durable, working, autocommit⟩ := c
      cases autocommit with
      | false => rfl
      | true => rw [Txn.change, if_pos rfl, id_eq, show durable = working from hc.settled rfl]
    exact congrArg connection hsame.symm
  | _ => rfl

/-- A statement leaves the tables. -/
theorem usable (h : Counterpart s t) (hc : Usable c) : Usable ((sql ρ).apply s c) := by
  refine ⟨?_, Sql.settled_apply _ s c⟩
  cases h <;> exact hc.isSome_tables

/-- A statement executes as its counterpart does. -/
theorem execute (h : Counterpart s t) (hc : Usable c) :
    t.execute (connection c) = ((sql ρ).execute s c).map connection ∧
      ∀ c', (sql ρ).execute s c = .ok c' → Usable c' := by
  refine ⟨?_, ?_⟩
  · unfold Migration.Statement.execute Sql.execute
    rw [h.failure hc]
    by_cases halone : (sql ρ).control s = .alone ∧ c.autocommit = false
    · rw [if_pos halone, if_pos halone]
      rfl
    · rw [if_neg halone, if_neg halone]
      cases (sql ρ).failure s c.working with
      | none => exact congrArg Except.ok (h.apply hc)
      | some e => rfl
  · intro c' hc'
    obtain ⟨-, -, rfl⟩ := Sql.execute_eq_ok_iff.mp hc'
    exact h.usable hc

/-- What is left of a statement is what is left of its counterpart. -/
theorem cut (h : Counterpart s t) (hc : Usable c) (o : Outcome) :
    t.cut (outcome o) (connection c) = connection ((sql ρ).cut o s c) := by
  have hexecute := (h.execute hc).1
  cases hs : (sql ρ).execute s c with
  | error e =>
    rw [hs] at hexecute
    rw [Migration.Statement.cut_of_error hexecute]
    cases o <;> simp [Sql.cut, hs]
  | ok d =>
    rw [hs] at hexecute
    cases o with
    | undone => rfl
    | done =>
      rw [show outcome .done = .done from rfl, Migration.Statement.cut_done hexecute]
      simp [Sql.cut, hs]
    | half =>
      -- only an index that is built or dropped leaves something else behind
      simp only [Migration.Statement.cut, Sql.cut, outcome, hexecute, hs, Except.map]
      cases h with
      | createIndex i hi => exact (connection_change (catalog_setIndex c.working _ _)).symm
      | dropIndex i =>
        have hsome : c.working.indexes i.name ≠ none := by
          intro hnone
          have hfailure := (Sql.execute_eq_ok_iff.mp hs).2.1
          rw [show (sql ρ).failure (.dropIndexConcurrently i.name) c.working =
            some (.other "ProgrammingError") from if_pos (by rw [hnone]; rfl)] at hfailure
          cases hfailure
        obtain ⟨index, hindex⟩ := Option.ne_none_iff_exists'.mp hsome
        refine (connection_change ?_).symm
        refine (catalog_setIndex c.working _ _).trans ?_
        rw [hindex]
        rfl
      | _ => rfl

end Counterpart

/-! ### Attempts -/

/-- The second revision runs the same statements in both models. -/
theorem counterpart_upgrade (seed : String → List ρ) :
    List.Forall₂ Counterpart (script seed .coreTables .trigramIndexes)
      (Migration.Direction.upgrade.script trigramIndexes) := by
  have hmem : ∀ i ∈ trigramIndexes, i.table ∈ coreTables := by decide
  have hcreate : List.Forall₂ (Counterpart (ρ := ρ))
      (trigramIndexes.map fun i => .createIndexConcurrently i.name i.table)
      (trigramIndexes.map .createIndex) := by
    rw [List.forall₂_map_left_iff, List.forall₂_map_right_iff, List.forall₂_same]
    intro i hi
    exact .createIndex i (hmem i hi)
  have hanalyze : List.Forall₂ (Counterpart (ρ := ρ)) (trigramIndexes.map fun i => .analyze i.table)
      (trigramIndexes.map fun i => .analyze i.table) := by
    rw [List.forall₂_map_left_iff, List.forall₂_map_right_iff, List.forall₂_same]
    intro i hi
    exact .analyze _ (hmem i hi)
  have hend : List.Forall₂ (Counterpart (ρ := ρ)) [.stamp .trigramIndexes, .commit]
      [.stampRevision Migration.revision, .commit] :=
    .cons (.stamp .trigramIndexes) (.cons .commit .nil)
  have h := List.Forall₂.cons Counterpart.createExtension (.cons .beginAutocommit
    (List.rel_append hcreate (.cons .endAutocommit (List.rel_append hanalyze hend))))
  simpa [script, steps, upgradeTo, Migration.Direction.script, Migration.Direction.target,
    Migration.upgrade, Migration.autocommitBlock] using h

theorem counterpart_downgrade (seed : String → List ρ) :
    List.Forall₂ Counterpart (script seed .trigramIndexes .coreTables)
      (Migration.Direction.downgrade.script trigramIndexes) := by
  have hdrop : List.Forall₂ (Counterpart (ρ := ρ))
      (trigramIndexes.map fun i => .dropIndexConcurrently i.name)
      (trigramIndexes.map .dropIndex) := by
    rw [List.forall₂_map_left_iff, List.forall₂_map_right_iff, List.forall₂_same]
    intro i _
    exact .dropIndex i
  have hend : List.Forall₂ (Counterpart (ρ := ρ)) [.endAutocommit, .stamp .coreTables, .commit]
      [.endAutocommit, .stampRevision Migration.downRevision, .commit] :=
    .cons .endAutocommit (.cons (.stamp .coreTables) (.cons .commit .nil))
  have h := List.Forall₂.cons Counterpart.beginAutocommit (List.rel_append hdrop hend)
  simpa [script, steps, downgradeFrom, Migration.Direction.script, Migration.Direction.target,
    Migration.downgrade, Migration.autocommitBlock] using h

section Attempts

variable {seed : String → List ρ} {db : Schema ρ}

/-- A script leaves in one model what its counterpart leaves in the other. -/
theorem catalog_run_script (hdb : Sound db) (hrevision : db.revision ≠ .base)
    {ss : List (Statement ρ)} {ts : List Migration.Statement} (h : List.Forall₂ Counterpart ss ts)
    (stop : Option (Stop Outcome)) :
    (Migration.machine.run ts (stop.map fun stop => ⟨stop.position, outcome stop.outcome⟩)
        ⟨db.catalog, db.catalog, false⟩).2.durable =
      ((sql ρ).machine.run ss stop ⟨db, db, false⟩).2.durable.catalog := by
  have husable : Usable (⟨db, db, false⟩ : Txn (Schema ρ)) := by
    refine ⟨?_, fun _ => rfl⟩
    intro t ht
    exact (hdb.isSome_tables t).mpr ⟨hrevision, ht⟩
  have hrun := Machine.run_of_forall₂ (M := (sql ρ).machine) (N := Migration.machine)
    (R := Counterpart) (I := Usable) (g := connection) (o := outcome)
    (fun s t hst c hc => hst.execute hc) (fun s t hst x c hc => hst.cut hc x) rfl h stop husable
  exact congrArg (fun r => r.2.durable) hrun

/-- At the revision it starts from, an attempt of the other model runs its script. -/
theorem migration_attempt_of_source {a : Migration.Attempt} {x : Migration.Catalog}
    (h : x.revision = a.direction.source) :
    (Migration.attempt trigramIndexes a x).2 =
      (Migration.machine.run (a.direction.script trigramIndexes) a.stop
        ⟨x, x, false⟩).2.durable := by
  unfold Migration.attempt
  rw [if_pos h]

variable (seed) in
/-- **An attempt in one model is an attempt in the other.** -/
theorem catalog_attempt (hdb : Sound db) (hrevision : db.revision ≠ .base) (target : Revision)
    (stop : Option (Stop Outcome)) {a : Migration.Attempt}
    (ha : Event.attempt (ρ := ρ) (.migrate ⟨target, stop⟩) = some a) :
    (attempt seed ⟨target, stop⟩ db).2.catalog =
      (Migration.attempt trigramIndexes a db.catalog).2 := by
  cases hcurrent : db.revision with
  | base => exact absurd hcurrent hrevision
  | coreTables =>
    have hcatalog : db.catalog.revision = Migration.downRevision := by
      simp [Schema.catalog, hcurrent, Revision.id]
    cases target with
    | base => cases ha
    | coreTables =>
      -- there is nothing to do
      cases ha
      rw [attempt_of_eq (by rw [hcurrent]; rfl), Migration.attempt_of_revision_ne]
      rw [hcatalog]
      exact show Migration.downRevision ≠ Migration.revision by decide
    | trigramIndexes =>
      cases ha
      rw [migration_attempt_of_source hcatalog, attempt_snd, hcurrent]
      exact (catalog_run_script hdb hrevision (counterpart_upgrade seed) stop).symm
  | trigramIndexes =>
    have hcatalog : db.catalog.revision = Migration.revision := by
      simp [Schema.catalog, hcurrent, Revision.id]
    cases target with
    | base => cases ha
    | coreTables =>
      cases ha
      rw [migration_attempt_of_source hcatalog, attempt_snd, hcurrent]
      exact (catalog_run_script hdb hrevision (counterpart_downgrade seed) stop).symm
    | trigramIndexes =>
      cases ha
      rw [attempt_of_eq (by rw [hcurrent]; rfl), Migration.attempt_of_revision_ne]
      rw [hcatalog]
      exact show Migration.revision ≠ Migration.downRevision by decide

/-- An event that stays off `base`. -/
def Event.StaysOff : Event ρ → Prop
  | migrate a => a.target ≠ .base
  | write _ _ => True

/-- Events that stay off `base` do not come to it. -/
theorem revision_ne_base (hdb : Sound db) (hrevision : db.revision ≠ .base) {e : Event ρ}
    (he : e.StaysOff) : (e.apply seed db).revision ≠ .base := by
  cases e with
  | write table row => exact hrevision
  | migrate a =>
    have hheld := hdb.held seed hrevision
    have hrun := fun ss hss => run_second seed (P := Held (tablesFrom seed db)) (fun _ h => h)
      ss hss a.stop (c := ⟨db, db, false⟩) hheld hheld
    show (Revisions.attempt seed a db).2.revision ≠ .base
    rw [attempt_snd, script]
    have htarget : a.target ≠ .base := he
    cases hcurrent : db.revision with
    | base => exact absurd hcurrent hrevision
    | coreTables =>
      cases h : a.target with
      | base => exact absurd h htarget
      | coreTables => exact (hrun [] (by simp)).revision_ne
      | trigramIndexes => exact (hrun _ fun s hs => Or.inl hs).revision_ne
    | trigramIndexes =>
      cases h : a.target with
      | base => exact absurd h htarget
      | coreTables => exact (hrun _ fun s hs => Or.inr hs).revision_ne
      | trigramIndexes => exact (hrun [] (by simp)).revision_ne

/-- **The model of the second revision is the history, seen without its tables**: every
history that stays off `base` leaves the indexes, the extension and the stamp that its
attempts leave in the other model, each interrupted where it was; the rows written make no
difference. -/
theorem catalog_run (hdb : Sound db) (hrevision : db.revision ≠ .base) {events : List (Event ρ)}
    (hevents : ∀ e ∈ events, e.StaysOff) :
    (run seed events db).catalog =
      Migration.attempts trigramIndexes (events.filterMap Event.attempt) db.catalog := by
  induction events generalizing db with
  | nil => rfl
  | cons e events ih =>
    rw [List.forall_mem_cons] at hevents
    have hrest := ih (hdb.apply seed e) (revision_ne_base hdb hrevision hevents.1) hevents.2
    refine hrest.trans ?_
    cases e with
    | write table row => rfl
    | migrate a =>
      obtain ⟨target, stop⟩ := a
      cases target with
      | base => exact absurd rfl hevents.1
      | coreTables =>
        show _ = Migration.attempts trigramIndexes _ (Migration.attempt trigramIndexes _ _).2
        rw [← catalog_attempt seed hdb hrevision .coreTables stop rfl]
        rfl
      | trigramIndexes =>
        show _ = Migration.attempts trigramIndexes _ (Migration.attempt trigramIndexes _ _).2
        rw [← catalog_attempt seed hdb hrevision .trigramIndexes stop rfl]
        rfl

theorem catalog_run_small :
    let seed : String → List ℕ := fun _ => [1]
    let db := run seed [.migrate ⟨.coreTables, none⟩] .empty
    let events : List (Event ℕ) := [.migrate ⟨.trigramIndexes, some ⟨3, .half⟩⟩,
      .write "search_audit_log" 2, .migrate ⟨.trigramIndexes, none⟩]
    (run seed events db).catalog =
      Migration.attempts trigramIndexes (events.filterMap Event.attempt) db.catalog := by
  intro seed db events
  have hevents : ∀ e ∈ events, e.StaysOff := by
    simp [events, Event.StaysOff]
  exact catalog_run (sound_empty.run _) (by decide +kernel) hevents

end Attempts

end Revisions
end SnapSearch
