import SnapSearch.Lib.Transaction
import SnapSearch.Migration

/-!
# The migration history

Both revisions under `alembic/versions/`, and how `alembic/env.py` runs them: one
transaction for all the steps to the target, every step followed by its stamp.  The
autocommit block of the second revision commits what was done before it.

An attempt may be interrupted at any statement.  Between attempts rows are written to
the tables that are there.  A row is opaque, and so is the seed.

## Main definitions

* `Statement`, `sql` — the statements of both revisions.
* `script`, `attempt` — one attempt to bring the database to a revision.
* `Event`, `run` — attempts and rows written, one after another.
* `HalfUpgraded`, `HalfDowngraded` — an index of the second revision is there, or
  missing, against the stamp.

## Main results

* `tables_of_run` — **no interrupted attempt loses a row**: the tables are there just
  where the revision says so, with the seed once and all that was written since.
* `repair_iff` — **which states can be brought to the last revision**, and that the way
  out of a half-done upgrade loses every row.
-/

namespace SnapSearch
namespace Revisions

open Script

/-! ### The database -/

/-- The revisions of the history; at `base` none is stamped. -/
inductive Revision
  | base
  | coreTables
  | trigramIndexes
  deriving DecidableEq

/-- An index is on a table. -/
structure Index where
  table : String
  state : Migration.IndexState

/-- What the migrations find in a database: tables with their rows, indexes by name,
the extension, and the stamped revision. -/
structure Schema (ρ : Type) where
  tables : String → Option (List ρ)
  indexes : String → Option Index
  pgTrgm : Bool
  revision : Revision

/-- A database that no migration has been run on. -/
def Schema.empty {ρ : Type} : Schema ρ where
  tables := fun _ => none
  indexes := fun _ => none
  pgTrgm := false
  revision := .base

variable {ρ : Type}

def Schema.setTable (db : Schema ρ) (table : String) (rows : Option (List ρ)) : Schema ρ :=
  { db with tables := Function.update db.tables table rows }

def Schema.setIndex (db : Schema ρ) (name : String) (index : Option Index) : Schema ρ :=
  { db with indexes := Function.update db.indexes name index }

/-- Every index is on one of the tables. -/
def Schema.IndexesOn (db : Schema ρ) (tables : List String) : Prop :=
  ∀ name, ∀ index ∈ db.indexes name, index.table ∈ tables

/-- No index is on the table. -/
def Schema.NoIndexOn (db : Schema ρ) (table : String) : Prop :=
  ∀ name, ∀ index ∈ db.indexes name, index.table ≠ table

namespace Schema

variable {db : Schema ρ} {table name : String} {rows : Option (List ρ)} {index : Option Index}

@[simp] theorem tables_setTable_self : (db.setTable table rows).tables table = rows :=
  Function.update_self _ _ _

theorem tables_setTable_of_ne {k : String} (h : k ≠ table) :
    (db.setTable table rows).tables k = db.tables k := Function.update_of_ne h _ _

@[simp] theorem indexes_setIndex_self : (db.setIndex name index).indexes name = index :=
  Function.update_self _ _ _

theorem indexes_setIndex_of_ne {k : String} (h : k ≠ name) :
    (db.setIndex name index).indexes k = db.indexes k := Function.update_of_ne h _ _

theorem IndexesOn.setIndex {tables : List String} (h : db.IndexesOn tables)
    (hindex : ∀ i ∈ index, i.table ∈ tables) : (db.setIndex name index).IndexesOn tables := by
  intro k i hi
  by_cases hk : k = name
  · subst hk
    rw [indexes_setIndex_self] at hi
    exact hindex i hi
  · rw [indexes_setIndex_of_ne hk] at hi
    exact h k i hi

end Schema

/-! ### Statements -/

/-- The statements of a run. -/
inductive Statement (ρ : Type)
  | createTable (table : String)
  /-- `DROP TABLE table`: its indexes drop with it. -/
  | dropTable (table : String)
  | createIndex (name table : String)
  /-- `INSERT INTO table`, at once for all the rows. -/
  | bulkInsert (table : String) (rows : List ρ)
  /-- `CREATE EXTENSION IF NOT EXISTS pg_trgm`. -/
  | createExtension
  /-- Enter `autocommit_block()`: the transaction so far is committed. -/
  | beginAutocommit
  /-- Leave `autocommit_block()`: a new transaction begins. -/
  | endAutocommit
  /-- `CREATE INDEX CONCURRENTLY name ON table USING gin`. -/
  | createIndexConcurrently (name table : String)
  | dropIndexConcurrently (name : String)
  | analyze (table : String)
  /-- The row of `alembic_version`. -/
  | stamp (revision : Revision)
  | commit

namespace Statement

def control : Statement ρ → Control
  | createIndexConcurrently _ _ => .alone
  | dropIndexConcurrently _ => .alone
  | beginAutocommit => .beginAutocommit
  | endAutocommit => .endAutocommit
  | commit => .commit
  | _ => .change

/-- Why a statement fails, if it does. -/
def failure : Statement ρ → Schema ρ → Option Exn
  | createTable table, db =>
      if (db.tables table).isSome then some (.other "ProgrammingError") else none
  | dropTable table, db =>
      if (db.tables table).isNone then some (.other "ProgrammingError") else none
  | createIndex name table, db =>
      if (db.tables table).isNone ∨ (db.indexes name).isSome then some (.other "ProgrammingError")
      else none
  | bulkInsert table _, db =>
      if (db.tables table).isNone then some (.other "ProgrammingError") else none
  | createIndexConcurrently name table, db =>
      if db.pgTrgm = false ∨ (db.tables table).isNone ∨ (db.indexes name).isSome then
        some (.other "ProgrammingError")
      else none
  | dropIndexConcurrently name, db =>
      if (db.indexes name).isNone then some (.other "ProgrammingError") else none
  | analyze table, db =>
      if (db.tables table).isNone then some (.other "ProgrammingError") else none
  | _, _ => none

/-- What a statement changes. -/
def effect : Statement ρ → Schema ρ → Schema ρ
  | createTable table, db => db.setTable table (some [])
  | dropTable table, db =>
      { db.setTable table none with
        indexes := fun name => (db.indexes name).filter fun index => index.table ≠ table }
  | createIndex name table, db => db.setIndex name (some ⟨table, .valid⟩)
  | bulkInsert table rows, db => db.setTable table ((db.tables table).map (· ++ rows))
  | createExtension, db => { db with pgTrgm := true }
  | createIndexConcurrently name table, db => db.setIndex name (some ⟨table, .valid⟩)
  | dropIndexConcurrently name, db => db.setIndex name none
  | stamp revision, db => { db with revision }
  | _, db => db

/-- What a cut may leave: the index that was being built, or dropped, invalid. -/
def residue : Statement ρ → Schema ρ → Schema ρ
  | createIndexConcurrently name table, db => db.setIndex name (some ⟨table, .invalid⟩)
  | dropIndexConcurrently name, db =>
      db.setIndex name ((db.indexes name).map fun index => { index with state := .invalid })
  | _, db => db

end Statement

/-- The statements on a database. -/
def sql (ρ : Type) : Sql (Statement ρ) (Schema ρ) Exn where
  control := Statement.control
  failure := Statement.failure
  effect := Statement.effect
  residue := Statement.residue
  notAlone := .other "InternalError"
  interrupted := .operationalError "the attempt was interrupted"

/-! ### The history -/

/-- The tables of the first revision, in the order they are created in. -/
def coreTables : List String :=
  ["analytics_reports", "investigator_entities", "case_manager_cases", "search_audit_log"]

/-- The indexes of the first revision, with their tables. -/
def filterIndexes : List (String × String) :=
  [("ix_investigator_entities_type", "investigator_entities"),
   ("ix_case_manager_cases_assigned_to", "case_manager_cases"),
   ("ix_case_manager_cases_status", "case_manager_cases"),
   ("ix_search_audit_log_user_id_timestamp", "search_audit_log"),
   ("ix_search_audit_log_app_timestamp", "search_audit_log")]

/-- The tables that are seeded. -/
def seededTables : List String :=
  ["analytics_reports", "investigator_entities", "case_manager_cases"]

open Migration (trigramIndexes)

/-- `upgrade()` of a revision, and its stamp. -/
def upgradeTo (seed : String → List ρ) : Revision → List (Statement ρ)
  | .base => []
  | .coreTables =>
      coreTables.map .createTable ++ (filterIndexes.map fun (name, table) =>
        .createIndex name table) ++ (seededTables.map fun table =>
          .bulkInsert table (seed table)) ++ [.stamp .coreTables]
  | .trigramIndexes =>
      .createExtension :: .beginAutocommit ::
        ((trigramIndexes.map fun i => .createIndexConcurrently i.name i.table) ++
          (.endAutocommit :: ((trigramIndexes.map fun i => .analyze i.table) ++
            [.stamp .trigramIndexes])))

/-- `downgrade()` of a revision, and the stamp of the one before. -/
def downgradeFrom : Revision → List (Statement ρ)
  | .base => []
  | .coreTables => coreTables.reverse.map .dropTable ++ [.stamp .base]
  | .trigramIndexes =>
      .beginAutocommit :: ((trigramIndexes.map fun i => .dropIndexConcurrently i.name) ++
        [.endAutocommit, .stamp .coreTables])

/-- The steps from one revision to another. -/
def steps (seed : String → List ρ) : Revision → Revision → List (Statement ρ)
  | .base, .coreTables => upgradeTo seed .coreTables
  | .base, .trigramIndexes => upgradeTo seed .coreTables ++ upgradeTo seed .trigramIndexes
  | .coreTables, .trigramIndexes => upgradeTo seed .trigramIndexes
  | .trigramIndexes, .coreTables => downgradeFrom .trigramIndexes
  | .trigramIndexes, .base => downgradeFrom .trigramIndexes ++ downgradeFrom .coreTables
  | .coreTables, .base => downgradeFrom .coreTables
  | _, _ => []

/-- `run_migrations_online()`: the steps, in a transaction of the connection. -/
def script (seed : String → List ρ) (current target : Revision) : List (Statement ρ) :=
  steps seed current target ++ [.commit]

/-- An attempt to bring the database to a revision, by `alembic upgrade` or
`alembic downgrade`, which may be stopped at a statement. -/
structure Attempt where
  target : Revision
  stop : Option (Stop Outcome)

/-- What an attempt gives and leaves. -/
def attempt (seed : String → List ρ) (a : Attempt) (db : Schema ρ) : Except Exn Unit × Schema ρ :=
  -- what was not committed is rolled back with the connection
  let r := (sql ρ).machine.run (script seed db.revision a.target) a.stop ⟨db, db, false⟩
  (r.1, r.2.durable)

theorem attempt_snd (seed : String → List ρ) (a : Attempt) (db : Schema ρ) :
    (attempt seed a db).2 =
      ((sql ρ).machine.run (script seed db.revision a.target) a.stop ⟨db, db, false⟩).2.durable :=
  rfl

/-- What happens to a database. -/
inductive Event (ρ : Type)
  | migrate (a : Attempt)
  | write (table : String) (row : ρ)

/-- An event: a row is written where its table is. -/
def Event.apply (seed : String → List ρ) : Event ρ → Schema ρ → Schema ρ
  | migrate a, db => (attempt seed a db).2
  | write table row, db => db.setTable table ((db.tables table).map (· ++ [row]))

/-- Events, one after another. -/
def run (seed : String → List ρ) (events : List (Event ρ)) (db : Schema ρ) : Schema ρ :=
  events.foldl (fun db e => e.apply seed db) db

/-- The rows written to a table. -/
def writtenTo (table : String) : List (Event ρ) → List ρ
  | [] => []
  | .migrate _ :: events => writtenTo table events
  | .write table' row :: events =>
      if table' = table then row :: writtenTo table events else writtenTo table events

/-- The rows a table starts with. -/
def seedOf (seed : String → List ρ) (table : String) : List ρ :=
  if table ∈ seededTables then seed table else []

/-! ### What the revisions promise -/

/-- The tables and the indexes are those of the stamped revision, as far as the
transactions tell. -/
structure Sound (db : Schema ρ) : Prop where
  isSome_tables : ∀ table, (db.tables table).isSome ↔ db.revision ≠ .base ∧ table ∈ coreTables
  indexes_none : db.revision = .base → ∀ name, db.indexes name = none
  indexesOn : db.IndexesOn coreTables

/-- The database is at the last revision, and its indexes are as they should be. -/
def Complete (db : Schema ρ) : Prop :=
  db.revision = .trigramIndexes ∧
    ∀ i ∈ trigramIndexes, db.indexes i.name = some ⟨i.table, .valid⟩

/-- An index of the second revision is there before it is stamped. -/
def HalfUpgraded (db : Schema ρ) : Prop :=
  db.revision = .coreTables ∧ ∃ i ∈ trigramIndexes, db.indexes i.name ≠ none

/-- An index of the second revision is missing, though it is stamped. -/
def HalfDowngraded (db : Schema ρ) : Prop :=
  db.revision = .trigramIndexes ∧ ∃ i ∈ trigramIndexes, db.indexes i.name = none

/-! ### The first revision -/

section Runs

variable {seed : String → List ρ} {c : Txn (Schema ρ)} {db : Schema ρ}

/-- The tables after `upgrade()` of the first revision. -/
def created (seed : String → List ρ) (table : String) : Option (List ρ) :=
  if table ∈ coreTables then some (seedOf seed table) else none

theorem ran_createTables (hauto : c.autocommit = false)
    (htables : ∀ table, c.working.tables table = none)
    (hindexes : ∀ name, c.working.indexes name = none) :
    ∃ w, (sql ρ).machine.Ran (coreTables.map .createTable) c (c.to w) ∧
      (∀ name, w.indexes name = none) ∧ (∀ table ∈ coreTables, w.tables table = some []) ∧
      ∀ table ∉ coreTables, w.tables table = none := by
  obtain ⟨w, hran, hw, hset, hother⟩ := Sql.ran_map (D := sql ρ) (c := c) coreTables .createTable
    id (fun t x => x.tables t) (fun _ => some []) (fun _ rows => rows = none)
    (fun x => ∀ name, x.indexes name = none)
    (Txn.settled_of_eq_false hauto) (fun _ => Or.inl rfl)
    (by
      intro t _ x hx ht
      refine ⟨if_neg (by simpa using ht), hx, Schema.tables_setTable_self, ?_⟩
      intro k hk
      exact Schema.tables_setTable_of_ne hk)
    (by decide) (fun t _ => htables t) hindexes
  refine ⟨w, hran, hw, hset, ?_⟩
  intro t ht
  rw [List.map_id] at hother
  exact (hother t ht).trans (htables t)

theorem ran_createIndexes (hauto : c.autocommit = false)
    (htables : ∀ table ∈ coreTables, (c.working.tables table).isSome)
    (hindexes : ∀ name, c.working.indexes name = none) :
    ∃ w, (sql ρ).machine.Ran (filterIndexes.map fun i => .createIndex i.1 i.2) c (c.to w) ∧
      w.tables = c.working.tables ∧ w.IndexesOn coreTables ∧
      ∀ i ∈ trigramIndexes, w.indexes i.name = none := by
  have hmem : ∀ i ∈ filterIndexes, i.2 ∈ coreTables := by decide
  obtain ⟨w, hran, ⟨hw, hon⟩, -, hother⟩ := Sql.ran_map (D := sql ρ) (c := c) filterIndexes
    (fun i => .createIndex i.1 i.2) Prod.fst (fun n x => x.indexes n)
    (fun i => some ⟨i.2, .valid⟩) (fun _ index => index = none)
    (fun x => x.tables = c.working.tables ∧ x.IndexesOn coreTables)
    (Txn.settled_of_eq_false hauto) (fun _ => Or.inl rfl)
    (by
      intro i hi x hx hname
      have hsome : (x.tables i.2).isSome := by
        rw [hx.1]
        exact htables i.2 (hmem i hi)
      refine ⟨if_neg ?_, ⟨hx.1, hx.2.setIndex ?_⟩, Schema.indexes_setIndex_self, ?_⟩
      · rw [hname]
        simpa using Option.isSome_iff_ne_none.mp hsome
      · rintro _ ⟨⟩
        exact hmem i hi
      · intro k hk
        exact Schema.indexes_setIndex_of_ne hk)
    (by decide) (fun i _ => hindexes i.1) ⟨rfl, by simp [Schema.IndexesOn, hindexes]⟩
  refine ⟨w, hran, hw, hon, ?_⟩
  intro i hi
  have hnew : ∀ i ∈ trigramIndexes, i.name ∉ filterIndexes.map Prod.fst := by decide
  exact (hother _ (hnew i hi)).trans (hindexes _)

variable (seed) in
theorem ran_bulkInserts (hauto : c.autocommit = false)
    (htables : ∀ table ∈ coreTables, c.working.tables table = some [])
    (hnone : ∀ table ∉ coreTables, c.working.tables table = none) :
    ∃ w, (sql ρ).machine.Ran (seededTables.map fun table => .bulkInsert table (seed table)) c
        (c.to w) ∧ w.indexes = c.working.indexes ∧ w.tables = created seed := by
  have hmem : ∀ t ∈ seededTables, t ∈ coreTables := by decide
  obtain ⟨w, hran, hw, hset, hother⟩ := Sql.ran_map (D := sql ρ) (c := c) seededTables
    (fun t => .bulkInsert t (seed t)) id (fun t x => x.tables t) (fun t => some (seed t))
    (fun _ rows => rows = some []) (fun x => x.indexes = c.working.indexes)
    (Txn.settled_of_eq_false hauto) (fun _ => Or.inl rfl)
    (by
      intro t _ x hx ht
      have ht : x.tables t = some [] := ht
      refine ⟨if_neg (by simp [ht]), hx, ?_, ?_⟩
      · show (x.setTable t ((x.tables t).map (· ++ seed t))).tables t = some (seed t)
        rw [Schema.tables_setTable_self, ht]
        rfl
      · intro k hk
        exact Schema.tables_setTable_of_ne hk)
    (by decide) (fun t ht => htables t (hmem t ht)) rfl
  refine ⟨w, hran, hw, ?_⟩
  funext t
  rw [List.map_id] at hother
  unfold created seedOf
  by_cases ht : t ∈ seededTables
  · rw [if_pos (hmem t ht), if_pos ht]
    exact hset t ht
  · rw [hother t ht, if_neg ht]
    split
    · next hcore => exact htables t hcore
    · next hcore => exact hnone t hcore

variable (seed) in
/-- **The first revision** is reached from an empty database, in one transaction. -/
theorem ran_upgrade_coreTables (hauto : c.autocommit = false)
    (htables : ∀ table, c.working.tables table = none)
    (hindexes : ∀ name, c.working.indexes name = none) :
    ∃ w, (sql ρ).machine.Ran (upgradeTo seed .coreTables) c (c.to w) ∧
      w.revision = .coreTables ∧ w.tables = created seed ∧ w.IndexesOn coreTables ∧
      ∀ i ∈ trigramIndexes, w.indexes i.name = none := by
  obtain ⟨w₁, hran₁, hindexes₁, hset₁, hother₁⟩ := ran_createTables hauto htables hindexes
  obtain ⟨w₂, hran₂, htables₂, hon₂, htrigram₂⟩ := ran_createIndexes (c := c.to w₁) hauto
    (by
      intro t ht
      rw [Txn.working_to, hset₁ t ht]
      rfl) hindexes₁
  obtain ⟨w₃, hran₃, hindexes₃, htables₃⟩ := ran_bulkInserts seed (c := c.to w₂) hauto
    (by
      intro t ht
      rw [Txn.working_to, htables₂]
      exact hset₁ t ht)
    (by
      intro t ht
      rw [Txn.working_to, htables₂]
      exact hother₁ t ht)
  have hran₄ := Sql.ran_change (D := sql ρ) (s := .stamp .coreTables) (c := c.to w₃) rfl rfl
  simp only [Txn.to_to] at hran₂ hran₃ hran₄
  refine ⟨_, Machine.ran_append.mpr ⟨_, Machine.ran_append.mpr ⟨_,
    Machine.ran_append.mpr ⟨_, hran₁, hran₂⟩, hran₃⟩, hran₄⟩, rfl, htables₃, ?_, ?_⟩
  · show Schema.IndexesOn { w₃ with revision := .coreTables } coreTables
    unfold Schema.IndexesOn at hon₂ ⊢
    rwa [← show w₃.indexes = w₂.indexes from hindexes₃] at hon₂
  · intro i hi
    rw [← htrigram₂ i hi]
    exact congrFun hindexes₃ i.name

/-- **The first revision is undone** in one transaction: nothing is left. -/
theorem ran_downgrade_coreTables (hauto : c.autocommit = false)
    (htables : ∀ table, (c.working.tables table).isSome ↔ table ∈ coreTables)
    (hindexes : c.working.IndexesOn coreTables) :
    ∃ w, (sql ρ).machine.Ran (downgradeFrom .coreTables) c (c.to w) ∧
      w.revision = .base ∧ (∀ table, w.tables table = none) ∧ ∀ name, w.indexes name = none := by
  obtain ⟨w, hran, hon, hset, hother⟩ := Sql.ran_map (D := sql ρ) (c := c)
    coreTables.reverse .dropTable id (fun t x => x.tables t) (fun _ => none)
    (fun _ rows => rows.isSome) (fun x => x.IndexesOn coreTables)
    (Txn.settled_of_eq_false hauto) (fun _ => Or.inl rfl)
    (by
      intro t _ x hx ht
      have hsome : x.tables t ≠ none := Option.isSome_iff_ne_none.mp ht
      refine ⟨if_neg (by simpa using hsome), ?_, Schema.tables_setTable_self, ?_⟩
      · intro name index hindex
        exact hx name index (Option.mem_filter_iff.mp hindex).1
      · intro k hk
        exact Schema.tables_setTable_of_ne hk)
    (by decide) (fun t ht => (htables t).mpr (List.mem_reverse.mp ht)) hindexes
  -- each table took its indexes with it
  have hdropped : ∀ t ∈ coreTables, w.NoIndexOn t := by
    intro t ht
    refine (Machine.Ran.of_mem (P := fun c' : Txn (Schema ρ) => True ∧ c'.working.NoIndexOn t) ?_
      (List.mem_map_of_mem (List.mem_reverse.mpr ht)) ?_ hran).2
    · intro s hs
      obtain ⟨t', -, rfl⟩ := List.mem_map.mp hs
      refine Sql.keeps_pair (P := fun _ => True) (Q := fun x : Schema ρ => x.NoIndexOn t)
        (fun _ _ => trivial) ?_ (fun halone => by cases halone)
      intro x _ hx name index hindex
      exact hx name index (Option.mem_filter_iff.mp hindex).1
    · intro d d' hd
      refine ⟨trivial, ?_⟩
      intro name index hindex
      have hd : (sql ρ).execute (.dropTable t) d = .ok d' := hd
      obtain ⟨-, -, rfl⟩ := Sql.execute_eq_ok_iff.mp hd
      exact of_decide_eq_true (Option.mem_filter_iff.mp hindex).2
  have hindexes' : ∀ name, w.indexes name = none := by
    intro name
    rw [Option.eq_none_iff_forall_not_mem]
    intro index hindex
    exact hdropped _ (hon name index hindex) name index hindex rfl
  have hran' := Sql.ran_change (D := sql ρ) (s := .stamp .base) (c := c.to w) rfl rfl
  rw [Txn.to_to] at hran'
  refine ⟨_, Machine.ran_append.mpr ⟨_, hran, hran'⟩, rfl, ?_, hindexes'⟩
  intro t
  by_cases ht : t ∈ coreTables
  · exact hset t (List.mem_reverse.mpr ht)
  · have hother' : w.tables t = c.working.tables t := by
      apply hother
      rw [List.map_id, List.mem_reverse]
      exact ht
    have hnone := mt (htables t).mp ht
    rw [Option.not_isSome_iff_eq_none] at hnone
    exact hother'.trans hnone

/-! ### The second revision -/

/-- The tables are there, with these rows. -/
structure Held (tables : String → Option (List ρ)) (db : Schema ρ) : Prop where
  revision_ne : db.revision ≠ .base
  tables_eq : db.tables = tables
  indexesOn : db.IndexesOn coreTables

variable (seed) in
/-- **The statements of the second revision leave the tables alone**, cut or not. -/
theorem keeps_held {P : Schema ρ → Prop} {tables : String → Option (List ρ)}
    (hP : ∀ x, Held tables x → P x) {s : Statement ρ}
    (hs : s ∈ upgradeTo seed .trigramIndexes ∨ s ∈ downgradeFrom .trigramIndexes) :
    (sql ρ).machine.Keeps (fun c => P c.durable ∧ Held tables c.working) s := by
  have hmem : ∀ i ∈ trigramIndexes, i.table ∈ coreTables := by decide
  simp only [upgradeTo, downgradeFrom, List.mem_cons, List.mem_append, List.mem_map,
    List.not_mem_nil, or_false] at hs
  rcases hs with (rfl | rfl | ⟨i, hi, rfl⟩ | rfl | ⟨i, -, rfl⟩ | rfl) |
    rfl | ⟨i, -, rfl⟩ | rfl | rfl
  -- an index that is built is on a table of the first revision
  case inl.inr.inr.inl =>
    apply Sql.keeps_pair hP
    · rintro x - ⟨hrevision, htables, hon⟩
      refine ⟨hrevision, htables, hon.setIndex ?_⟩
      rintro _ ⟨⟩
      exact hmem i hi
    · rintro - x - ⟨hrevision, htables, hon⟩
      refine ⟨hrevision, htables, hon.setIndex ?_⟩
      rintro _ ⟨⟩
      exact hmem i hi
  -- one that is dropped may be left, and stays on its table
  case inr.inr.inl =>
    apply Sql.keeps_pair hP
    · rintro x - ⟨hrevision, htables, hon⟩
      exact ⟨hrevision, htables, hon.setIndex (by simp)⟩
    · rintro - x - ⟨hrevision, htables, hon⟩
      refine ⟨hrevision, htables, hon.setIndex ?_⟩
      intro index hindex
      obtain ⟨index', hindex', rfl⟩ := Option.map_eq_some_iff.mp hindex
      exact hon i.name index' hindex'
  -- nothing else touches tables or indexes
  all_goals
    refine Sql.keeps_pair hP ?_ (fun halone => by cases halone)
    rintro x - ⟨hrevision, htables, hon⟩
    exact ⟨by first | exact hrevision | exact Revision.noConfusion, htables, hon⟩

/-! ### One attempt -/

/-- The tables that an attempt finds, or makes. -/
def tablesFrom (seed : String → List ρ) (db : Schema ρ) : String → Option (List ρ) :=
  if db.revision = .base then created seed else db.tables

/-- What an attempt may leave of the tables. -/
structure Left (seed : String → List ρ) (db db' : Schema ρ) : Prop where
  sound : Sound db'
  tables_eq : db'.revision ≠ .base → db'.tables = tablesFrom seed db

theorem isSome_created (table : String) : (created seed table).isSome ↔ table ∈ coreTables := by
  unfold created
  split <;> simp_all

theorem Held.left (hdb : Sound db) {x : Schema ρ} (h : Held (tablesFrom seed db) x) :
    Left seed db x := by
  refine ⟨⟨?_, ?_, h.indexesOn⟩, fun _ => h.tables_eq⟩
  · intro t
    rw [h.tables_eq, tablesFrom]
    split
    · simp [isSome_created, h.revision_ne]
    · next hrevision => simp [hdb.isSome_tables t, hrevision, h.revision_ne]
  · intro hrevision
    exact absurd hrevision h.revision_ne

variable (seed) in
theorem Sound.left (hdb : Sound db) (h : db.revision = .base) : Left seed db db :=
  ⟨hdb, fun hrevision => absurd h hrevision⟩

/-- At no revision there is nothing. -/
theorem left_of_none {x : Schema ρ} (hrevision : x.revision = .base)
    (htables : ∀ table, x.tables table = none) (hindexes : ∀ name, x.indexes name = none) :
    Left seed db x := by
  refine ⟨⟨?_, fun _ => hindexes, ?_⟩, fun h => absurd hrevision h⟩
  · intro t
    simp [htables, hrevision]
  · intro name index hindex
    rw [hindexes] at hindex
    cases hindex

variable (seed) in
theorem Sound.held (hdb : Sound db) (h : db.revision ≠ .base) : Held (tablesFrom seed db) db := by
  refine ⟨h, ?_, hdb.indexesOn⟩
  rw [tablesFrom, if_neg h]

theorem Sound.tables_none (hdb : Sound db) (h : db.revision = .base) (table : String) :
    db.tables table = none := by
  have hnot := mt (hdb.isSome_tables table).mp (by simp [h])
  rwa [Option.not_isSome_iff_eq_none] at hnot

variable (seed) in
theorem control_upgrade_coreTables {s : Statement ρ} (hs : s ∈ upgradeTo seed .coreTables) :
    (sql ρ).control s = .change := by
  simp only [upgradeTo, List.mem_append, List.mem_map, List.mem_singleton] at hs
  rcases hs with ((⟨t, -, rfl⟩ | ⟨i, -, rfl⟩) | ⟨t, -, rfl⟩) | rfl <;> rfl

theorem control_downgrade_coreTables {s : Statement ρ} (hs : s ∈ downgradeFrom .coreTables) :
    (sql ρ).control s = .change := by
  simp only [downgradeFrom, List.mem_append, List.mem_map, List.mem_singleton] at hs
  rcases hs with ⟨t, -, rfl⟩ | rfl <;> rfl

/-- The second revision is undone outside of the autocommit block at the end. -/
theorem autocommit_of_downgrade {c' : Txn (Schema ρ)}
    (hran : (sql ρ).machine.Ran (downgradeFrom .trigramIndexes) c c') : c'.autocommit = false := by
  obtain ⟨d, -, hran⟩ := Machine.ran_cons.mp hran
  refine Machine.Ran.of_mem (P := fun c : Txn (Schema ρ) => c.autocommit = false) ?_
    (s := .endAutocommit) (by simp) ?_ hran
  · intro s hs
    apply Sql.keeps_autocommit
    simp only [List.mem_append, List.mem_map, List.mem_cons, List.not_mem_nil, or_false] at hs
    rcases hs with ⟨i, -, rfl⟩ | rfl | rfl <;> nofun
  · intro c c' hc
    have hc : (sql ρ).execute .endAutocommit c = .ok c' := hc
    obtain ⟨-, -, rfl⟩ := Sql.execute_eq_ok_iff.mp hc
    rfl

/-- The commit at the end makes durable what is sound. -/
theorem keeps_commit {P Q : Schema ρ → Prop} (hPQ : ∀ x, Q x → P x) :
    (sql ρ).machine.Keeps (fun c => P c.durable ∧ Q c.working) (.commit : Statement ρ) :=
  Sql.keeps_pair hPQ (fun _ _ h => h) (fun halone => by cases halone)

/-- The first revision, undone from where the tables are there. -/
theorem left_of_downgrade_coreTables (hdb : Sound db) (hauto : c.autocommit = false)
    (hdurable : Left seed db c.durable) (hheld : Held (tablesFrom seed db) c.working)
    (stop : Option (Stop Outcome)) :
    Left seed db
      ((sql ρ).machine.run (downgradeFrom .coreTables ++ [.commit]) stop c).2.durable := by
  have hsound := (hheld.left hdb).sound
  obtain ⟨w, hran, hrevision, htables, hindexes⟩ := ran_downgrade_coreTables hauto
    (fun t => by simp [hsound.isSome_tables t, hheld.revision_ne]) hheld.indexesOn
  rcases Sql.run_transaction (s := .commit) (fun s => control_downgrade_coreTables) rfl
    (fun _ => rfl) stop hauto hran with hrun | hrun
  · rwa [hrun]
  · rw [hrun]
    exact left_of_none hrevision htables hindexes

variable (seed) in
/-- The second revision, worked on where the tables are there: they stay. -/
theorem run_second {P : Schema ρ → Prop} {tables : String → Option (List ρ)}
    (hP : ∀ x, Held tables x → P x) (ss : List (Statement ρ))
    (hss : ∀ s ∈ ss, s ∈ upgradeTo seed .trigramIndexes ∨ s ∈ downgradeFrom .trigramIndexes)
    (stop : Option (Stop Outcome)) {c : Txn (Schema ρ)} (hdurable : P c.durable)
    (hworking : Held tables c.working) :
    P ((sql ρ).machine.run (ss ++ [.commit]) stop c).2.durable := by
  refine (Machine.run_keeps (P := fun c : Txn (Schema ρ) => P c.durable ∧ Held tables c.working)
    ?_ stop ⟨hdurable, hworking⟩).1
  intro s hs
  rw [List.mem_append, List.mem_singleton] at hs
  rcases hs with hs | rfl
  · exact keeps_held seed hP (hss s hs)
  · exact keeps_commit hP

variable (seed) in
/-- **One attempt keeps the tables**, made at most once, or drops them all. -/
theorem attempt_left (hdb : Sound db) (a : Attempt) : Left seed db (attempt seed a db).2 := by
  have hstart : db.revision ≠ .base → Left seed db db ∧ Held (tablesFrom seed db) db :=
    fun h => ⟨(hdb.held seed h).left hdb, hdb.held seed h⟩
  have hstay : ∀ x, Held (tablesFrom seed db) x → Left seed db x := fun _ h => h.left hdb
  -- the first revision, from where there is nothing
  have hfirst : db.revision = .base → ∃ w,
      (sql ρ).machine.Ran (upgradeTo seed .coreTables) ⟨db, db, false⟩
        (Txn.to ⟨db, db, false⟩ w) ∧ Held (tablesFrom seed db) w := by
    intro hbase
    obtain ⟨w, hran, hrevision, htables, hon, -⟩ := ran_upgrade_coreTables seed
      (c := ⟨db, db, false⟩) rfl (hdb.tables_none hbase) (hdb.indexes_none hbase)
    refine ⟨w, hran, by rw [hrevision]; exact Revision.noConfusion, ?_, hon⟩
    rw [tablesFrom, if_pos hbase]
    exact htables
  rw [attempt_snd, script]
  cases hrevision : db.revision with
  | base =>
    obtain ⟨w, hran, hheld⟩ := hfirst hrevision
    have hleft := hdb.left seed hrevision
    cases a.target with
    | base =>
      have hrun := Sql.run_commit (D := sql ρ) (s := .commit) rfl (fun _ => rfl) a.stop
        ⟨db, db, false⟩
      rw [or_self] at hrun
      show Left seed db ((sql ρ).machine.run [.commit] a.stop ⟨db, db, false⟩).2.durable
      rwa [hrun]
    | coreTables =>
      rcases Sql.run_transaction (s := .commit) (fun s => control_upgrade_coreTables seed) rfl
        (fun _ => rfl) a.stop rfl hran with hrun | hrun
      · rwa [steps, hrun]
      · rw [steps, hrun]
        exact hheld.left hdb
    | trigramIndexes =>
      rw [steps, List.append_assoc]
      rcases Machine.run_append (M := (sql ρ).machine) (upgradeTo seed .coreTables)
        (upgradeTo seed .trigramIndexes ++ [.commit]) a.stop ⟨db, db, false⟩ with
        ⟨hrun, -⟩ | ⟨c', stop', hran', hrun⟩
      · have hnothing := Sql.durable_of_run (D := sql ρ) (c := ⟨db, db, false⟩)
          (fun s => control_upgrade_coreTables seed) a.stop rfl
        rw [hrun, hnothing.2]
        exact hleft
      · obtain rfl := hran.unique hran'
        rw [hrun]
        exact run_second seed hstay _ (fun s hs => Or.inl hs) stop' hleft hheld
  | coreTables =>
    obtain ⟨hleft, hheld⟩ := hstart (by rw [hrevision]; exact Revision.noConfusion)
    cases a.target with
    | base => exact left_of_downgrade_coreTables hdb rfl hleft hheld a.stop
    | coreTables => exact run_second seed hstay [] (by simp) a.stop hleft hheld
    | trigramIndexes =>
      exact run_second seed hstay _ (fun s hs => Or.inl hs) a.stop hleft hheld
  | trigramIndexes =>
    obtain ⟨hleft, hheld⟩ := hstart (by rw [hrevision]; exact Revision.noConfusion)
    cases a.target with
    | base =>
      rw [steps, List.append_assoc]
      have hkeeps := fun s hs => keeps_held seed (s := s) hstay (Or.inr hs)
      rcases Machine.run_append (M := (sql ρ).machine) (downgradeFrom .trigramIndexes)
        (downgradeFrom .coreTables ++ [.commit]) a.stop ⟨db, db, false⟩ with
        ⟨hrun, -⟩ | ⟨c', stop', hran', hrun⟩
      · rw [hrun]
        exact (Machine.run_keeps hkeeps a.stop ⟨hleft, hheld⟩).1
      · obtain ⟨hleft', hheld'⟩ := hran'.keeps hkeeps ⟨hleft, hheld⟩
        rw [hrun]
        exact left_of_downgrade_coreTables hdb (autocommit_of_downgrade hran') hleft' hheld' stop'
    | coreTables => exact run_second seed hstay _ (fun s hs => Or.inr hs) a.stop hleft hheld
    | trigramIndexes => exact run_second seed hstay [] (by simp) a.stop hleft hheld

/-! ### Whole histories -/

theorem run_append (events events' : List (Event ρ)) (db : Schema ρ) :
    run seed (events ++ events') db = run seed events' (run seed events db) :=
  List.foldl_append

theorem run_snoc (events : List (Event ρ)) (e : Event ρ) (db : Schema ρ) :
    run seed (events ++ [e]) db = e.apply seed (run seed events db) := by
  rw [run_append]
  rfl

theorem writtenTo_append (table : String) (events events' : List (Event ρ)) :
    writtenTo table (events ++ events') = writtenTo table events ++ writtenTo table events' := by
  induction events with
  | nil => rfl
  | cons e events ih =>
    cases e with
    | migrate a => exact ih
    | write table' row =>
      simp only [List.cons_append, writtenTo, ih]
      split <;> rfl

theorem sound_empty : Sound (Schema.empty : Schema ρ) := by
  refine ⟨by simp [Schema.empty], fun _ _ => rfl, ?_⟩
  intro name index hindex
  cases hindex

/-- A row written changes no more than its table. -/
theorem Sound.write (hdb : Sound db) (table : String) (row : ρ) :
    Sound (Event.apply seed (.write table row) db) := by
  refine ⟨?_, hdb.indexes_none, hdb.indexesOn⟩
  intro t
  show (((db.setTable table _).tables t).isSome ↔ db.revision ≠ .base ∧ t ∈ coreTables)
  by_cases ht : t = table
  · subst ht
    rw [Schema.tables_setTable_self, Option.isSome_map]
    exact hdb.isSome_tables t
  · rw [Schema.tables_setTable_of_ne ht]
    exact hdb.isSome_tables t

variable (seed) in
theorem Sound.apply (hdb : Sound db) (e : Event ρ) : Sound (e.apply seed db) := by
  cases e with
  | migrate a => exact (attempt_left seed hdb a).sound
  | write table row => exact hdb.write table row

theorem Sound.run (hdb : Sound db) (events : List (Event ρ)) :
    Sound (Revisions.run seed events db) := by
  induction events generalizing db with
  | nil => exact hdb
  | cons e events ih => exact ih (hdb.apply seed e)

/-- The rows of a table after one more event. -/
theorem tables_apply (hdb : Sound db) (hrevision : db.revision ≠ .base) {e : Event ρ}
    (hafter : (e.apply seed db).revision ≠ .base) (table : String) :
    (e.apply seed db).tables table = (db.tables table).map (· ++ writtenTo table [e]) := by
  cases e with
  | migrate a =>
    have htables := (attempt_left seed hdb a).tables_eq hafter
    rw [tablesFrom, if_neg hrevision] at htables
    have hmap : (fun rows : List ρ => rows ++ writtenTo table [.migrate a]) = id := by
      funext rows
      exact List.append_nil rows
    rw [hmap, Option.map_id]
    exact congrFun htables table
  | write table' row =>
    show (db.setTable table' _).tables table = _
    by_cases htable : table = table'
    · subst htable
      rw [Schema.tables_setTable_self]
      simp [writtenTo]
    · rw [Schema.tables_setTable_of_ne htable]
      simp [writtenTo, Ne.symm htable]

/-- As long as the database does not come to `base`, rows are only added. -/
theorem tables_run (hdb : Sound db) {events : List (Event ρ)}
    (hnever : ∀ p, p <+: events → (run seed p db).revision ≠ .base) (table : String) :
    (run seed events db).tables table =
      (db.tables table).map (· ++ writtenTo table events) := by
  induction events using List.reverseRecOn with
  | nil => simp [run, writtenTo]
  | append_singleton events e ih =>
    have hbefore := ih fun p hp => hnever p (hp.trans (List.prefix_append _ _))
    have hlast := hnever events (List.prefix_append _ _)
    have hend := hnever (events ++ [e]) List.prefix_rfl
    rw [run_snoc] at hend
    rw [run_snoc, tables_apply (hdb.run events) hlast hend, hbefore, writtenTo_append]
    simp [Option.map_map, Function.comp_def]

/-- What holds of some front of a list holds of a last one. -/
theorem exists_last_prefix {α : Type} {P : List α → Prop} {l : List α} (h : ∃ p, p <+: l ∧ P p) :
    ∃ before after, l = before ++ after ∧ P before ∧
      ∀ p, p <+: after → p ≠ [] → ¬P (before ++ p) := by
  induction l using List.reverseRecOn with
  | nil =>
    obtain ⟨p, hp, hP⟩ := h
    obtain rfl := List.prefix_nil.mp hp
    exact ⟨[], [], rfl, hP, fun q hq hne => absurd (List.prefix_nil.mp hq) hne⟩
  | append_singleton l a ih =>
    by_cases hlast : P (l ++ [a])
    · exact ⟨l ++ [a], [], (List.append_nil _).symm, hlast,
        fun q hq hne => absurd (List.prefix_nil.mp hq) hne⟩
    · obtain ⟨p, hp, hP⟩ := h
      rw [List.prefix_concat_iff] at hp
      have hp : p <+: l := by
        rcases hp with rfl | hp
        · exact absurd hP hlast
        · exact hp
      obtain ⟨before, after, rfl, hbefore, hnever⟩ := ih ⟨p, hp, hP⟩
      refine ⟨before, after ++ [a], List.append_assoc _ _ _, hbefore, ?_⟩
      intro q hq hne
      rw [List.prefix_concat_iff] at hq
      rcases hq with rfl | hq
      · rwa [← List.append_assoc]
      · exact hnever q hq hne

/-- The event that takes the database from `base` makes the tables with their seed. -/
theorem tables_apply_of_base (hdb : Sound db) (hbase : db.revision = .base) {e : Event ρ}
    (hafter : (e.apply seed db).revision ≠ .base) {table : String} (ht : table ∈ coreTables) :
    (e.apply seed db).tables table = some (seedOf seed table ++ writtenTo table [e]) := by
  cases e with
  | migrate a =>
    have htables := (attempt_left seed hdb a).tables_eq hafter
    rw [tablesFrom, if_pos hbase] at htables
    refine (congrFun htables table).trans ?_
    rw [created, if_pos ht]
    exact congrArg some (List.append_nil _).symm
  | write table' row => exact absurd hbase hafter

/-- Since the database was last at `base`, every table holds its seed and what was
written to it. -/
theorem tables_since_base (hdb : Sound db) {events : List (Event ρ)}
    (hbase : ∃ p, p <+: events ∧ (run seed p db).revision = .base)
    (hrevision : (run seed events db).revision ≠ .base) :
    ∃ before after, events = before ++ after ∧ (run seed before db).revision = .base ∧
      (∀ p, p <+: after → p ≠ [] → (run seed (before ++ p) db).revision ≠ .base) ∧
      ∀ table ∈ coreTables, (run seed events db).tables table =
        some (seedOf seed table ++ writtenTo table after) := by
  obtain ⟨before, after, rfl, hstart, hnever⟩ := exists_last_prefix hbase
  refine ⟨before, after, rfl, hstart, hnever, ?_⟩
  intro t ht
  cases after with
  | nil =>
    rw [List.append_nil] at hrevision
    exact absurd hstart hrevision
  | cons e rest =>
    -- the first event makes the tables, and the others only add rows
    have hfront : ∀ p, p <+: rest →
        (run seed p (run seed (before ++ [e]) db)).revision ≠ .base := by
      intro p hp
      rw [← run_append, List.append_assoc]
      exact hnever _ (List.prefix_append_right_inj [e] |>.mpr hp) (by simp)
    have hfirst := hfront [] List.nil_prefix
    have hmade : (run seed (before ++ [e]) db).tables t
        = some (seedOf seed t ++ writtenTo t [e]) := by
      rw [run_snoc]
      refine tables_apply_of_base (hdb.run before) hstart ?_ ht
      rwa [← run_snoc]
    have hsplit : before ++ e :: rest = (before ++ [e]) ++ rest := by simp
    rw [hsplit, run_append, tables_run (hdb.run _) hfront, hmade, Option.map_some,
      List.append_assoc, ← writtenTo_append, List.singleton_append]

/-- **The tables come with their seed, and keep what is written.**  In every history of
attempts, each to any revision and interrupted anywhere, with rows written in between:
the tables are there just where a revision is stamped; and where one is, the history has
a last moment at `base` after which every table holds its seed, once, and all the rows
written to it since.  So no attempt loses a row but one that takes the database down to
`base`. -/
theorem tables_of_run (seed : String → List ρ) (events : List (Event ρ)) :
    let db := run seed events .empty
    (∀ table, (db.tables table).isSome ↔ db.revision ≠ .base ∧ table ∈ coreTables) ∧
      (db.revision = .base → ∀ name, db.indexes name = none) ∧
      (db.revision ≠ .base → ∃ before after, events = before ++ after ∧
        (run seed before .empty).revision = .base ∧
        (∀ p, p <+: after → p ≠ [] → (run seed (before ++ p) .empty).revision ≠ .base) ∧
        ∀ table ∈ coreTables,
          db.tables table = some (seedOf seed table ++ writtenTo table after)) := by
  intro db
  have hsound : Sound db := sound_empty.run events
  exact ⟨hsound.isSome_tables, hsound.indexes_none,
    tables_since_base sound_empty ⟨[], List.nil_prefix, rfl⟩⟩

/-! ### Half-done attempts -/

/-- A statement that fails on what it finds, fails. -/
theorem exists_execute_error {s : Statement ρ} {e : Exn}
    (h : (sql ρ).failure s c.working = some e) :
    ∃ e, (sql ρ).machine.execute s c = .error e := by
  show ∃ e, (sql ρ).execute s c = .error e
  unfold Sql.execute
  split
  · exact ⟨_, rfl⟩
  · rw [h]
    exact ⟨e, rfl⟩

/-- An attempt that has nothing to do leaves the database as it is. -/
theorem attempt_of_eq {a : Attempt} (h : steps seed db.revision a.target = []) :
    (attempt seed a db).2 = db := by
  rw [attempt_snd, script, h]
  exact (or_self_iff.mp (Sql.run_commit (D := sql ρ) (s := .commit) rfl (fun _ => rfl) a.stop
    ⟨db, db, false⟩))

/-- A revision is stamped, and an index is as it may be. -/
def Stamped (revision : Revision) (name : String) (p : Option Index → Prop) (db : Schema ρ) :
    Prop :=
  db.revision = revision ∧ p (db.indexes name)

theorem Stamped.setIndex {revision : Revision} {name name' : String} {p : Option Index → Prop}
    (h : Stamped revision name p db) {index : Option Index} (hindex : name = name' → p index) :
    Stamped revision name p (db.setIndex name' index) := by
  refine ⟨h.1, ?_⟩
  by_cases hname : name = name'
  · rw [hname, Schema.indexes_setIndex_self]
    exact hindex hname
  · rw [Schema.indexes_setIndex_of_ne hname]
    exact h.2

/-- A statement that fails on every state with a property keeps it, cut or not. -/
theorem keeps_of_failure {Q : Schema ρ → Prop} {s : Statement ρ} {e : Exn}
    (h : ∀ x, Q x → (sql ρ).failure s x = some e) :
    (sql ρ).machine.Keeps (fun c => Q c.durable ∧ Q c.working) s := by
  apply Sql.keeps_both Q
  · intro x hfailure hx
    rw [h x hx] at hfailure
    cases hfailure
  · intro _ x hfailure hx
    rw [h x hx] at hfailure
    cases hfailure

/-- An attempt that comes to a statement it cannot pass leaves what the statements before
keep. -/
theorem attempt_of_blocked {Q : Schema ρ → Prop} {a : Attempt} {before after : List (Statement ρ)}
    {s : Statement ρ} {e : Exn} (hscript : script seed db.revision a.target = before ++ s :: after)
    (hbefore : ∀ t ∈ before, (sql ρ).machine.Keeps (fun c => Q c.durable ∧ Q c.working) t)
    (hfailure : ∀ x, Q x → (sql ρ).failure s x = some e) (h : Q db) : Q (attempt seed a db).2 := by
  rw [attempt_snd, hscript]
  exact (Machine.run_blocked (M := (sql ρ).machine) hbefore
    (fun c hc => exists_execute_error (hfailure c.working hc.2))
    (fun o c hc => (keeps_of_failure hfailure).2 o c hc) a.stop (c := ⟨db, db, false⟩)
    ⟨h, h⟩).2.1

/-- **A half-done downgrade is never undone**: the second revision stays stamped, and
the index stays missing. -/
theorem HalfDowngraded.attempt (h : HalfDowngraded db) (a : Attempt) :
    HalfDowngraded (attempt seed a db).2 := by
  obtain ⟨hrevision, i, hi, hnone⟩ := h
  by_cases htarget : a.target = .trigramIndexes
  · rw [attempt_of_eq (by rw [hrevision, htarget]; rfl)]
    exact ⟨hrevision, i, hi, hnone⟩
  -- every other run comes to the missing index
  obtain ⟨front, back, hsplit⟩ := List.append_of_mem hi
  obtain ⟨rest, hscript⟩ : ∃ rest, script seed db.revision a.target =
      (.beginAutocommit :: front.map fun j => .dropIndexConcurrently j.name) ++
        .dropIndexConcurrently i.name :: rest := by
    rw [hrevision, script]
    cases htarget' : a.target with
    | trigramIndexes => exact absurd htarget' htarget
    | base => exact ⟨_, by simp [steps, downgradeFrom, hsplit]; rfl⟩
    | coreTables => exact ⟨_, by simp [steps, downgradeFrom, hsplit]; rfl⟩
  obtain ⟨hrevision', hnone'⟩ := attempt_of_blocked
    (Q := Stamped .trigramIndexes i.name (· = none)) hscript
    (by
      intro t ht
      rw [List.mem_cons, List.mem_map] at ht
      rcases ht with rfl | ⟨j, -, rfl⟩
      · exact Sql.keeps_both (Stamped .trigramIndexes i.name (· = none)) (fun _ _ hx => hx)
          fun halone => by cases halone
      · -- to drop another index brings none back
        apply Sql.keeps_both (Stamped .trigramIndexes i.name (· = none))
        · intro x _ hx
          exact hx.setIndex fun _ => rfl
        · intro _ x _ hx
          refine hx.setIndex fun hname => ?_
          rw [← hname, hx.2]
          rfl)
    (fun x hx => if_pos (by rw [hx.2]; rfl)) ⟨hrevision, hnone⟩
  exact ⟨hrevision', i, hi, hnone'⟩

/-- **A half-done upgrade is undone only with its tables**: the index that is there stops
every upgrade. -/
theorem HalfUpgraded.attempt (h : HalfUpgraded db) (hdb : Sound db) (a : Attempt) :
    HalfUpgraded (attempt seed a db).2 ∨ (Revisions.attempt seed a db).2.revision = .base := by
  obtain ⟨hrevision, i, hi, hsome⟩ := h
  cases htarget : a.target with
  | coreTables =>
    rw [attempt_of_eq (by rw [hrevision, htarget]; rfl)]
    exact Or.inl ⟨hrevision, i, hi, hsome⟩
  | base =>
    obtain ⟨w, hran, hbase, -, -⟩ := ran_downgrade_coreTables (c := ⟨db, db, false⟩) rfl
      (fun t => by simp [hdb.isSome_tables t, hrevision]) hdb.indexesOn
    have hrun := Sql.run_transaction (s := .commit) (fun s => control_downgrade_coreTables) rfl
      (fun _ => rfl) a.stop rfl hran
    rw [attempt_snd, hrevision, htarget]
    rcases hrun with hrun | hrun
    · left
      rw [script, steps, hrun]
      exact ⟨hrevision, i, hi, hsome⟩
    · right
      rw [script, steps, hrun]
      exact hbase
  | trigramIndexes =>
    obtain ⟨front, back, hsplit⟩ := List.append_of_mem hi
    obtain ⟨rest, hscript⟩ : ∃ rest, script seed db.revision a.target =
        (.createExtension :: .beginAutocommit ::
          front.map fun j => .createIndexConcurrently j.name j.table) ++
          .createIndexConcurrently i.name i.table :: rest := by
      rw [hrevision, htarget, script]
      exact ⟨_, by simp [steps, upgradeTo, hsplit]; rfl⟩
    obtain ⟨hrevision', hsome'⟩ := attempt_of_blocked
      (Q := Stamped .coreTables i.name (· ≠ none)) hscript
      (by
        intro t ht
        simp only [List.mem_cons, List.mem_map] at ht
        rcases ht with rfl | rfl | ⟨j, -, rfl⟩
        · exact Sql.keeps_both (Stamped .coreTables i.name (· ≠ none)) (fun _ _ hx => hx)
            fun halone => by cases halone
        · exact Sql.keeps_both (Stamped .coreTables i.name (· ≠ none)) (fun _ _ hx => hx)
            fun halone => by cases halone
        · -- to build another index leaves this one
          apply Sql.keeps_both (Stamped .coreTables i.name (· ≠ none))
          · intro x _ hx
            exact hx.setIndex fun _ => Option.some_ne_none _
          · intro _ x _ hx
            exact hx.setIndex fun _ => Option.some_ne_none _)
      (fun x hx => if_pos (Or.inr (Or.inr (Option.isSome_iff_ne_none.mpr hx.2))))
      ⟨hrevision, hsome⟩
    exact Or.inl ⟨hrevision', i, hi, hsome'⟩

variable (seed) in
theorem HalfDowngraded.run (h : HalfDowngraded db) (events : List (Event ρ)) :
    HalfDowngraded (run seed events db) := by
  induction events generalizing db with
  | nil => exact h
  | cons e events ih =>
    cases e with
    | migrate a => exact ih (h.attempt a)
    | write table row =>
      exact ih (show HalfDowngraded (Event.apply seed (.write table row) db) from h)

theorem HalfUpgraded.run (h : HalfUpgraded db) (hdb : Sound db) {events : List (Event ρ)}
    (hnever : ∀ p, p <+: events → (Revisions.run seed p db).revision ≠ .base) :
    HalfUpgraded (run seed events db) := by
  induction events using List.reverseRecOn with
  | nil => exact h
  | append_singleton events e ih =>
    have hbefore := ih fun p hp => hnever p (hp.trans (List.prefix_append _ _))
    have hend := hnever _ List.prefix_rfl
    rw [run_snoc] at hend ⊢
    cases e with
    | migrate a => exact (hbefore.attempt (hdb.run events) a).resolve_right hend
    | write table row => exact hbefore

/-! ### Attempts that are not interrupted -/

variable (seed) in
/-- **The second revision** is reached from where its indexes are not there yet. -/
theorem ran_upgrade_trigramIndexes
    (htables : ∀ table ∈ coreTables, (c.working.tables table).isSome)
    (hindexes : ∀ i ∈ trigramIndexes, c.working.indexes i.name = none) :
    ∃ c', (sql ρ).machine.Ran (upgradeTo seed .trigramIndexes) c c' ∧ Complete c'.working := by
  have hmem : ∀ i ∈ trigramIndexes, i.table ∈ coreTables := by decide
  -- the extension is committed when the block begins
  set x : Schema ρ := { c.working with pgTrgm := true }
  obtain ⟨w, hran, ⟨-, hwtables⟩, hset, -⟩ := Sql.ran_map (D := sql ρ) (c := ⟨x, x, true⟩)
    trigramIndexes (fun i => .createIndexConcurrently i.name i.table)
    Migration.TrigramIndex.name (fun n x => x.indexes n) (fun i => some ⟨i.table, .valid⟩)
    (fun _ index => index = none)
    (fun y => y.pgTrgm = true ∧ y.tables = c.working.tables) (fun _ => rfl)
    (fun _ => Or.inr ⟨rfl, rfl⟩)
    (by
      intro i hi y hy hname
      have hsome : (y.tables i.table).isSome := by
        rw [hy.2]
        exact htables _ (hmem i hi)
      refine ⟨if_neg ?_, hy, Schema.indexes_setIndex_self, ?_⟩
      · rw [hname, hy.1]
        simpa using Option.isSome_iff_ne_none.mp hsome
      · intro k hk
        exact Schema.indexes_setIndex_of_ne hk)
    (by decide) hindexes ⟨rfl, rfl⟩
  have hanalyze : (sql ρ).machine.Ran (trigramIndexes.map fun i => .analyze i.table)
      ⟨w, w, false⟩ ⟨w, w, false⟩ := by
    apply Machine.ran_of_forall
    intro s hs
    obtain ⟨i, hi, rfl⟩ := List.mem_map.mp hs
    have hsome : (w.tables i.table).isSome := by
      rw [hwtables]
      exact htables _ (hmem i hi)
    have hfailure : (sql ρ).failure (.analyze i.table) w = none :=
      if_neg (by simpa using Option.isSome_iff_ne_none.mp hsome)
    show (sql ρ).execute (.analyze i.table) ⟨w, w, false⟩ = .ok ⟨w, w, false⟩
    exact Sql.execute_eq_ok_iff.mpr ⟨fun halone => (by cases halone), hfailure, rfl⟩
  have hstamp := Sql.ran_change (D := sql ρ) (s := .stamp .trigramIndexes)
    (c := ⟨w, w, false⟩) rfl rfl
  refine ⟨_, Machine.ran_cons.mpr ⟨c.to x, ?_, Machine.ran_cons.mpr ⟨⟨x, x, true⟩, rfl,
    Machine.ran_append.mpr ⟨_, hran, Machine.ran_cons.mpr ⟨_, rfl,
      Machine.ran_append.mpr ⟨_, hanalyze, hstamp⟩⟩⟩⟩⟩, rfl, ?_⟩
  · rfl
  · exact hset

/-- **The second revision is undone** where its indexes are there, whatever their state. -/
theorem ran_downgrade_trigramIndexes
    (hindexes : ∀ i ∈ trigramIndexes, (c.working.indexes i.name).isSome) :
    ∃ c', (sql ρ).machine.Ran (downgradeFrom .trigramIndexes) c c' ∧
      c'.working.revision = .coreTables ∧
      ∀ i ∈ trigramIndexes, c'.working.indexes i.name = none := by
  obtain ⟨w, hran, -, hset, -⟩ := Sql.ran_map (D := sql ρ) (c := ⟨c.working, c.working, true⟩)
    trigramIndexes (fun i => .dropIndexConcurrently i.name) Migration.TrigramIndex.name
    (fun n x => x.indexes n) (fun _ => none) (fun _ index => index.isSome) (fun _ => True)
    (fun _ => rfl) (fun _ => Or.inr ⟨rfl, rfl⟩)
    (by
      intro i _ y _ hname
      have hsome : y.indexes i.name ≠ none := Option.isSome_iff_ne_none.mp hname
      refine ⟨if_neg (by simpa using hsome), trivial, Schema.indexes_setIndex_self, ?_⟩
      intro k hk
      exact Schema.indexes_setIndex_of_ne hk)
    (by decide) hindexes trivial
  have hstamp := Sql.ran_change (D := sql ρ) (s := .stamp .coreTables)
    (c := ⟨w, w, false⟩) rfl rfl
  exact ⟨_, Machine.ran_cons.mpr ⟨⟨c.working, c.working, true⟩, rfl,
    Machine.ran_append.mpr ⟨_, hran, Machine.ran_cons.mpr ⟨⟨w, w, false⟩, rfl, hstamp⟩⟩⟩, rfl, hset⟩

/-- An attempt whose steps run is committed. -/
theorem attempt_of_ran {target : Revision} {c' : Txn (Schema ρ)}
    (hran : (sql ρ).machine.Ran (steps seed db.revision target) ⟨db, db, false⟩ c') :
    (attempt seed ⟨target, none⟩ db).2 = c'.working := by
  have hcommit : (sql ρ).machine.Ran (script seed db.revision target) ⟨db, db, false⟩
      { c' with durable := c'.working } :=
    Machine.ran_append.mpr ⟨c', hran, rfl⟩
  unfold Machine.Ran at hcommit
  rw [attempt_snd, hcommit]

theorem complete_of_coreTables (hdb : Sound db) (hrevision : db.revision = .coreTables)
    (hindexes : ∀ i ∈ trigramIndexes, db.indexes i.name = none) :
    Complete (run seed [.migrate ⟨.trigramIndexes, none⟩] db) := by
  obtain ⟨c', hran, hcomplete⟩ := ran_upgrade_trigramIndexes seed (c := ⟨db, db, false⟩)
    (fun t ht => (hdb.isSome_tables t).mpr ⟨by rw [hrevision]; exact Revision.noConfusion, ht⟩)
    hindexes
  have hsteps :
      (sql ρ).machine.Ran (steps seed db.revision .trigramIndexes) ⟨db, db, false⟩ c' := by
    rw [hrevision]
    exact hran
  show Complete (attempt seed ⟨.trigramIndexes, none⟩ db).2
  rwa [attempt_of_ran hsteps]

theorem complete_of_base (hdb : Sound db) (hrevision : db.revision = .base) :
    Complete (run seed [.migrate ⟨.trigramIndexes, none⟩] db) := by
  obtain ⟨w, hran, -, htables, -, hindexes⟩ := ran_upgrade_coreTables seed
    (c := ⟨db, db, false⟩) rfl (hdb.tables_none hrevision) (hdb.indexes_none hrevision)
  obtain ⟨c', hran', hcomplete⟩ := ran_upgrade_trigramIndexes seed
    (c := Txn.to ⟨db, db, false⟩ w)
    (fun t ht => by
      rw [Txn.working_to, htables]
      exact (isSome_created t).mpr ht) hindexes
  have hsteps :
      (sql ρ).machine.Ran (steps seed db.revision .trigramIndexes) ⟨db, db, false⟩ c' := by
    rw [hrevision]
    exact Machine.ran_append.mpr ⟨_, hran, hran'⟩
  show Complete (attempt seed ⟨.trigramIndexes, none⟩ db).2
  rwa [attempt_of_ran hsteps]

/-- **Which states can be brought to the last revision**: all that a history of attempts
may come to but those a downgrade was stopped in, with an index gone. -/
theorem exists_complete_iff (hdb : Sound db) :
    (∃ events : List (Event ρ), Complete (run seed events db)) ↔ ¬HalfDowngraded db := by
  constructor
  · rintro ⟨events, hcomplete⟩ hhalf
    obtain ⟨-, i, hi, hnone⟩ := hhalf.run seed events
    rw [hcomplete.2 i hi] at hnone
    cases hnone
  · intro hhalf
    cases hrevision : db.revision with
    | base => exact ⟨_, complete_of_base hdb hrevision⟩
    | coreTables =>
      by_cases hindexes : ∀ i ∈ trigramIndexes, db.indexes i.name = none
      · exact ⟨_, complete_of_coreTables hdb hrevision hindexes⟩
      · -- down to the start, and up again
        obtain ⟨w, hran, hbase, -, -⟩ := ran_downgrade_coreTables (c := ⟨db, db, false⟩) rfl
          (fun t => by simp [hdb.isSome_tables t, hrevision]) hdb.indexesOn
        have hsteps : (sql ρ).machine.Ran (steps seed db.revision .base) ⟨db, db, false⟩
            (Txn.to ⟨db, db, false⟩ w) := by
          rw [hrevision]
          exact hran
        have hdown : (attempt seed ⟨.base, none⟩ db).2.revision = .base := by
          rw [attempt_of_ran hsteps]
          exact hbase
        exact ⟨[.migrate ⟨.base, none⟩, .migrate ⟨.trigramIndexes, none⟩],
          complete_of_base (attempt_left seed hdb _).sound hdown⟩
    | trigramIndexes =>
      have hindexes : ∀ i ∈ trigramIndexes, (db.indexes i.name).isSome := by
        intro i hi
        rw [Option.isSome_iff_ne_none]
        intro hnone
        exact hhalf ⟨hrevision, i, hi, hnone⟩
      -- down by one revision, and up again
      obtain ⟨c', hran, hcore, hnone⟩ :=
        ran_downgrade_trigramIndexes (c := ⟨db, db, false⟩) hindexes
      have hsteps : (sql ρ).machine.Ran (steps seed db.revision .coreTables) ⟨db, db, false⟩
          c' := by
        rw [hrevision]
        exact hran
      have hdown : (attempt seed ⟨.coreTables, none⟩ db).2 = c'.working := attempt_of_ran hsteps
      have hsound := (attempt_left seed hdb ⟨.coreTables, none⟩).sound
      rw [← hdown] at hcore hnone
      exact ⟨[.migrate ⟨.coreTables, none⟩, .migrate ⟨.trigramIndexes, none⟩],
        complete_of_coreTables hsound hcore hnone⟩

/-- **What a half-done migration costs.**  After any history, further attempts can bring
the database to the last revision with its indexes valid exactly unless a downgrade was
stopped with an index gone; and where an upgrade was stopped with an index there, every
way to it goes through `base`, so it ends with the seed and what was written after that:
each row that was there before is lost, the audit log's with them. -/
theorem repair_iff (seed : String → List ρ) (events : List (Event ρ)) :
    let db := run seed events .empty
    ((∃ events', Complete (run seed events' db)) ↔ ¬HalfDowngraded db) ∧
      (HalfUpgraded db → ∀ events', Complete (run seed events' db) →
        ∃ before after, events' = before ++ after ∧ (run seed before db).revision = .base ∧
          ∀ table ∈ coreTables, (run seed events' db).tables table =
            some (seedOf seed table ++ writtenTo table after)) := by
  intro db
  have hdb : Sound db := sound_empty.run events
  refine ⟨exists_complete_iff hdb, ?_⟩
  intro hhalf events' hcomplete
  have hbase : ∃ p, p <+: events' ∧ (run seed p db).revision = .base := by
    by_contra hnever
    have hnever : ∀ p, p <+: events' → (run seed p db).revision ≠ .base := by
      intro p hp hp'
      exact hnever ⟨p, hp, hp'⟩
    have hrevision := (hhalf.run hdb hnever).1
    rw [hcomplete.1] at hrevision
    cases hrevision
  obtain ⟨before, after, rfl, hbefore, -, hrows⟩ := tables_since_base hdb hbase
    (by rw [hcomplete.1]; exact Revision.noConfusion)
  exact ⟨before, after, rfl, hbefore, hrows⟩

end Runs

/-- An upgrade that is stopped while it builds the second index is half-done. -/
example : HalfUpgraded (run (fun _ => ([] : List ℕ))
    [.migrate ⟨.trigramIndexes, some ⟨16, .half⟩⟩] .empty) :=
  ⟨rfl, ⟨"ix_analytics_reports_content_trgm", "analytics_reports", "content"⟩,
    List.mem_cons_self, Option.some_ne_none _⟩

end Revisions
end SnapSearch
