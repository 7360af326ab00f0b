import Mathlib.Logic.Function.Basic
import SnapSearch.Lib.Script
import SnapSearch.Python

/-!
# The trigram-index migration

`alembic/versions/82d0b9d6d764_add_pg_trgm_gin_indexes_for_text_search.py`, and how
Alembic runs it: the statements of `upgrade()` or `downgrade()`, then the new revision
is stamped and the transaction committed.  The indexes are built and dropped inside an
autocommit block, so each of them is durable at once, while the revision is stamped at
the end only.

An attempt may be interrupted at any statement, and an index that was being built then
keeps its name and is invalid.

## Main definitions

* `upgrade`, `downgrade` — the statements of the migration.
* `attempt`, `attempts` — one attempt to migrate, and several in turn.
* `Completes` — an uninterrupted attempt succeeds.
* `Undisturbed` — no attempt stops between its first index and its last commit.
* `Whole`, `Broken` — the indexes are as the stamped revision says, or not.

## Main results

* `attempt_of_whole`, `attempt_of_broken` — **one attempt** on either.
* `completes_iff` — **the migration can be completed just where no attempt was
  stopped half-way.**
-/

namespace SnapSearch
namespace Migration

open Script

/-! ### The database -/

/-- An index is valid, or was left behind by a build that failed. -/
inductive IndexState
  | valid
  | invalid
  deriving DecidableEq

/-- What the migration finds in a database: its indexes by name, the extension, and
the stamped revision. -/
structure Catalog where
  indexes : String → Option IndexState
  pgTrgm : Bool
  revision : String

def Catalog.setIndex (db : Catalog) (name : String) (state : Option IndexState) : Catalog :=
  { db with indexes := Function.update db.indexes name state }

/-- A connection: what is durable, what its transaction sees, and whether each
statement commits. -/
structure Connection where
  durable : Catalog
  working : Catalog
  autocommit : Bool

/-- Change what the transaction sees. -/
def Connection.change (c : Connection) (f : Catalog → Catalog) : Connection :=
  { c with working := f c.working, durable := if c.autocommit then f c.working else c.durable }

/-! ### Statements -/

/-- An entry of `TRIGRAM_INDEXES`. -/
structure TrigramIndex where
  name : String
  table : String
  column : String

/-- The statements of a run. -/
inductive Statement
  /-- `CREATE EXTENSION IF NOT EXISTS pg_trgm`. -/
  | createExtension
  /-- Enter `autocommit_block()`: the transaction so far is committed. -/
  | beginAutocommit
  /-- Leave `autocommit_block()`: a new transaction begins. -/
  | endAutocommit
  /-- `CREATE INDEX CONCURRENTLY name ON table USING gin (column gin_trgm_ops)`. -/
  | createIndex (index : TrigramIndex)
  /-- `DROP INDEX CONCURRENTLY name`. -/
  | dropIndex (index : TrigramIndex)
  /-- `ANALYZE table`. -/
  | analyze (table : String)
  /-- `UPDATE alembic_version SET version_num = revision`. -/
  | stampRevision (revision : String)
  | commit

namespace Statement

/-- The index a statement builds or drops. -/
def index : Statement → Option TrigramIndex
  | createIndex i => some i
  | dropIndex i => some i
  | _ => none

/-- Why a statement fails, if it does. -/
def failure (c : Connection) : Statement → Option Exn
  | createIndex i =>
      -- CONCURRENTLY cannot run inside a transaction
      if ¬c.autocommit then some (.other "InternalError")
      else if ¬c.working.pgTrgm then some (.other "ProgrammingError")
      else if (c.working.indexes i.name).isSome then some (.other "ProgrammingError")
      else none
  | dropIndex i =>
      if ¬c.autocommit then some (.other "InternalError")
      else if (c.working.indexes i.name).isNone then some (.other "ProgrammingError")
      else none
  | _ => none

/-- What a statement changes in the catalog. -/
def effect : Statement → Catalog → Catalog
  | createExtension, db => { db with pgTrgm := true }
  | createIndex i, db => db.setIndex i.name (some .valid)
  | dropIndex i, db => db.setIndex i.name none
  | stampRevision revision, db => { db with revision }
  | _, db => db

/-- What a statement does that does not fail. -/
def apply (s : Statement) (c : Connection) : Connection :=
  match s with
  | beginAutocommit => { c with durable := c.working, autocommit := true }
  | endAutocommit => { c with autocommit := false }
  | commit => { c with durable := c.working }
  | analyze _ => c
  | s => c.change s.effect

/-- Execute a statement. -/
def execute (s : Statement) (c : Connection) : Except Exn Connection :=
  match s.failure c with
  | some e => .error e
  | none => .ok (s.apply c)

theorem execute_eq_ok_iff {s : Statement} {c c' : Connection} :
    s.execute c = .ok c' ↔ s.failure c = none ∧ s.apply c = c' := by
  unfold execute
  cases s.failure c <;> simp

end Statement

/-- What an attempt leaves of the statement it stops at. -/
inductive Outcome
  | undone
  | done
  /-- An index that was being built, or dropped, is left invalid. -/
  | leftInvalid
  deriving DecidableEq

/-- What is left of a statement that an attempt stops at. -/
def Statement.cut (o : Outcome) (s : Statement) (c : Connection) : Connection :=
  match o, s.execute c with
  | .done, .ok c' => c'
  | .leftInvalid, .ok _ =>
      match s.index with
      | none => c
      | some i => c.change fun db => db.setIndex i.name (some .invalid)
  | _, _ => c

/-- The statements on a connection. -/
def machine : Machine Statement Connection Outcome Exn where
  execute := Statement.execute
  cut := Statement.cut
  interrupted := .operationalError "the attempt was interrupted"

/-! ### The migration -/

/-- `TRIGRAM_INDEXES`. -/
def trigramIndexes : List TrigramIndex :=
  [⟨"ix_analytics_reports_content_trgm", "analytics_reports", "content"⟩,
   ⟨"ix_investigator_entities_name_trgm", "investigator_entities", "name"⟩,
   ⟨"ix_case_manager_cases_title_trgm", "case_manager_cases", "title"⟩]

def revision : String := "82d0b9d6d764"

def downRevision : String := "e606788ed467"

/-- `with op.get_context().autocommit_block():`. -/
def autocommitBlock (body : List Statement) : List Statement :=
  .beginAutocommit :: (body ++ [.endAutocommit])

/-- `upgrade()`. -/
def upgrade (entries : List TrigramIndex) : List Statement :=
  .createExtension ::
    (autocommitBlock (entries.map .createIndex) ++ entries.map fun i => .analyze i.table)

/-- `downgrade()`: the extension stays. -/
def downgrade (entries : List TrigramIndex) : List Statement :=
  autocommitBlock (entries.map .dropIndex)

inductive Direction
  | upgrade
  | downgrade
  deriving DecidableEq

namespace Direction

/-- The revision a direction starts from. -/
def source : Direction → String
  | upgrade => downRevision
  | downgrade => revision

/-- The revision it stamps. -/
def target : Direction → String
  | upgrade => revision
  | downgrade => downRevision

/-- The statements of a run: the migration's own, then Alembic's. -/
def script (entries : List TrigramIndex) (d : Direction) : List Statement :=
  (match d with
    | upgrade => Migration.upgrade entries
    | downgrade => Migration.downgrade entries) ++ [.stampRevision d.target, .commit]

end Direction

/-- An attempt to migrate, which may be stopped at a statement. -/
structure Attempt where
  direction : Direction
  stop : Option (Stop Outcome)

/-- What an attempt gives and leaves.  At another revision there is nothing to do. -/
def attempt (entries : List TrigramIndex) (a : Attempt) (db : Catalog) :
    Except Exn Unit × Catalog :=
  if db.revision = a.direction.source then
    -- what was not committed is rolled back with the connection
    let r := machine.run (a.direction.script entries) a.stop ⟨db, db, false⟩
    (r.1, r.2.durable)
  else (.ok (), db)

/-- What several attempts leave, one after another. -/
def attempts (entries : List TrigramIndex) (as : List Attempt) (db : Catalog) : Catalog :=
  as.foldl (fun db a => (attempt entries a db).2) db

/-! ### What the migration is for -/

namespace Direction

/-- How a direction leaves an index. -/
def final : Direction → Option IndexState
  | upgrade => some .valid
  | downgrade => none

/-- An index that a direction has still to work on: to build it, or to drop it. -/
def Pending : Direction → Option IndexState → Prop
  | upgrade, state => state = none
  | downgrade, state => state.isSome

def opposite : Direction → Direction
  | upgrade => downgrade
  | downgrade => upgrade

/-- The statement of a direction for an index. -/
def indexStatement : Direction → TrigramIndex → Statement
  | upgrade => .createIndex
  | downgrade => .dropIndex

end Direction

/-- An uninterrupted attempt of the direction that the stamped revision asks for
succeeds, and leaves every listed index valid, or none of them. -/
def Completes (entries : List TrigramIndex) (db : Catalog) : Prop :=
  ∀ d : Direction, db.revision = d.source →
    (attempt entries ⟨d, none⟩ db).1 = .ok () ∧
      ∀ i ∈ entries, (attempt entries ⟨d, none⟩ db).2.indexes i.name = d.final

/-- A statement that changes which indexes there are, given what is left of it: an
index left invalid is there. -/
def Statement.Changes (o : Outcome) : Statement → Prop
  | .createIndex _ => o ≠ .undone
  | .dropIndex _ => o = .done
  | _ => False

/-- An attempt that stops, if it does, before it has changed which indexes there are or
after its last commit. -/
def Attempt.Harmless (entries : List TrigramIndex) (a : Attempt) : Prop :=
  ∀ k o, a.stop = some ⟨k, o⟩ →
    ((∀ s ∈ (a.direction.script entries).take k, s.index = none) ∧
        ∀ s ∈ (a.direction.script entries)[k]?, ¬s.Changes o) ∨
      (k + 1 = (a.direction.script entries).length ∧ o = .done) ∨
      (a.direction.script entries).length ≤ k

/-- Every attempt made at the revision it starts from is harmless. -/
def Undisturbed (entries : List TrigramIndex) : Catalog → List Attempt → Prop
  | _, [] => True
  | db, a :: as =>
      (db.revision = a.direction.source → a.Harmless entries) ∧
        Undisturbed entries (attempt entries a db).2 as

/-- The stamped revision says which indexes there are. -/
def Whole (entries : List TrigramIndex) (d : Direction) (db : Catalog) : Prop :=
  db.revision = d.source ∧ ∀ i ∈ entries, d.Pending (db.indexes i.name)

/-- An index is there, or missing, that the stamped revision says is not. -/
def Broken (entries : List TrigramIndex) (d : Direction) (db : Catalog) : Prop :=
  db.revision = d.source ∧ ∃ i ∈ entries, ¬d.Pending (db.indexes i.name)

namespace Direction

variable (d : Direction)

theorem not_pending_final : ¬d.Pending d.final := by
  cases d <;> simp [Pending, final]

theorem pending_opposite_final : d.opposite.Pending d.final := by
  cases d <;> simp [Pending, final, opposite]

theorem source_opposite : d.opposite.source = d.target := by
  cases d <;> rfl

theorem source_injective : Function.Injective source := by
  intro d d' h
  cases d <;> cases d' <;> first | rfl | exact absurd h (by decide)

theorem index_indexStatement (i : TrigramIndex) : (d.indexStatement i).index = some i := by
  cases d <;> rfl

/-- What a run does before it comes to the indexes. -/
def opening : Direction → List Statement
  | upgrade => [.createExtension, .beginAutocommit]
  | downgrade => [.beginAutocommit]

/-- What it does between the indexes and the stamp. -/
def closing (entries : List TrigramIndex) : Direction → List Statement
  | upgrade => .endAutocommit :: entries.map fun i => .analyze i.table
  | downgrade => [.endAutocommit]

/-- The migration's own statements. -/
def body (entries : List TrigramIndex) : List Statement :=
  d.opening ++ (entries.map d.indexStatement ++ d.closing entries)

theorem script_eq (entries : List TrigramIndex) :
    d.script entries = d.body entries ++ [.stampRevision d.target, .commit] := by
  cases d <;>
    simp [script, body, opening, closing, indexStatement, Migration.upgrade, Migration.downgrade,
      autocommitBlock]

theorem index_of_mem_opening {s : Statement} (h : s ∈ d.opening) : s.index = none := by
  cases d with
  | upgrade =>
    simp only [opening, List.mem_cons, List.not_mem_nil, or_false] at h
    rcases h with rfl | rfl <;> rfl
  | downgrade =>
    rw [List.mem_singleton.mp h]
    rfl

theorem index_of_mem_closing {entries : List TrigramIndex} {s : Statement}
    (h : s ∈ d.closing entries) : s.index = none := by
  cases d with
  | upgrade =>
    simp only [closing, List.mem_cons, List.mem_map] at h
    rcases h with rfl | ⟨i, -, rfl⟩ <;> rfl
  | downgrade =>
    rw [List.mem_singleton.mp h]
    rfl

/-- The index statements of a run are those for the entries. -/
theorem eq_indexStatement_of_mem {entries : List TrigramIndex} {s : Statement}
    (h : s ∈ d.script entries) (hindex : s.index ≠ none) :
    ∃ i ∈ entries, s = d.indexStatement i := by
  simp only [script_eq, body, List.mem_append, List.mem_cons, List.not_mem_nil, or_false] at h
  rcases h with (h | h | h) | rfl | rfl
  · exact absurd (d.index_of_mem_opening h) hindex
  · obtain ⟨i, hi, rfl⟩ := List.mem_map.mp h
    exact ⟨i, hi, rfl⟩
  · exact absurd (d.index_of_mem_closing h) hindex
  · exact absurd rfl hindex
  · exact absurd rfl hindex

/-- Only Alembic stamps a revision. -/
theorem not_stamps_of_mem_body {entries : List TrigramIndex} {s : Statement}
    (h : s ∈ d.body entries) (r : String) : s ≠ .stampRevision r := by
  rintro rfl
  simp only [body, List.mem_append, List.mem_map] at h
  cases d <;> simp [opening, closing, indexStatement] at h

end Direction

/-! ### A run to the end -/

/-- The connection can work on the indexes. -/
structure Ready (d : Direction) (c : Connection) : Prop where
  autocommit : c.autocommit = true
  durable : c.durable = c.working
  pgTrgm : d = .upgrade → c.working.pgTrgm = true

section Runs

variable {d : Direction} {entries : List TrigramIndex} {db : Catalog} {c c' : Connection}
  {i : TrigramIndex}

theorem execute_indexStatement (h : (d.indexStatement i).execute c = .ok c') :
    d.Pending (c.working.indexes i.name) ∧ c.autocommit = true ∧
      c' = c.change fun db => db.setIndex i.name d.final := by
  cases d with
  | upgrade =>
    simp only [Direction.indexStatement, Statement.execute, Statement.failure] at h
    split_ifs at h with h1 h2 h3
    cases h
    simp only [Bool.not_eq_true, Option.isSome_eq_false_iff, Option.isNone_iff_eq_none] at h1 h3
    exact ⟨h3, by simpa using h1, rfl⟩
  | downgrade =>
    simp only [Direction.indexStatement, Statement.execute, Statement.failure] at h
    split_ifs at h with h1 h2
    cases h
    exact ⟨by simpa [Direction.Pending, Option.isSome_iff_ne_none] using h2, by simpa using h1, rfl⟩

theorem Ready.execute (hc : Ready d c) (h : d.Pending (c.working.indexes i.name)) :
    (d.indexStatement i).execute c = .ok (c.change fun db => db.setIndex i.name d.final) := by
  cases d with
  | upgrade =>
    have hnone : c.working.indexes i.name = none := h
    simp [Direction.indexStatement, Statement.execute, Statement.failure, hc.autocommit,
      hc.pgTrgm rfl, hnone, Direction.final]
    rfl
  | downgrade =>
    have hsome : c.working.indexes i.name ≠ none := Option.isSome_iff_ne_none.mp h
    simp [Direction.indexStatement, Statement.execute, Statement.failure, hc.autocommit,
      hsome, Direction.final]
    rfl

/-- The indexes are worked on one by one; the others stay. -/
theorem ran_indexes (hnodup : (entries.map TrigramIndex.name).Nodup) (hc : Ready d c)
    (hpending : ∀ i ∈ entries, d.Pending (c.working.indexes i.name)) :
    ∃ c', machine.Ran (entries.map d.indexStatement) c c' ∧ Ready d c' ∧
      c'.working.revision = c.working.revision ∧
      (∀ i ∈ entries, c'.working.indexes i.name = d.final) ∧
      ∀ name ∉ entries.map TrigramIndex.name, c'.working.indexes name = c.working.indexes name := by
  induction entries generalizing c with
  | nil => exact ⟨c, Machine.ran_nil.mpr rfl, hc, rfl, by simp, fun _ _ => rfl⟩
  | cons i entries ih =>
    rw [List.map_cons, List.nodup_cons] at hnodup
    rw [List.forall_mem_cons] at hpending
    -- the entry's own name is the only one that its statement changes
    have hother : ∀ name, name ≠ i.name →
        (c.change fun db => db.setIndex i.name d.final).working.indexes name
          = c.working.indexes name := fun name hname => Function.update_of_ne hname _ _
    have hready : Ready d (c.change fun db => db.setIndex i.name d.final) := by
      refine ⟨hc.autocommit, ?_, hc.pgTrgm⟩
      simp [Connection.change, hc.autocommit]
    obtain ⟨c', hran, hready', hrevision, hfinal, hframe⟩ := ih hnodup.2 hready (by
      intro j hj
      rw [hother]
      · exact hpending.2 j hj
      · intro hname
        exact hnodup.1 (hname ▸ List.mem_map_of_mem hj))
    refine ⟨c', Machine.ran_cons.mpr ⟨_, hc.execute hpending.1, hran⟩, hready', hrevision, ?_, ?_⟩
    · rw [List.forall_mem_cons]
      refine ⟨?_, hfinal⟩
      rw [hframe _ hnodup.1]
      exact Function.update_self _ _ _
    · intro name hname
      rw [List.map_cons, List.mem_cons, not_or] at hname
      rw [hframe _ hname.2, hother _ hname.1]

theorem ran_opening (d : Direction) (db : Catalog) :
    ∃ c, machine.Ran d.opening ⟨db, db, false⟩ c ∧ Ready d c ∧
      c.working.revision = db.revision ∧ c.working.indexes = db.indexes := by
  cases d with
  | upgrade => exact ⟨_, rfl, ⟨rfl, rfl, fun _ => rfl⟩, rfl, rfl⟩
  | downgrade => exact ⟨_, rfl, ⟨rfl, rfl, nofun⟩, rfl, rfl⟩

theorem ran_closing (d : Direction) (entries : List TrigramIndex) (c : Connection) :
    machine.Ran (d.closing entries) c { c with autocommit := false } := by
  have hanalyze : ∀ c : Connection,
      machine.Ran (entries.map fun i => Statement.analyze i.table) c c := by
    intro c
    induction entries with
    | nil => exact Machine.ran_nil.mpr rfl
    | cons i entries ih => exact Machine.ran_cons.mpr ⟨c, rfl, ih⟩
  cases d with
  | upgrade => exact Machine.ran_cons.mpr ⟨_, rfl, hanalyze _⟩
  | downgrade => rfl

/-- The migration's own statements run, and everything but the stamp is durable. -/
theorem ran_body (hnodup : (entries.map TrigramIndex.name).Nodup) (h : Whole entries d db) :
    ∃ c, machine.Ran (d.body entries) ⟨db, db, false⟩ c ∧ c.autocommit = false ∧
      c.durable = c.working ∧ c.working.revision = d.source ∧
      ∀ i ∈ entries, c.working.indexes i.name = d.final := by
  obtain ⟨c₁, hopening, hready, hrevision, hindexes⟩ := ran_opening d db
  obtain ⟨c₂, hran, hready', hrevision', hfinal, -⟩ := ran_indexes hnodup hready (by
    intro i hi
    rw [hindexes]
    exact h.2 i hi)
  refine ⟨{ c₂ with autocommit := false }, ?_, rfl, hready'.durable, ?_, hfinal⟩
  · exact Machine.ran_append.mpr ⟨c₁, hopening,
      Machine.ran_append.mpr ⟨c₂, hran, ran_closing d entries c₂⟩⟩
  · exact hrevision'.trans (hrevision.trans h.1)

/-- A run to the end stamps the revision, with the indexes as it is to leave them. -/
theorem ran_script (hnodup : (entries.map TrigramIndex.name).Nodup) (h : Whole entries d db) :
    ∃ c, machine.Ran (d.script entries) ⟨db, db, false⟩ c ∧
      c.durable.revision = d.target ∧ ∀ i ∈ entries, c.durable.indexes i.name = d.final := by
  obtain ⟨c, hran, hauto, -, -, hfinal⟩ := ran_body hnodup h
  rw [Direction.script_eq]
  refine ⟨_, Machine.ran_append.mpr ⟨c, hran, rfl⟩, ?_, ?_⟩
  · rfl
  · exact hfinal

end Runs

/-! ### What statements keep -/

/-- A property of what is durable and of what the transaction sees. -/
def Both (Q : Catalog → Prop) (c : Connection) : Prop := Q c.durable ∧ Q c.working

theorem both_change {Q : Catalog → Prop} {c : Connection} {f : Catalog → Catalog}
    (h : Both Q c) (hf : Q (f c.working)) : Both Q (c.change f) := by
  refine ⟨?_, hf⟩
  unfold Connection.change
  split
  · exact hf
  · exact h.1

namespace Statement

variable {s : Statement} {c c' : Connection}

theorem effect_indexes (h : s.index = none) (db : Catalog) :
    (s.effect db).indexes = db.indexes := by
  cases s with
  | createIndex i => cases h
  | dropIndex i => cases h
  | _ => rfl

theorem effect_revision (h : ∀ r, s ≠ .stampRevision r) (db : Catalog) :
    (s.effect db).revision = db.revision := by
  cases s with
  | stampRevision r => exact absurd rfl (h r)
  | _ => rfl

theorem effect_index {i : TrigramIndex} (h : s.index = some i) (db : Catalog) :
    ∃ state, s.effect db = db.setIndex i.name state := by
  cases s with
  | createIndex j =>
    cases h
    exact ⟨_, rfl⟩
  | dropIndex j =>
    cases h
    exact ⟨_, rfl⟩
  | _ => cases h

theorem cut_done (h : s.execute c = .ok c') : s.cut .done c = c' := by
  simp [cut, h]

/-- Nothing is left of a statement that fails. -/
theorem cut_of_error {e : Exn} (h : s.execute c = .error e) (o : Outcome) : s.cut o c = c := by
  cases o <;> simp [cut, h]

/-- What a cut may leave: nothing, all, or the index of the statement, invalid. -/
theorem cut_cases (o : Outcome) (s : Statement) (c : Connection) :
    s.cut o c = c ∨ (o = .done ∧ s.execute c = .ok (s.cut o c)) ∨
      ∃ i c', o = .leftInvalid ∧ s.index = some i ∧ s.execute c = .ok c' ∧
        s.cut o c = c.change fun db => db.setIndex i.name (some .invalid) := by
  cases hs : s.execute c with
  | error e => exact Or.inl (cut_of_error hs o)
  | ok c' =>
    cases o with
    | undone => exact Or.inl rfl
    | done => exact Or.inr (Or.inl ⟨rfl, by rw [cut_done hs]⟩)
    | leftInvalid =>
      cases hindex : s.index with
      | none => exact Or.inl (by simp [cut, hs, hindex])
      | some i => exact Or.inr (Or.inr ⟨i, c', rfl, rfl, rfl, by simp [cut, hs, hindex]⟩)

/-- A statement keeps what its change of the catalog keeps. -/
theorem keeps_both {Q : Catalog → Prop}
    (heffect : ∀ c, s.failure c = none → Q c.working → Q (s.effect c.working))
    (hinvalid : ∀ c i, s.index = some i → s.failure c = none → Q c.working →
      Q (c.working.setIndex i.name (some .invalid))) : machine.Keeps (Both Q) s := by
  have hexecute : ∀ c c', Both Q c → s.execute c = .ok c' → Both Q c' := by
    intro c c' h hs
    obtain ⟨hfailure, rfl⟩ := execute_eq_ok_iff.mp hs
    have hchange := both_change h (heffect c hfailure h.2)
    cases s with
    | beginAutocommit => exact ⟨h.2, h.2⟩
    | endAutocommit => exact h
    | commit => exact ⟨h.2, h.2⟩
    | analyze table => exact h
    | _ => exact hchange
  refine ⟨hexecute, ?_⟩
  intro o c h
  show Both Q (s.cut o c)
  rcases cut_cases o s c with hcut | ⟨-, hs⟩ | ⟨i, c', -, hindex, hs, hcut⟩
  · rwa [hcut]
  · exact hexecute c _ h hs
  · rw [hcut]
    exact both_change h (hinvalid c i hindex (execute_eq_ok_iff.mp hs).1 h.2)

theorem keeps_revision (h : ∀ r, s ≠ .stampRevision r) (r : String) :
    machine.Keeps (Both fun db => db.revision = r) s := by
  apply keeps_both
  · intro c _ hr
    rwa [effect_revision h]
  · intro c i _ _ hr
    exact hr

theorem keeps_pending (h : s.index = none) (d : Direction) (entries : List TrigramIndex) :
    machine.Keeps (Both fun db => ∀ i ∈ entries, d.Pending (db.indexes i.name)) s := by
  apply keeps_both
  · intro c _ hpending
    rwa [effect_indexes h]
  · intro c i hi
    rw [h] at hi
    cases hi

/-- No statement of a run turns back to an index that is not pending. -/
theorem keeps_not_pending {d : Direction} {entries : List TrigramIndex}
    (h : s ∈ d.script entries) (name : String) :
    machine.Keeps (Both fun db => ¬d.Pending (db.indexes name)) s := by
  cases hindex : s.index with
  | none =>
    apply keeps_both
    · intro c _ hname
      rwa [effect_indexes hindex]
    · intro c i hi
      rw [hindex] at hi
      cases hi
  | some i =>
    obtain ⟨j, -, rfl⟩ := d.eq_indexStatement_of_mem h (by simp [hindex])
    -- the statement would fail on such an index, so it is about another
    have hother : ∀ c : Connection, (d.indexStatement j).failure c = none →
        ¬d.Pending (c.working.indexes name) → name ≠ j.name := by
      rintro c hc hname rfl
      apply hname
      exact (execute_indexStatement (execute_eq_ok_iff.mpr ⟨hc, rfl⟩)).1
    have hset : ∀ (c : Connection) (state : Option IndexState),
        (d.indexStatement j).failure c = none → ¬d.Pending (c.working.indexes name) →
        ¬d.Pending ((c.working.setIndex j.name state).indexes name) := by
      intro c state hc hname
      have hindexes := Function.update_of_ne (hother c hc hname) state c.working.indexes
      rwa [← hindexes] at hname
    apply keeps_both
    · intro c hc hname
      obtain ⟨state, hstate⟩ := effect_index (d.index_indexStatement j) c.working
      rw [hstate]
      exact hset c state hc hname
    · intro c i' hi' hc hname
      rw [d.index_indexStatement, Option.some.injEq] at hi'
      rw [← hi']
      exact hset c _ hc hname

end Statement

/-! ### Attempts -/

section Attempts

variable {d : Direction} {entries : List TrigramIndex} {db : Catalog} {i : TrigramIndex}
  {before after : List Statement} {s : Statement} {o : Outcome} {c : Connection}

/-- No revision is stamped before a run comes to its indexes. -/
theorem exists_split_of_mem (d : Direction) (hi : i ∈ entries) :
    ∃ before after, d.script entries = before ++ d.indexStatement i :: after ∧
      ∀ s ∈ before, s ∈ d.script entries ∧ ∀ r, s ≠ .stampRevision r := by
  obtain ⟨front, back, rfl⟩ := List.append_of_mem hi
  have hscript : d.script (front ++ i :: back) =
      (d.opening ++ front.map d.indexStatement) ++ d.indexStatement i ::
        (back.map d.indexStatement ++ d.closing (front ++ i :: back) ++
          [.stampRevision d.target, .commit]) := by
    simp [Direction.script_eq, Direction.body]
  refine ⟨_, _, hscript, ?_⟩
  intro s hs
  have hbody : s ∈ d.body (front ++ i :: back) := by
    simp only [List.mem_append] at hs
    simp only [Direction.body, List.map_append, List.mem_append]
    tauto
  refine ⟨?_, d.not_stamps_of_mem_body hbody⟩
  rw [hscript]
  exact List.mem_append_left _ hs

/-- **A broken database stays broken**: the direction that its revision asks for fails
at the index, and the other has nothing to do. -/
theorem attempt_of_broken (h : Broken entries d db) (stop : Option (Stop Outcome)) :
    (∃ e, (attempt entries ⟨d, stop⟩ db).1 = .error e) ∧
      Broken entries d (attempt entries ⟨d, stop⟩ db).2 := by
  obtain ⟨hrevision, i, hi, hpending⟩ := h
  obtain ⟨before, after, hscript, hbefore⟩ := exists_split_of_mem d hi
  have hkeeps : ∀ s ∈ before, machine.Keeps (fun c =>
      Both (fun db => db.revision = d.source) c ∧
        Both (fun db => ¬d.Pending (db.indexes i.name)) c) s := by
    intro s hs
    exact (Statement.keeps_revision (hbefore s hs).2 _).and
      (Statement.keeps_not_pending (hbefore s hs).1 _)
  have hfail : ∀ c, Both (fun db => db.revision = d.source) c ∧
      Both (fun db => ¬d.Pending (db.indexes i.name)) c →
      ∃ e, (d.indexStatement i).execute c = .error e := by
    intro c hc
    obtain ⟨-, -, hworking⟩ := hc
    cases hs : (d.indexStatement i).execute c with
    | error e => exact ⟨e, rfl⟩
    | ok c' => exact absurd (execute_indexStatement hs).1 hworking
  have hcut : ∀ o c, Both (fun db => db.revision = d.source) c ∧
      Both (fun db => ¬d.Pending (db.indexes i.name)) c →
      Both (fun db => db.revision = d.source) (machine.cut o (d.indexStatement i) c) ∧
        Both (fun db => ¬d.Pending (db.indexes i.name)) (machine.cut o (d.indexStatement i) c) := by
    intro o c hc
    obtain ⟨e, he⟩ := hfail c hc
    have hcut : machine.cut o (d.indexStatement i) c = c := Statement.cut_of_error he o
    rwa [hcut]
  have hstart : Both (fun db => db.revision = d.source) ⟨db, db, false⟩ ∧
      Both (fun db => ¬d.Pending (db.indexes i.name)) ⟨db, db, false⟩ :=
    ⟨⟨hrevision, hrevision⟩, ⟨hpending, hpending⟩⟩
  unfold attempt
  rw [if_pos hrevision, hscript]
  obtain ⟨herror, ⟨hrevision', -⟩, ⟨hpending', -⟩⟩ :=
    machine.run_blocked hkeeps hfail hcut stop hstart
  exact ⟨herror, hrevision', i, hi, hpending'⟩

/-- What a stop says about the indexes, where the statement it is at is known. -/
theorem harmless_iff (hscript : d.script entries = before ++ s :: after) :
    Attempt.Harmless entries ⟨d, some ⟨before.length, o⟩⟩ ↔
      ((∀ t ∈ before, t.index = none) ∧ ¬s.Changes o) ∨ (after = [] ∧ o = .done) := by
  have hlength : (d.script entries).length = before.length + after.length + 1 := by
    rw [hscript, List.length_append, List.length_cons]
    omega
  have hnil : before.length + 1 = (d.script entries).length ↔ after = [] := by
    rw [hlength, ← List.length_eq_zero_iff]
    omega
  have hlt : ¬(d.script entries).length ≤ before.length := by omega
  constructor
  · intro h
    rcases h _ _ rfl with ⟨htake, hget⟩ | ⟨hlast, hdone⟩ | hle
    · refine Or.inl ⟨?_, ?_⟩
      · simpa [hscript] using htake
      · simpa [hscript] using hget
    · exact Or.inr ⟨hnil.mp hlast, hdone⟩
    · exact absurd hle hlt
  · intro h k o' hstop
    simp only [Option.some.injEq, Stop.mk.injEq] at hstop
    obtain ⟨rfl, rfl⟩ := hstop
    rcases h with ⟨hbefore, hs⟩ | ⟨hafter, hdone⟩
    · refine Or.inl ⟨?_, ?_⟩
      · simpa [hscript] using hbefore
      · simpa [hscript] using hs
    · exact Or.inr (Or.inl ⟨hnil.mpr hafter, hdone⟩)

/-- Where a run can be stopped: at the commit, at the stamp, or at a statement of the
migration's own. -/
theorem position_cases (hscript : d.script entries = before ++ s :: after) :
    (before = d.body entries ++ [.stampRevision d.target] ∧ s = .commit ∧ after = []) ∨
      (before = d.body entries ∧ s = .stampRevision d.target) ∨
      ∀ t ∈ before ++ [s], t ∈ d.body entries := by
  have hsplit : before ++ s :: after
      = d.body entries ++ [.stampRevision d.target] ++ [.commit] := by
    rw [← hscript, Direction.script_eq, List.append_assoc]
    rfl
  rcases List.eq_nil_or_concat after with rfl | ⟨after, last, rfl⟩
  · obtain ⟨rfl, hlast⟩ := List.append_inj' hsplit rfl
    exact Or.inl ⟨rfl, List.singleton_inj.mp hlast, rfl⟩
  · rw [List.concat_eq_append, ← List.cons_append, ← List.append_assoc] at hsplit
    obtain ⟨hsplit, -⟩ := List.append_inj' hsplit rfl
    rcases List.eq_nil_or_concat after with rfl | ⟨after, last, rfl⟩
    · obtain ⟨rfl, hlast⟩ := List.append_inj' hsplit rfl
      exact Or.inr (Or.inl ⟨rfl, List.singleton_inj.mp hlast⟩)
    · rw [List.concat_eq_append, ← List.cons_append, ← List.append_assoc] at hsplit
      obtain ⟨hsplit, -⟩ := List.append_inj' hsplit rfl
      refine Or.inr (Or.inr ?_)
      intro t ht
      rw [← hsplit]
      rw [List.mem_append, List.mem_singleton] at ht
      rcases ht with ht | rfl
      · exact List.mem_append_left _ ht
      · simp

/-- A statement that changes which indexes there are leaves its own no longer pending. -/
theorem not_pending_of_changes {c' : Connection}
    (hexecute : (d.indexStatement i).execute c = .ok c')
    (hchanges : (d.indexStatement i).Changes o) :
    ¬d.Pending (((d.indexStatement i).cut o c).durable.indexes i.name) := by
  obtain ⟨-, hauto, hc'⟩ := execute_indexStatement hexecute
  cases o with
  | undone => cases d <;> simp [Direction.indexStatement, Statement.Changes] at hchanges
  | done =>
    rw [Statement.cut_done hexecute, hc']
    simpa [Connection.change, hauto, Catalog.setIndex] using d.not_pending_final
  | leftInvalid =>
    cases d with
    | upgrade =>
      -- the index is there, if invalid
      have hcut : (Statement.createIndex i).cut .leftInvalid c
          = c.change fun db => db.setIndex i.name (some .invalid) := by
        simp only [Direction.indexStatement] at hexecute
        simp [Statement.cut, hexecute, Statement.index]
      simp only [Direction.indexStatement, hcut]
      simp [Connection.change, hauto, Catalog.setIndex, Direction.Pending]
    | downgrade => cases hchanges

section Whole

variable (hnodup : (entries.map TrigramIndex.name).Nodup) (h : Whole entries d db)
  (hscript : d.script entries = before ++ s :: after)
  (hran : machine.Ran before ⟨db, db, false⟩ c)

include hnodup h hscript hran

/-- Short of the last commit the stamp is not durable. -/
theorem revision_of_cut (hnot : ¬(after = [] ∧ o = .done)) :
    (s.cut o c).durable.revision = d.source := by
  obtain ⟨cb, hbody, hauto, hdurable, hrevision, -⟩ := ran_body hnodup h
  have hcb : cb.durable.revision = d.source := by rw [hdurable, hrevision]
  rcases position_cases hscript with ⟨rfl, rfl, hafter⟩ | ⟨rfl, rfl⟩ | hmem
  · -- at the commit, the stamp is still in the transaction
    obtain ⟨cb', hbody', hstamp⟩ := Machine.ran_append.mp hran
    obtain rfl := hbody.unique hbody'
    obtain ⟨c', hc', hend⟩ := Machine.ran_cons.mp hstamp
    obtain rfl := Machine.ran_nil.mp hend
    have hexecute : (Statement.stampRevision d.target).execute cb = .ok c' := hc'
    have hstill : c'.durable.revision = d.source := by
      rw [← (Statement.execute_eq_ok_iff.mp hexecute).2]
      simp [Statement.apply, Connection.change, hauto, hcb]
    rcases Statement.cut_cases o .commit c' with hcut | ⟨hdone, -⟩ | ⟨i, c'', -, hi, -⟩
    · rwa [hcut]
    · exact absurd ⟨hafter, hdone⟩ hnot
    · cases hi
  · -- at the stamp, the transaction has begun
    obtain rfl := hbody.unique hran
    rcases Statement.cut_cases o (.stampRevision d.target) cb with
      hcut | ⟨-, hs⟩ | ⟨i, c', -, hi, -⟩
    · rwa [hcut]
    · rw [← (Statement.execute_eq_ok_iff.mp hs).2]
      simp [Statement.apply, Connection.change, hauto, hcb]
    · cases hi
  · -- before it, nothing stamps
    rw [List.forall_mem_append] at hmem
    have hc : Both (fun db => db.revision = d.source) c := by
      refine hran.keeps ?_ ⟨h.1, h.1⟩
      intro t ht
      exact Statement.keeps_revision (d.not_stamps_of_mem_body (hmem.1 t ht)) _
    have hs := d.not_stamps_of_mem_body (hmem.2 s (List.mem_singleton_self s))
    exact ((Statement.keeps_revision hs _).2 o c hc).1

omit hnodup in
/-- Where no index was changed, all are as they were. -/
theorem pending_of_cut (hbefore : ∀ t ∈ before, t.index = none) (hs : ¬s.Changes o) :
    ∀ i ∈ entries, d.Pending ((s.cut o c).durable.indexes i.name) := by
  have hc : Both (fun db => ∀ i ∈ entries, d.Pending (db.indexes i.name)) c := by
    refine hran.keeps ?_ ⟨h.2, h.2⟩
    intro t ht
    exact Statement.keeps_pending (hbefore t ht) d entries
  cases hindex : s.index with
  | none => exact ((Statement.keeps_pending hindex d entries).2 o c hc).1
  | some j =>
    have hmem : s ∈ d.script entries := by simp [hscript]
    obtain ⟨i, -, rfl⟩ := d.eq_indexStatement_of_mem hmem (by simp [hindex])
    rcases Statement.cut_cases o (d.indexStatement i) c with
      hcut | ⟨rfl, -⟩ | ⟨i', c', rfl, hi', -, hcut⟩
    · rw [hcut]
      exact hc.1
    · cases d <;> simp [Direction.indexStatement, Statement.Changes] at hs
    · cases d with
      | upgrade => simp [Direction.indexStatement, Statement.Changes] at hs
      | downgrade =>
        rw [hcut]
        refine (both_change hc ?_).1
        intro i hi
        -- an index left invalid is still there to be dropped
        simp only [Catalog.setIndex, Function.update_apply]
        split
        · rfl
        · exact hc.2 i hi

/-- Where an index was changed, it is no longer as it was. -/
theorem not_pending_of_cut (hchanged : ¬((∀ t ∈ before, t.index = none) ∧ ¬s.Changes o)) :
    ∃ i ∈ entries, ¬d.Pending ((s.cut o c).durable.indexes i.name) := by
  have hmem : ∀ t ∈ before, t ∈ d.script entries := by
    intro t ht
    rw [hscript]
    exact List.mem_append_left _ ht
  have hs : s ∈ d.script entries := by simp [hscript]
  by_cases hbefore : ∀ t ∈ before, t.index = none
  · have hchanges : s.Changes o := by
      by_contra hnot
      exact hchanged ⟨hbefore, hnot⟩
    have hindex : s.index ≠ none := by
      cases s <;> simp [Statement.Changes, Statement.index] at hchanges ⊢
    obtain ⟨i, hi, rfl⟩ := d.eq_indexStatement_of_mem hs hindex
    -- the run goes on from here, so the statement can be executed
    obtain ⟨cf, hfull, -⟩ := ran_script hnodup h
    rw [hscript] at hfull
    obtain ⟨c₂, hexecute, -⟩ := hfull.next hran
    exact ⟨i, hi, not_pending_of_changes hexecute hchanges⟩
  · push Not at hbefore
    obtain ⟨t, ht, hindex⟩ := hbefore
    obtain ⟨i, hi, rfl⟩ := d.eq_indexStatement_of_mem (hmem t ht) hindex
    have hkeeps : ∀ t ∈ before,
        machine.Keeps (Both fun db => ¬d.Pending (db.indexes i.name)) t := by
      intro t ht
      exact Statement.keeps_not_pending (hmem t ht) _
    have hc := hran.of_mem hkeeps ht (by
      intro c c' hexecute
      obtain ⟨-, hauto, rfl⟩ := execute_indexStatement hexecute
      have hfinal := d.not_pending_final
      exact ⟨by simpa [Connection.change, hauto, Catalog.setIndex] using hfinal,
        by simpa [Connection.change, Catalog.setIndex] using hfinal⟩)
    exact ⟨i, hi, ((Statement.keeps_not_pending hs _).2 o c hc).1⟩

end Whole

/-! ### Whole databases -/

section

variable (hnodup : (entries.map TrigramIndex.name).Nodup) (h : Whole entries d db)

include hnodup h

/-- A run to the end leaves the database whole, at the other revision. -/
theorem whole_of_ran (hran : machine.Ran (d.script entries) ⟨db, db, false⟩ c) :
    Whole entries d.opposite c.durable := by
  obtain ⟨c', hran', hrevision, hfinal⟩ := ran_script hnodup h
  obtain rfl := hran.unique hran'
  refine ⟨hrevision.trans d.source_opposite.symm, ?_⟩
  intro i hi
  rw [hfinal i hi]
  exact d.pending_opposite_final

/-- **An attempt on a whole database** leaves it whole if it is harmless, and broken
otherwise. -/
theorem attempt_of_whole (stop : Option (Stop Outcome)) :
    (Attempt.Harmless entries ⟨d, stop⟩ ∧
        ∃ d', Whole entries d' (attempt entries ⟨d, stop⟩ db).2) ∨
      (¬Attempt.Harmless entries ⟨d, stop⟩ ∧
        Broken entries d (attempt entries ⟨d, stop⟩ db).2) := by
  obtain ⟨c, hfull, -⟩ := ran_script hnodup h
  unfold attempt
  rw [if_pos h.1]
  rcases machine.run_cases (d.script entries) stop ⟨db, db, false⟩ with
    ⟨c', hran, hrun, hlate⟩ | ⟨before, s, after, o, c', hscript, rfl, hran, hrun⟩ |
    ⟨before, s, after, c', e, hscript, hran, hfail, hrun⟩
  · -- the attempt was not stopped in time
    refine Or.inl ⟨?_, d.opposite, ?_⟩
    · intro k o hstop
      exact Or.inr (Or.inr (hlate k o hstop))
    · rw [hrun]
      exact whole_of_ran hnodup h hran
  · rw [hrun, harmless_iff hscript]
    show _ ∧ (∃ d', Whole entries d' (s.cut o c').durable) ∨
      _ ∧ Broken entries d (s.cut o c').durable
    by_cases hlast : after = [] ∧ o = .done
    · -- it was stopped when all was committed
      obtain ⟨rfl, rfl⟩ := hlast
      refine Or.inl ⟨Or.inr ⟨rfl, rfl⟩, d.opposite, ?_⟩
      obtain ⟨c₂, hexecute, hend⟩ := (hscript ▸ hfull).next hran
      obtain rfl := Machine.ran_nil.mp hend
      have hexecute : s.execute c' = .ok c₂ := hexecute
      rw [Statement.cut_done hexecute]
      exact whole_of_ran hnodup h hfull
    · have hrevision := revision_of_cut hnodup h hscript hran hlast
      by_cases hunchanged : (∀ t ∈ before, t.index = none) ∧ ¬s.Changes o
      · exact Or.inl ⟨Or.inl hunchanged, d, hrevision,
          pending_of_cut h hscript hran hunchanged.1 hunchanged.2⟩
      · refine Or.inr ⟨?_, hrevision, not_pending_of_cut hnodup h hscript hran hunchanged⟩
        intro hharmless
        rcases hharmless with hnot | hnot
        · exact hunchanged hnot
        · exact hlast hnot
  · -- no statement of the whole run fails
    rw [hscript] at hfull
    obtain ⟨c₂, hexecute, -⟩ := hfull.next hran
    rw [hfail] at hexecute
    cases hexecute

theorem completes_of_whole : Completes entries db := by
  intro d' hd'
  obtain rfl := d.source_injective (h.1.symm.trans hd')
  obtain ⟨c, hran, -, hfinal⟩ := ran_script hnodup h
  unfold attempt
  unfold Machine.Ran at hran
  rw [if_pos h.1]
  rw [hran]
  exact ⟨rfl, hfinal⟩

end

theorem not_completes_of_broken (h : Broken entries d db) : ¬Completes entries db := by
  intro hcompletes
  obtain ⟨⟨e, he⟩, -⟩ := attempt_of_broken h none
  have hok := (hcompletes d h.1).1
  rw [he] at hok
  cases hok

/-- At another revision an attempt does nothing. -/
theorem attempt_of_revision_ne {a : Attempt} (h : db.revision ≠ a.direction.source) :
    attempt entries a db = (.ok (), db) := if_neg h

/-- **A broken database stays broken**, whatever is attempted. -/
theorem attempts_of_broken (h : Broken entries d db) (as : List Attempt) :
    Broken entries d (attempts entries as db) := by
  induction as generalizing db with
  | nil => exact h
  | cons a as ih =>
    have hattempt : Broken entries d (attempt entries a db).2 := by
      by_cases hrevision : db.revision = a.direction.source
      · obtain rfl := d.source_injective (h.1.symm.trans hrevision)
        exact (attempt_of_broken h a.stop).2
      · rwa [attempt_of_revision_ne hrevision]
    exact ih hattempt

/-- **Attempts on a whole database** leave it whole if none disturbed it, and broken
otherwise. -/
theorem attempts_of_whole (hnodup : (entries.map TrigramIndex.name).Nodup)
    (h : Whole entries d db) (as : List Attempt) :
    (Undisturbed entries db as ∧ ∃ d', Whole entries d' (attempts entries as db)) ∨
      (¬Undisturbed entries db as ∧ ∃ d', Broken entries d' (attempts entries as db)) := by
  induction as generalizing d db with
  | nil => exact Or.inl ⟨trivial, d, h⟩
  | cons a as ih =>
    by_cases hrevision : db.revision = a.direction.source
    · obtain rfl := d.source_injective (h.1.symm.trans hrevision)
      rcases attempt_of_whole hnodup h a.stop with ⟨hharmless, d', hwhole⟩ | ⟨hharmful, hbroken⟩
      · rcases ih hwhole with ⟨hundisturbed, hrest⟩ | ⟨hdisturbed, hrest⟩
        · exact Or.inl ⟨⟨fun _ => hharmless, hundisturbed⟩, hrest⟩
        · exact Or.inr ⟨fun hnot => hdisturbed hnot.2, hrest⟩
      · exact Or.inr ⟨fun hnot => hharmful (hnot.1 hrevision), _, attempts_of_broken hbroken as⟩
    · have hattempt : attempt entries a db = (.ok (), db) := attempt_of_revision_ne hrevision
      have hundisturbed : Undisturbed entries db (a :: as) ↔ Undisturbed entries db as := by
        simp [Undisturbed, hrevision, hattempt]
      have hattempts : attempts entries (a :: as) db = attempts entries as db := by
        simp [attempts, hattempt]
      rw [hundisturbed, hattempts]
      exact ih h

end Attempts

/-! ### Completing the migration -/

/-- **The migration can be completed just where it has never been stopped half-way**,
and its indexes were not there to begin with. -/
theorem completes_iff (entries : List TrigramIndex)
    (hnodup : (entries.map TrigramIndex.name).Nodup) (db : Catalog)
    (hrevision : db.revision = downRevision) (as : List Attempt) :
    Completes entries (attempts entries as db) ↔
      (∀ i ∈ entries, db.indexes i.name = none) ∧ Undisturbed entries db as := by
  by_cases hnone : ∀ i ∈ entries, db.indexes i.name = none
  · have hwhole : Whole entries .upgrade db := ⟨hrevision, hnone⟩
    rw [and_iff_right hnone]
    rcases attempts_of_whole hnodup hwhole as with
      ⟨hundisturbed, d, hend⟩ | ⟨hdisturbed, d, hend⟩
    · exact iff_of_true (completes_of_whole hnodup hend) hundisturbed
    · exact iff_of_false (not_completes_of_broken hend) hdisturbed
  · have hbroken : Broken entries .upgrade db := by
      refine ⟨hrevision, ?_⟩
      push Not at hnone
      exact hnone
    exact iff_of_false (not_completes_of_broken (attempts_of_broken hbroken as))
      fun h => hnone h.1

/-- A database without any index, at the revision before the migration. -/
def freshCatalog : Catalog where
  indexes := fun _ => none
  pgTrgm := false
  revision := downRevision

/-- An upgrade that was stopped while it built the second index. -/
def stoppedUpgrade : Attempt := ⟨.upgrade, some ⟨3, .leftInvalid⟩⟩

theorem completes_iff_stoppedUpgrade :
    Completes trigramIndexes (attempts trigramIndexes [stoppedUpgrade] freshCatalog) ↔
      (∀ i ∈ trigramIndexes, freshCatalog.indexes i.name = none) ∧
        Undisturbed trigramIndexes freshCatalog [stoppedUpgrade] :=
  completes_iff trigramIndexes (by decide) freshCatalog rfl [stoppedUpgrade]

/-- The first index is there already when the upgrade is tried again. -/
theorem stoppedUpgrade_not_completes :
    ¬Completes trigramIndexes (attempts trigramIndexes [stoppedUpgrade] freshCatalog) := by
  intro h
  have hagain : (attempt trigramIndexes ⟨.upgrade, none⟩
      (attempts trigramIndexes [stoppedUpgrade] freshCatalog)).1
        = .error (.other "ProgrammingError") := rfl
  have hok := (h .upgrade rfl).1
  rw [hagain] at hok
  cases hok

end Migration
end SnapSearch
