import SnapSearch.Lib.Uuid
import SnapSearch.Python
import SnapSearch.Text

/-!
# Tables

The rows of `app/models`, the tables that hold them, and the server they live on.
A row has the types its columns are mapped to; a table has a primary key.

The generated columns of the audit log, its id and its timestamp, are left out:
no code reads them.

## Main definitions

* `AnalyticsReport`, `InvestigatorEntity`, `CaseManagerCase` — the rows searched.
* `SearchAuditLog` — an audit row as the service builds it.
* `AuditRow`, `SearchAuditLog.store` — the row as the table holds it, and what
  the columns accept.
* `Database` — the searched tables and the settings of their server.
* `Paginated` — the apps that list the rows of a table.
-/

namespace SnapSearch

/-! ### Instants and local time -/

/-- A `timestamptz`: microseconds since the epoch, in UTC. -/
@[ext]
structure Timestamp where
  micros : ℤ
  deriving DecidableEq

/-- A time zone: how many seconds local time is ahead of UTC at an instant. -/
structure TimeZone where
  offset : Timestamp → ℤ

/-- A date and time of day without a zone. -/
structure LocalTime where
  year : ℤ
  month : ℤ
  day : ℤ
  micros : ℤ
  deriving DecidableEq

/-- The proleptic Gregorian date of a day counted from 1970-01-01. -/
def civilOfDays (days : ℤ) : ℤ × ℤ × ℤ :=
  -- days from 0000-03-01, in eras of 400 years; a year starts in March
  let z := days + 719468
  let era := z / 146097
  let doe := z % 146097
  let yoe := (doe - doe / 1460 + doe / 36524 - doe / 146096) / 365
  let doy := doe - (365 * yoe + yoe / 4 - yoe / 100)
  let mp := (5 * doy + 2) / 153
  let month := if mp < 10 then mp + 3 else mp - 9
  (yoe + era * 400 + (if month ≤ 2 then 1 else 0), month, doy - (153 * mp + 2) / 5 + 1)

theorem civilOfDays_month (days : ℤ) :
    1 ≤ (civilOfDays days).2.1 ∧ (civilOfDays days).2.1 ≤ 12 := by
  have hnonneg : 0 ≤ (days + 719468) % 146097 := Int.emod_nonneg _ (by decide)
  have hlt : (days + 719468) % 146097 < 146097 := Int.emod_lt_of_pos _ (by decide)
  simp only [civilOfDays]
  generalize (days + 719468) % 146097 = doe at *
  split <;> omega

/-- The local time of an instant. -/
def TimeZone.localTime (tz : TimeZone) (t : Timestamp) : LocalTime :=
  let micros := t.micros + tz.offset t * 1000000
  let date := civilOfDays (micros / 86400000000)
  { year := date.1, month := date.2.1, day := date.2.2, micros := micros % 86400000000 }

example : (TimeZone.localTime ⟨fun _ => 0⟩ ⟨1769904000000000⟩) = ⟨2026, 2, 1, 0⟩ := by decide

/-! ### Rows -/

structure AnalyticsReport where
  id : Uuid
  title : String
  content : String
  createdAt : Timestamp
  deriving DecidableEq

structure InvestigatorEntity where
  id : Uuid
  type : String
  name : String
  /-- The `jsonb` column, mapped to `dict[str, Any]`. -/
  data : List (String × Json)
  createdAt : Timestamp

structure CaseManagerCase where
  id : Uuid
  title : String
  assignedTo : Uuid
  status : String
  createdAt : Timestamp
  deriving DecidableEq

/-- A table: its rows, with the primary key as a field. -/
structure Table (ρ : Type) (key : ρ → Uuid) where
  rows : List ρ
  nodup : (rows.map key).Nodup

namespace Table

variable {ρ : Type} {key : ρ → Uuid}

/-- The empty table. -/
def empty : Table ρ key := ⟨[], List.nodup_nil⟩

/-- Insert a row whose key is new. -/
def insert (t : Table ρ key) (r : ρ) (h : key r ∉ t.rows.map key) : Table ρ key :=
  ⟨t.rows ++ [r], by
    rw [List.map_append, List.nodup_append]
    refine ⟨t.nodup, by simp, ?_⟩
    intro a ha b hb hab
    simp only [List.map_cons, List.map_nil, List.mem_singleton] at hb
    exact h (by rw [← hb, ← hab]; exact ha)⟩

end Table

/-! ### The audit log -/

/-- The `SearchAuditLog` object the service builds; `userId` is still a text. -/
structure SearchAuditLog where
  userId : String
  app : Option String
  originApp : String
  query : String
  resultsCount : Option ℕ
  status : String
  deriving DecidableEq, Repr

/-- A row of `search_audit_log`. -/
structure AuditRow where
  userId : Uuid
  app : Option String
  originApp : String
  query : String
  resultsCount : Option ℕ
  status : String
  deriving DecidableEq

/-- Text the driver can send: everything but U+0000. -/
def Storable (text : String) : Prop := Char.ofNat 0 ∉ text.toList

instance (text : String) : Decidable (Storable text) := inferInstanceAs (Decidable (¬ _))

/-- The largest value of an `integer` column. -/
def maxInteger : ℕ := 2147483647

/-- What the columns of `search_audit_log` accept. -/
def SearchAuditLog.store (row : SearchAuditLog) : Except Exn AuditRow :=
  if ¬ (Storable row.originApp ∧ Storable row.query ∧ ∀ app ∈ row.app, Storable app) then
    .error (.dataError "PostgreSQL text fields cannot contain NUL (0x00) bytes")
  else if ∃ count ∈ row.resultsCount, maxInteger < count then
    .error (.dataError "integer out of range")
  else if row.status ≠ "ok" ∧ row.status ≠ "denied" then
    .error (.integrityError "ck_search_audit_log_status")
  else match Uuid.pgIn row.userId with
    | none => .error (.dataError "invalid input syntax for type uuid")
    | some userId =>
        .ok { userId, app := row.app, originApp := row.originApp, query := row.query,
              resultsCount := row.resultsCount, status := row.status }

/-- A stored row holds what was sent, with the UUID that its user id denotes. -/
theorem SearchAuditLog.store_eq_ok {row : SearchAuditLog} {stored : AuditRow}
    (h : row.store = .ok stored) :
    Uuid.pgIn row.userId = some stored.userId ∧ stored.app = row.app ∧
      stored.originApp = row.originApp ∧ stored.query = row.query ∧
      stored.resultsCount = row.resultsCount ∧ stored.status = row.status := by
  unfold store at h
  split at h
  · cases h
  · split at h
    · cases h
    · split at h
      · cases h
      · split at h
        · cases h
        · next hid =>
          cases h
          exact ⟨hid, rfl, rfl, rfl, rfl, rfl⟩

/-- Which rows the columns take. -/
theorem SearchAuditLog.exists_store_eq_ok_iff {row : SearchAuditLog} :
    (∃ stored, row.store = .ok stored) ↔
      (Storable row.originApp ∧ Storable row.query ∧ ∀ app ∈ row.app, Storable app) ∧
        (∀ count ∈ row.resultsCount, count ≤ maxInteger) ∧
        (row.status = "ok" ∨ row.status = "denied") ∧ (Uuid.pgIn row.userId).isSome := by
  unfold store
  split
  · next htext => exact iff_of_false (by rintro ⟨_, ⟨⟩⟩) fun h => htext h.1
  · next htext =>
    rw [not_not] at htext
    split
    · next hcount =>
      obtain ⟨count, hmem, hlt⟩ := hcount
      exact iff_of_false (by rintro ⟨_, ⟨⟩⟩) fun h => absurd (h.2.1 count hmem) (by omega)
    · next hcount =>
      have hle : ∀ count ∈ row.resultsCount, count ≤ maxInteger :=
        fun count hmem => not_lt.mp fun hlt => hcount ⟨count, hmem, hlt⟩
      split
      · next hstatus => exact iff_of_false (by rintro ⟨_, ⟨⟩⟩) fun h => by tauto
      · next hstatus =>
        have hok : row.status = "ok" ∨ row.status = "denied" := by tauto
        split
        · next hid => exact iff_of_false (by rintro ⟨_, ⟨⟩⟩) fun h => by simp [hid] at h
        · next u hid => exact iff_of_true ⟨_, rfl⟩ ⟨htext, hle, hok, by simp [hid]⟩

/-! ### The database -/

/-- The settings of a server that the queries depend on: how its locale folds
case, and the time zone of its sessions. -/
structure Server where
  caseFold : Like.CaseFold likeEscapeChar
  timeZone : TimeZone

/-- ASCII letters fold to lower case, and everything else stays. -/
def asciiFold (c : Char) : Char :=
  if 65 ≤ c.toNat ∧ c.toNat ≤ 90 then Char.ofNat (c.toNat + 32) else c

/-- Between the letters of the two cases lie none of the special characters. -/
theorem asciiFold_notMem {c : Char} (h : 65 ≤ c.toNat ∧ c.toNat ≤ 90) :
    asciiFold c ∉ Like.special likeEscapeChar := by
  have hall : ∀ n ∈ List.range 26, Char.ofNat (65 + n + 32) ∉ Like.special likeEscapeChar := by
    decide
  have := hall (c.toNat - 65) (List.mem_range.mpr (by omega))
  rw [asciiFold, if_pos h, show c.toNat + 32 = 65 + (c.toNat - 65) + 32 by omega]
  exact this

/-- A server that folds ASCII letters only, in UTC. -/
def Server.posix : Server where
  caseFold :=
    { fold := asciiFold
      fixes := by
        intro c hc
        simp only [Like.special, List.mem_cons, List.not_mem_nil, or_false] at hc
        rcases hc with rfl | rfl | rfl <;> rfl
      reflects := by
        intro c hc
        by_cases h : 65 ≤ c.toNat ∧ c.toNat ≤ 90
        · exact absurd hc (asciiFold_notMem h)
        · rwa [asciiFold, if_neg h] at hc }
  timeZone := ⟨fun _ => 0⟩

/-- The searched tables, on a server. -/
structure Database where
  server : Server
  analyticsReports : Table AnalyticsReport AnalyticsReport.id
  investigatorEntities : Table InvestigatorEntity InvestigatorEntity.id
  caseManagerCases : Table CaseManagerCase CaseManagerCase.id

/-- A small database: two entities that may be found and one of another type, a
case and a report. -/
def Database.small : Database where
  server := .posix
  analyticsReports := ⟨[⟨⟨5, by decide⟩, "Resumo", "plano anual", ⟨1769904000000000⟩⟩], by decide⟩
  investigatorEntities :=
    ⟨[⟨⟨1, by decide⟩, "pessoa", "Ana", [], ⟨1769904000000000⟩⟩,
      ⟨⟨2, by decide⟩, "empresa", "Andrade", [], ⟨1769904000000000⟩⟩,
      ⟨⟨3, by decide⟩, "veiculo", "Van", [], ⟨1769904000000000⟩⟩], by decide⟩
  caseManagerCases :=
    ⟨[⟨⟨4, by decide⟩, "Santana", ⟨7, by decide⟩, "aberto", ⟨1769904000000000⟩⟩], by decide⟩

/-! ### The tables that are listed -/

/-- The apps whose sections list rows, page by page. -/
inductive Paginated
  | investigator
  | caseManager
  deriving DecidableEq

namespace Paginated

/-- The rows such an app lists. -/
abbrev Row : Paginated → Type
  | investigator => InvestigatorEntity
  | caseManager => CaseManagerCase

/-- Their primary key. -/
def id : (app : Paginated) → app.Row → Uuid
  | investigator => InvestigatorEntity.id
  | caseManager => CaseManagerCase.id

end Paginated

namespace Database

variable (db : Database)

/-- The table an app lists. -/
def table : (app : Paginated) → Table app.Row app.id
  | .investigator => db.investigatorEntities
  | .caseManager => db.caseManagerCases

/-- The database with another table for an app. -/
def withTable : (app : Paginated) → Table app.Row app.id → Database
  | .investigator, t => { db with investigatorEntities := t }
  | .caseManager, t => { db with caseManagerCases := t }

@[simp] theorem table_withTable (app : Paginated) (t : Table app.Row app.id) :
    (db.withTable app t).table app = t := by
  cases app <;> rfl

@[simp] theorem server_withTable (app : Paginated) (t : Table app.Row app.id) :
    (db.withTable app t).server = db.server := by
  cases app <;> rfl

end Database

end SnapSearch
