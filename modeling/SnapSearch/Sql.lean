import Mathlib.Algebra.BigOperators.Group.List.Lemmas
import Mathlib.Data.List.Sort
import Mathlib.Data.List.Dedup
import Mathlib.Data.String.Basic
import SnapSearch.Models

/-!
# Statements

The `SELECT` statements the strategies build, and what PostgreSQL makes of them.
A statement is a value: clauses are added to it in any order before it runs, and
it always filters first, then sorts, then cuts.

## Main definitions

* `Condition` — a condition of a `WHERE` clause, with its bound values.
* `Select`, `Select.execute` — a statement that lists rows.
* `CountByMonth`, `CountByMonth.execute` — a statement that counts rows by month.

## Main results

* `Condition.check_ilike_likePattern`, `Condition.holds_ilike_likePattern` — what
  becomes of a search term.
* `groupCount_perm` — counting does not depend on the order of the rows.
-/

namespace SnapSearch

/-! ### Conditions -/

/-- A condition on a row, with the values bound to it. -/
inductive Condition (ρ : Type)
  /-- `column IN (values)`. -/
  | isIn (column : ρ → String) (values : List String)
  /-- `column ILIKE pattern ESCAPE '\'`. -/
  | ilike (column : ρ → String) (pattern : String)
  /-- `column = value` on a `uuid` column, the value sent as a text. -/
  | uuidEq (column : ρ → Uuid) (value : String)
  /-- `column > value` on a `uuid` column. -/
  | uuidGt (column : ρ → Uuid) (value : Uuid)

namespace Condition

variable {ρ : Type} (srv : Server)

/-- What the driver and the server check of the bound values. -/
def check : Condition ρ → Except Exn Unit
  | isIn _ values =>
      if ∀ value ∈ values, Storable value then .ok ()
      else .error (.dataError "PostgreSQL text fields cannot contain NUL (0x00) bytes")
  | ilike _ pattern =>
      if ¬ Storable pattern then
        .error (.dataError "PostgreSQL text fields cannot contain NUL (0x00) bytes")
      else match Like.compile likeEscapeChar (pattern.toList.map srv.caseFold.fold) with
        | .ok _ => .ok ()
        | .error _ => .error (.dataError "LIKE pattern must not end with escape character")
  | uuidEq _ value =>
      match Uuid.pgIn value with
      | some _ => .ok ()
      | none => .error (.dataError "invalid input syntax for type uuid")
  | uuidGt _ _ => .ok ()

/-- Whether a row satisfies the condition. -/
def holds : Condition ρ → ρ → Bool
  | isIn column values, r => column r ∈ values
  | ilike column pattern, r =>
      match Like.ilike srv.caseFold (column r).toList pattern.toList with
      | .ok b => b
      | .error _ => false
  | uuidEq column value, r => Uuid.pgIn value = some (column r)
  | uuidGt column value, r => value < column r

/-- The check of a `WHERE` clause: the first refused value is reported. -/
def checkAll : List (Condition ρ) → Except Exn Unit
  | [] => .ok ()
  | c :: cs =>
      match c.check srv with
      | .ok () => checkAll cs
      | .error e => .error e

/-- A row satisfies a `WHERE` clause where it satisfies each condition. -/
def holdsAll (cs : List (Condition ρ)) (r : ρ) : Bool := cs.all fun c => c.holds srv r

variable {srv}

@[simp] theorem checkAll_nil : checkAll srv ([] : List (Condition ρ)) = .ok () := rfl

theorem checkAll_cons (c : Condition ρ) (cs : List (Condition ρ)) :
    checkAll srv (c :: cs) =
      match c.check srv with
      | .ok () => checkAll srv cs
      | .error e => .error e := rfl

/-- A clause is accepted where each of its conditions is. -/
theorem checkAll_eq_ok_iff {cs : List (Condition ρ)} :
    checkAll srv cs = .ok () ↔ ∀ c ∈ cs, c.check srv = .ok () := by
  induction cs with
  | nil => simp
  | cons c cs ih =>
    rw [List.forall_mem_cons, ← ih, checkAll_cons]
    cases c.check srv with
    | ok u => simp
    | error e => simp

theorem checkAll_append {cs ds : List (Condition ρ)} (h : ∀ d ∈ ds, d.check srv = .ok ()) :
    checkAll srv (cs ++ ds) = checkAll srv cs := by
  induction cs with
  | nil => exact checkAll_eq_ok_iff.mpr h
  | cons c cs ih => rw [List.cons_append, checkAll_cons, checkAll_cons, ih]

/-- A refused value is a data error. -/
theorem internal_of_checkAll {cs : List (Condition ρ)} {e : Exn}
    (h : checkAll srv cs = .error e) : e.Internal := by
  induction cs with
  | nil => cases h
  | cons c cs ih =>
    rw [checkAll_cons] at h
    split at h
    · exact ih h
    · next herror =>
      cases h
      cases c with
      | isIn column values =>
        rw [check] at herror
        split at herror <;> cases herror
        trivial
      | ilike column pattern =>
        rw [check] at herror
        split at herror
        · cases herror
          trivial
        · split at herror <;> cases herror
          trivial
      | uuidEq column value =>
        rw [check] at herror
        split at herror <;> cases herror
        trivial
      | uuidGt column value => cases herror

/-! The two conditions that carry user input -/

theorem storable_likePattern {term : String} : Storable (likePattern term) ↔ Storable term := by
  -- escaping adds backslashes only
  have hmem : Char.ofNat 0 ∈ Like.escape likeEscapeChar term.toList ↔
      Char.ofNat 0 ∈ term.toList := by
    rw [Like.escape, List.mem_flatMap]
    constructor
    · rintro ⟨c, hc, h⟩
      split at h
      · simp only [List.mem_cons, List.not_mem_nil, or_false] at h
        rcases h with h | h
        · exact absurd h (by decide)
        · exact h ▸ hc
      · exact List.mem_singleton.mp h ▸ hc
    · intro h
      exact ⟨_, h, by simp [Like.special, likeEscapeChar]⟩
  have h1 : Char.ofNat 0 ≠ '%' := by decide
  simp [Storable, toList_likePattern, hmem, h1]

/-- The pattern of a term is refused only for a character the driver cannot send. -/
theorem check_ilike_likePattern (column : ρ → String) (term : String) :
    (ilike column (likePattern term)).check srv =
      if Storable term then .ok ()
      else .error (.dataError "PostgreSQL text fields cannot contain NUL (0x00) bytes") := by
  rw [check, compile_map_likePattern]
  by_cases h : Storable term <;> simp [storable_likePattern, h]

theorem holds_ilike_likePattern (column : ρ → String) (term : String) (r : ρ) :
    (ilike column (likePattern term)).holds srv r = true ↔
      term.toList.map srv.caseFold.fold <:+: (column r).toList.map srv.caseFold.fold := by
  rw [holds, Like.ilike, Like.like, compile_map_likePattern]
  exact Like.matchTokens_contains _ _

theorem check_uuidEq_eq_ok_iff {column : ρ → Uuid} {value : String} :
    (uuidEq column value).check srv = .ok () ↔ (Uuid.pgIn value).isSome := by
  rw [check]
  cases Uuid.pgIn value <;> simp

end Condition

/-! ### Listing rows -/

/-- `select(…)`: the conditions of the `WHERE` clause, joined by `AND`, and the
clauses after it. -/
structure Select (ρ : Type) where
  conditions : List (Condition ρ) := []
  orderColumn : Option (ρ → Uuid) := none
  limitCount : Option ℕ := none

namespace Select

variable {ρ : Type}

/-- `.where(…)`. -/
def whereAll (stmt : Select ρ) (conditions : List (Condition ρ)) : Select ρ :=
  { stmt with conditions := stmt.conditions ++ conditions }

/-- `.order_by(…)`. -/
def orderBy (stmt : Select ρ) (column : ρ → Uuid) : Select ρ :=
  { stmt with orderColumn := some column }

/-- `.limit(…)`. -/
def limit (stmt : Select ρ) (count : ℕ) : Select ρ := { stmt with limitCount := some count }

/-- Run the statement over the rows of a table. -/
def execute (srv : Server) (stmt : Select ρ) (rows : List ρ) : Except Exn (List ρ) :=
  (Condition.checkAll srv stmt.conditions).map fun _ =>
    let found := rows.filter (Condition.holdsAll srv stmt.conditions)
    let sorted := match stmt.orderColumn with
      | none => found
      | some column => found.insertionSort fun a b => column a ≤ column b
    match stmt.limitCount with
    | none => sorted
    | some count => sorted.take count

end Select

/-! ### Counting by month -/

/-- The rows a condition keeps, counted by the month of a column: `SELECT
to_char(date_trunc('month', column), 'YYYY-MM'), count(*) … GROUP BY 1 ORDER BY 1`. -/
structure CountByMonth (ρ : Type) where
  conditions : List (Condition ρ)
  column : ρ → Timestamp

/-- `date_trunc('month', …)` on local time. -/
def dateTruncMonth (t : LocalTime) : LocalTime := { t with day := 1, micros := 0 }

/-- `to_char(…, 'YYYY-MM')`: four digits at least, and years before our era by
their absolute value. -/
def toCharMonth (t : LocalTime) : String :=
  let year := if t.year ≤ 0 then 1 - t.year else t.year
  String.ofList (PyStr.zeroPad 4 year.toNat ++ '-' :: PyStr.zeroPad 2 t.month.toNat)

/-- The label of the month an instant falls in, by the server's time zone. -/
def Server.monthLabel (srv : Server) (t : Timestamp) : String :=
  toCharMonth (dateTruncMonth (srv.timeZone.localTime t))

/-- `GROUP BY label ORDER BY label`, with the size of each group. -/
def groupCount (labels : List String) : List (String × ℕ) :=
  (labels.dedup.insertionSort (· ≤ ·)).map fun label => (label, labels.count label)

/-- The counts depend on the labels as a multiset only. -/
theorem groupCount_perm {l l' : List String} (h : l.Perm l') : groupCount l = groupCount l' := by
  -- a sorted list is determined by its elements
  have hsort : l.dedup.insertionSort (· ≤ ·) = l'.dedup.insertionSort (· ≤ ·) := by
    refine List.Perm.eq_of_pairwise' (List.pairwise_insertionSort _ _)
      (List.pairwise_insertionSort _ _) ?_
    exact (List.perm_insertionSort _ _).trans (h.dedup.trans (List.perm_insertionSort _ _).symm)
  rw [groupCount, groupCount, hsort]
  apply List.map_congr_left
  intro label _
  rw [h.count_eq]

/-- Each label is counted once, and every row is in one count. -/
theorem nodup_groupCount (labels : List String) : ((groupCount labels).map Prod.fst).Nodup := by
  rw [groupCount, List.map_map]
  simpa [Function.comp_def] using
    (List.perm_insertionSort (· ≤ ·) labels.dedup).nodup_iff.mpr labels.nodup_dedup

theorem sum_groupCount (labels : List String) :
    ((groupCount labels).map Prod.snd).sum = labels.length := by
  rw [groupCount, List.map_map, ← List.sum_map_count_dedup_eq_length labels]
  exact ((List.perm_insertionSort (· ≤ ·) labels.dedup).map _).sum_eq

theorem mem_groupCount {labels : List String} {label : String} {count : ℕ} :
    (label, count) ∈ groupCount labels ↔ label ∈ labels ∧ count = labels.count label := by
  simp only [groupCount, List.mem_map, Prod.mk.injEq]
  constructor
  · rintro ⟨label', hmem, rfl, rfl⟩
    rw [List.mem_insertionSort, List.mem_dedup] at hmem
    exact ⟨hmem, rfl⟩
  · rintro ⟨hmem, rfl⟩
    refine ⟨label, ?_, rfl, rfl⟩
    rw [List.mem_insertionSort, List.mem_dedup]
    exact hmem

/-- The labels come in their order, each once. -/
theorem pairwise_groupCount (labels : List String) :
    (groupCount labels).Pairwise fun x y => x.1 < y.1 := by
  have hsorted : ((groupCount labels).map Prod.fst).Pairwise (· ≤ ·) := by
    rw [groupCount, List.map_map]
    simpa [Function.comp_def] using List.pairwise_insertionSort (· ≤ ·) labels.dedup
  have hlt := hsorted.and (nodup_groupCount labels)
  rw [List.pairwise_map] at hlt
  refine hlt.imp ?_
  rintro x y ⟨hle, hne⟩
  exact lt_of_le_of_ne hle hne

namespace CountByMonth

variable {ρ : Type}

/-- Run the statement over the rows of a table. -/
def execute (srv : Server) (stmt : CountByMonth ρ) (rows : List ρ) :
    Except Exn (List (String × ℕ)) :=
  (Condition.checkAll srv stmt.conditions).map fun _ =>
    groupCount ((rows.filter (Condition.holdsAll srv stmt.conditions)).map fun r =>
      srv.monthLabel (stmt.column r))

end CountByMonth

end SnapSearch
