import Mathlib.Data.List.Basic
import SnapSearch.Lib.PyStr

/-!
# Values and exceptions

The Python values the service handles that are not its own: decoded JSON,
dictionaries, and the exceptions its code raises or lets through.

A dictionary is the list of its items in insertion order; a JSON object is one
whose keys are texts.

## Main definitions

* `Json` — what `json.loads` gives.
* `setItem`, `dictOf` — `d[key] = value`, and a dictionary built item by item.
* `FieldError` — one entry of a request validation error.
* `Exn`, `Exn.status` — the exceptions, and the status the application answers
  them with.
* `Exn.Internal` — the exceptions that come from below the service.
-/

namespace SnapSearch

/-! ### JSON -/

/-- A decoded JSON value.  A float is kept as its literal: nothing computes with
one. -/
inductive Json
  | null
  | bool (b : Bool)
  | int (n : ℤ)
  | float (literal : String)
  | str (s : String)
  | arr (items : List Json)
  | obj (members : List (String × Json))

/-! ### Dictionaries -/

section Dict

variable {α : Type}

/-- `d[key] = value`: the value is replaced in place, a new key goes last. -/
def setItem (d : List (String × α)) (key : String) (value : α) : List (String × α) :=
  if key ∈ d.map Prod.fst then d.map fun item => if item.1 = key then (key, value) else item
  else d ++ [(key, value)]

theorem setItem_of_notMem {d : List (String × α)} {key : String} (h : key ∉ d.map Prod.fst)
    (value : α) : setItem d key value = d ++ [(key, value)] := if_neg h

/-- `{key: value for key, value in items}`. -/
def dictOf (items : List (String × α)) : List (String × α) :=
  items.foldl (fun d item => setItem d item.1 item.2) []

/-- Distinct keys come in the order they are set. -/
theorem dictOf_of_nodup {items : List (String × α)} (h : (items.map Prod.fst).Nodup) :
    dictOf items = items := by
  have hfold : ∀ (items d : List (String × α)), ((d ++ items).map Prod.fst).Nodup →
      items.foldl (fun d item => setItem d item.1 item.2) d = d ++ items := by
    intro items
    induction items with
    | nil => simp
    | cons item items ih =>
      intro d hd
      have hkey : item.1 ∉ d.map Prod.fst := by
        rw [List.map_append, List.nodup_append] at hd
        intro hmem
        exact hd.2.2 _ hmem _ (by simp) rfl
      rw [List.foldl_cons, setItem_of_notMem hkey, ih _ (by simpa using hd)]
      simp
  exact hfold items [] (by simpa using h)

theorem mem_of_lookup_eq_some {d : List (String × α)} {key : String} {value : α}
    (h : d.lookup key = some value) : (key, value) ∈ d := by
  obtain ⟨before, after, rfl, -⟩ := List.lookup_eq_some_iff.mp h
  simp

theorem lookup_eq_some_of_mem {d : List (String × α)} (hnodup : (d.map Prod.fst).Nodup)
    {item : String × α} (h : item ∈ d) : d.lookup item.1 = some item.2 := by
  obtain ⟨before, after, rfl⟩ := List.append_of_mem h
  rw [List.map_append, List.nodup_append] at hnodup
  refine List.lookup_eq_some_iff.mpr ⟨before, after, rfl, ?_⟩
  intro p hp
  rw [bne_iff_ne]
  exact (hnodup.2.2 _ (List.mem_map_of_mem hp) _ (by simp)).symm

end Dict

/-! ### Results -/

section Except

variable {ε α β : Type} {x : Except ε α} {f : α → Except ε β}

/-- A sequence gives a value where both its parts do. -/
theorem bind_eq_ok_iff {b : β} : x >>= f = .ok b ↔ ∃ a, x = .ok a ∧ f a = .ok b := by
  cases x with
  | error e => exact iff_of_false nofun (by rintro ⟨_, ⟨⟩, _⟩)
  | ok a => simp [bind, Except.bind]

/-- A sequence raises what its first part does, or what the second does. -/
theorem bind_eq_error_iff {e : ε} :
    x >>= f = .error e ↔ x = .error e ∨ ∃ a, x = .ok a ∧ f a = .error e := by
  cases x with
  | error e => simp [bind, Except.bind]
  | ok a => simp [bind, Except.bind]

theorem exists_eq_ok_of_isOk (h : x.isOk = true) : ∃ a, x = .ok a := by
  cases x with
  | ok a => exact ⟨a, rfl⟩
  | error e => cases h

end Except

/-! ### Exceptions -/

/-- What pydantic found wrong with a field, by the type it reports. -/
inductive ErrorType
  | missing
  | modelAttributesType
  | stringType
  | stringTooShort (minLength : ℕ)
  | stringTooLong (maxLength : ℕ)
  | intType
  | intFromFloat
  | intParsing
  | intParsingSize
  | finiteNumber
  | greaterThanEqual (ge : ℕ)
  | lessThanEqual (le : ℕ)
  | dictType
  | valueError (msg : String)
  deriving DecidableEq, Repr

/-- One entry of a request validation error: where, and what. -/
structure FieldError where
  loc : List String
  type : ErrorType
  deriving DecidableEq, Repr

/-- The exceptions that the service's code raises or lets through. -/
inductive Exn
  | httpException (statusCode : ℕ) (detail : String) (headers : List (String × String))
  | requestValidationError (errors : List FieldError)
  /-- A `ValueError`; nothing reads its text. -/
  | valueError
  | typeError (msg : String)
  | keyError (key : String)
  | indexError (msg : String)
  | assertionError (msg : String)
  /-- The database could not be reached or gave up. -/
  | operationalError (msg : String)
  /-- The database or its driver refused a value. -/
  | dataError (msg : String)
  /-- The database refused a row that breaks a constraint. -/
  | integrityError (msg : String)
  /-- Any other exception, by its class. -/
  | other (name : String)
  deriving DecidableEq, Repr

/-- The status the application answers an exception with: its own for an HTTP
exception, 422 for a request that fails validation, 503 from
`database_unavailable_handler`, and 500 where no handler is registered. -/
def Exn.status : Exn → ℕ
  | .httpException statusCode _ _ => statusCode
  | .requestValidationError _ => 422
  | .operationalError _ => 503
  | _ => 500

/-- The exceptions that are no answer to the client: anything but an HTTP exception
and a request validation error. -/
def Exn.Internal : Exn → Prop
  | .httpException _ _ _ => False
  | .requestValidationError _ => False
  | _ => True

theorem Exn.Internal.status_eq {e : Exn} (h : e.Internal) : e.status = 500 ∨ e.status = 503 := by
  cases e with
  | httpException => exact h.elim
  | requestValidationError => exact h.elim
  | operationalError => exact Or.inr rfl
  | _ => exact Or.inl rfl

end SnapSearch
