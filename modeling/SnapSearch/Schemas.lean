import SnapSearch.Config
import SnapSearch.Models

/-!
# Request and response

`app/schemas/search.py`: what a search request is made of, how a request body
becomes one, and the sections of a response.

A `SearchRequest` carries what its validators establish.  How pydantic reads an
integer (a number, a text or a boolean may denote one) is a parameter.

## Main definitions

* `checkCursorKeysAndValues` — the validator of the `cursors` field.
* `SearchRequest`, `SearchRequest.validate` — requests, and the body that denotes
  one.
* `AnalyticsSection`, `ListSection`, `AppSection`, `SearchResponse` — responses.

## Main results

* `checkCursorItems_eq_ok_iff` — the cursors that pass.
* `SearchRequest.exists_parse_of_cursorFor` — **an accepted cursor denotes a UUID.**
-/

namespace SnapSearch

open PyStr

/-! ### Cursors -/

/-- The sections that accept a cursor. -/
def paginatedApps : List String := ["investigator", "case-manager"]

/-- The loop of the `cursors` validator: the message of the first item refused. -/
def checkCursorItems : List (String × String) → Except String Unit
  | [] => .ok ()
  | (appName, cursor) :: items =>
      if appName ∉ paginatedApps then
        .error ("'" ++ appName ++ "' is not a paginated section; " ++
          "valid cursor keys: ['case-manager', 'investigator']")
      else match Uuid.parse cursor with
        | none => .error ("cursor for '" ++ appName ++ "' is not a valid UUID")
        | some _ => checkCursorItems items

/-- `check_cursor_keys_and_values`. -/
def checkCursorKeysAndValues : Option (List (String × String)) → Except String Unit
  | none => .ok ()
  | some items => checkCursorItems items

@[simp] theorem checkCursorKeysAndValues_some (items : List (String × String)) :
    checkCursorKeysAndValues (some items) = checkCursorItems items := rfl

theorem checkCursorItems_eq_ok_iff {items : List (String × String)} :
    checkCursorItems items = .ok () ↔
      ∀ item ∈ items, item.1 ∈ paginatedApps ∧ (Uuid.parse item.2).isSome := by
  induction items with
  | nil => simp [checkCursorItems]
  | cons item items ih =>
    obtain ⟨appName, cursor⟩ := item
    rw [List.forall_mem_cons, ← ih, checkCursorItems]
    by_cases happ : appName ∈ paginatedApps
    · rw [if_neg (not_not.mpr happ)]
      cases Uuid.parse cursor <;> simp [happ]
    · simp [happ]

/-! ### Requests -/

/-- A validated request: `SearchRequest`. -/
structure SearchRequest where
  query : String
  limit : ℕ
  cursors : Option (List (String × String))
  min_query : queryMinLength ≤ query.length
  max_query : query.length ≤ queryMaxLength
  min_limit : 1 ≤ limit
  max_limit : limit ≤ searchResultLimit
  cursors_ok : checkCursorKeysAndValues cursors = .ok ()

namespace SearchRequest

/-- `request.cursors or {}`. -/
def cursorItems (request : SearchRequest) : List (String × String) := request.cursors.getD []

theorem cursorItems_ok (request : SearchRequest) :
    ∀ item ∈ request.cursorItems, item.1 ∈ paginatedApps ∧ (Uuid.parse item.2).isSome := by
  have h := request.cursors_ok
  unfold cursorItems
  cases hc : request.cursors with
  | none => simp
  | some items =>
    rw [hc] at h
    exact checkCursorItems_eq_ok_iff.mp h

/-- `cursors.get(app_name)`. -/
def cursorFor (request : SearchRequest) (appName : String) : Option String :=
  request.cursorItems.lookup appName

/-- **An accepted cursor denotes a UUID.** -/
theorem exists_parse_of_cursorFor {request : SearchRequest} {appName cursor : String}
    (h : request.cursorFor appName = some cursor) : ∃ u, Uuid.parse cursor = some u :=
  Option.isSome_iff_exists.mp (request.cursorItems_ok _ (mem_of_lookup_eq_some h)).2

/-- Only a paginated section has a cursor. -/
theorem cursorFor_eq_none {request : SearchRequest} {appName : String}
    (h : appName ∉ paginatedApps) : request.cursorFor appName = none := by
  cases hc : request.cursorFor appName with
  | none => rfl
  | some cursor => exact absurd (request.cursorItems_ok _ (mem_of_lookup_eq_some hc)).1 h

end SearchRequest

/-! ### Validation of a body -/

/-- The `query` field: stripped, then a text within its bounds. -/
def validateQuery (members : List (String × Json)) : Except FieldError String :=
  match members.lookup "query" with
  | none => .error ⟨["body", "query"], .missing⟩
  | some (.str value) =>
      let query := String.ofList (strip isSpace value.toList)
      if query.length < queryMinLength then
        .error ⟨["body", "query"], .stringTooShort queryMinLength⟩
      else if queryMaxLength < query.length then
        .error ⟨["body", "query"], .stringTooLong queryMaxLength⟩
      else .ok query
  | some _ => .error ⟨["body", "query"], .stringType⟩

/-- Reads an integer that is spelt as one, and nothing else. -/
def intOfInt : Json → Except ErrorType ℤ
  | .int n => .ok n
  | _ => .error .intType

/-- The `limit` field: an integer within its bounds.  What else pydantic reads as an
integer, and why it refuses the rest, is told by `intOf`. -/
def validateLimit (intOf : Json → Except ErrorType ℤ) (members : List (String × Json)) :
    Except FieldError ℕ :=
  match members.lookup "limit" with
  | none => .ok searchResultLimit
  | some value =>
      match intOf value with
      | .error type => .error ⟨["body", "limit"], type⟩
      | .ok limit =>
          if limit < 1 then .error ⟨["body", "limit"], .greaterThanEqual 1⟩
          else if searchResultLimit < limit then
            .error ⟨["body", "limit"], .lessThanEqual searchResultLimit⟩
          else .ok limit.toNat

/-- The items of a `dict[str, str]`; each value that is no text is an error of
its own. -/
def textItems : List (String × Json) → List FieldError × List (String × String)
  | [] => ([], [])
  | (key, .str value) :: items => ((textItems items).1, (key, value) :: (textItems items).2)
  | (key, _) :: items =>
      (⟨["body", "cursors", key], .stringType⟩ :: (textItems items).1, (textItems items).2)

/-- The `cursors` field: a mapping of texts, then the validator. -/
def validateCursors (members : List (String × Json)) :
    Except (List FieldError) (Option (List (String × String))) :=
  match members.lookup "cursors" with
  | none => .ok none
  | some .null => .ok none
  | some (.obj items) =>
      match textItems items with
      | ([], cursors) =>
          match checkCursorKeysAndValues (some cursors) with
          | .error msg => .error [⟨["body", "cursors"], .valueError msg⟩]
          | .ok () => .ok (some cursors)
      | (errors, _) => .error errors
  | some _ => .error [⟨["body", "cursors"], .dictType⟩]

theorem validateQuery_bounds {members : List (String × Json)} {query : String}
    (h : validateQuery members = .ok query) :
    queryMinLength ≤ query.length ∧ query.length ≤ queryMaxLength := by
  unfold validateQuery at h
  split at h
  · cases h
  · dsimp only at h
    split at h
    · cases h
    · split at h
      · cases h
      · cases h
        omega
  · cases h

theorem validateLimit_bounds {intOf : Json → Except ErrorType ℤ} {members : List (String × Json)}
    {limit : ℕ} (h : validateLimit intOf members = .ok limit) :
    1 ≤ limit ∧ limit ≤ searchResultLimit := by
  unfold validateLimit at h
  split at h
  · cases h
    decide
  · split at h
    · cases h
    · split at h
      · cases h
      · split at h
        · cases h
        · cases h
          omega

theorem validateCursors_ok {members : List (String × Json)}
    {cursors : Option (List (String × String))} (h : validateCursors members = .ok cursors) :
    checkCursorKeysAndValues cursors = .ok () := by
  unfold validateCursors at h
  split at h
  · cases h; rfl
  · cases h; rfl
  · split at h
    · split at h
      · cases h
      · next hok => cases h; exact hok
    · cases h
  · cases h

/-- The errors of a field, if it has any. -/
def errorsOf {α : Type} : Except FieldError α → List FieldError
  | .ok _ => []
  | .error e => [e]

/-- `SearchRequest.model_validate(body)`: every field is checked, and the errors
are reported together in field order. -/
def SearchRequest.validate (intOf : Json → Except ErrorType ℤ) (body : Json) :
    Except (List FieldError) SearchRequest :=
  match body with
  | .obj members =>
      match hq : validateQuery members, hl : validateLimit intOf members,
          hc : validateCursors members with
      | .ok query, .ok limit, .ok cursors =>
          .ok { query, limit, cursors
                min_query := (validateQuery_bounds hq).1
                max_query := (validateQuery_bounds hq).2
                min_limit := (validateLimit_bounds hl).1
                max_limit := (validateLimit_bounds hl).2
                cursors_ok := validateCursors_ok hc }
      | query, limit, .ok _ => .error (errorsOf query ++ errorsOf limit)
      | query, limit, .error errors => .error (errorsOf query ++ errorsOf limit ++ errors)
  | .null => .error [⟨["body"], .missing⟩]
  | _ => .error [⟨["body"], .modelAttributesType⟩]

/-! ### Responses -/

structure AnalyticsSection where
  totalMatched : ℕ
  byMonth : List (String × ℕ)
  deriving DecidableEq

structure InvestigatorItem where
  id : Uuid
  type : String
  name : String
  data : List (String × Json)
  createdAt : Timestamp

structure CaseManagerItem where
  id : Uuid
  title : String
  assignedTo : Uuid
  status : String
  createdAt : Timestamp
  deriving DecidableEq

/-- `InvestigatorItem.model_validate(row)`. -/
def InvestigatorItem.ofRow (row : InvestigatorEntity) : InvestigatorItem :=
  { id := row.id, type := row.type, name := row.name, data := row.data, createdAt := row.createdAt }

/-- `CaseManagerItem.model_validate(row)`. -/
def CaseManagerItem.ofRow (row : CaseManagerCase) : CaseManagerItem :=
  { id := row.id, title := row.title, assignedTo := row.assignedTo, status := row.status,
    createdAt := row.createdAt }

/-- The items of the section of an app that lists rows. -/
abbrev Paginated.Item : Paginated → Type
  | .investigator => InvestigatorItem
  | .caseManager => CaseManagerItem

/-- `model_validate(row)` of an app's item. -/
def Paginated.itemOfRow : (app : Paginated) → app.Row → app.Item
  | .investigator => InvestigatorItem.ofRow
  | .caseManager => CaseManagerItem.ofRow

/-- The `id` field of an item. -/
def Paginated.itemId : (app : Paginated) → app.Item → Uuid
  | .investigator => InvestigatorItem.id
  | .caseManager => CaseManagerItem.id

@[simp] theorem Paginated.itemId_itemOfRow (app : Paginated) (row : app.Row) :
    app.itemId (app.itemOfRow row) = app.id row := by
  cases app <;> rfl

/-- A section that lists items: `InvestigatorSection`, `CaseManagerSection`. -/
structure ListSection (ι : Type) where
  items : List ι
  nextCursor : Option String

abbrev InvestigatorSection := ListSection InvestigatorItem

abbrev CaseManagerSection := ListSection CaseManagerItem

/-- The section of one app. -/
inductive AppSection
  | analytics (s : AnalyticsSection)
  | investigator (s : InvestigatorSection)
  | caseManager (s : CaseManagerSection)

/-- How many results a section reports: its items, or the reports it counted. -/
def AppSection.resultsCount : AppSection → ℕ
  | .analytics s => s.totalMatched
  | .investigator s => s.items.length
  | .caseManager s => s.items.length

/-- A listing section as the section of its app. -/
def Paginated.toSection : (app : Paginated) → ListSection app.Item → AppSection
  | .investigator => .investigator
  | .caseManager => .caseManager

@[simp] theorem Paginated.resultsCount_toSection (app : Paginated) (s : ListSection app.Item) :
    (app.toSection s).resultsCount = s.items.length := by
  cases app <;> rfl

structure SearchResponse where
  query : String
  appsSearched : List String
  results : List (String × AppSection)

end SnapSearch
