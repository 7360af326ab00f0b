import SnapSearch.Strategies

/-!
# Cursors on the wire

A strategy writes the id of its last item as a text, the client sends it back, the
validator reads it and drops what it has read, and the strategy reads it again.

## Main results

* `Paginated.ends_search_nextCursor` — the cursor a strategy emits is the canonical
  text of its last item's id.
* `cursor_round_trip` — **an emitted cursor comes back as the same id**, and any
  other spelling of it asks for the same page.
-/

namespace SnapSearch

/-- A text that denotes a UUID is accepted for a section that lists rows. -/
theorem checkCursorItems_cons {app : Paginated} {text : String} {u : Uuid}
    (h : Uuid.parse text = some u) (items : List (String × String)) :
    checkCursorItems (((Strategy.listing app).appName, text) :: items)
      = checkCursorItems items := by
  rw [checkCursorItems, if_neg (not_not.mpr app.appName_mem_paginatedApps), h]

/-- Texts that denote one UUID ask for one page. -/
theorem Paginated.search_congr (app : Paginated) {text text' : String}
    (h : Uuid.parse text = Uuid.parse text') (session : Conn) (query userId : String) (limit : ℕ) :
    app.search session query userId (some text) limit
      = app.search session query userId (some text') limit := by
  have hcursor : cursorId (some text) = cursorId (some text') := by
    rw [cursorId, cursorId, h]
  rw [search_eq, search_eq, pagedSearch, pagedSearch, hcursor]

/-- A cursor is emitted for a last item only, and it is the text of that item's id. -/
theorem nextCursorOf_eq_ok {app : Paginated} {rows : List app.Row} {items : List app.Item}
    {limit : ℕ} {text : String} (h : nextCursorOf app rows items limit = .ok (some text)) :
    ∃ item, items.getLast? = some item ∧ text = (app.itemId item).str := by
  unfold nextCursorOf at h
  split at h
  · split at h
    · cases h
    · next item hitem =>
      exact ⟨item, hitem, (Option.some.inj (Except.ok.inj h)).symm⟩
  · cases h

/-- The cursor that comes with a section. -/
def Emits (app : Paginated) : Except Exn (ListSection app.Item × ℕ) → Prop
  | .ok found => ∀ text ∈ found.1.nextCursor,
      ∃ item, found.1.items.getLast? = some item ∧ text = (app.itemId item).str
  | .error _ => True

/-- **The cursor a strategy emits is the canonical text of its last item's id**,
whatever the database answers. -/
theorem Paginated.ends_search_nextCursor (app : Paginated) (session : Conn)
    (query userId : String) (cursor : Option String) (limit : ℕ) :
    (app.search session query userId cursor limit).Ends (fun _ _ => True) (Emits app) := by
  rw [search_eq, pagedSearch]
  apply Prog.ends_bind
  apply Prog.ends_ofExcept
  cases cursorId cursor with
  | error e => trivial
  | ok u =>
    apply Prog.ends_bind
    apply Prog.ends_of_forall
    intro r
    cases r with
    | error e => trivial
    | ok rows =>
      apply Prog.ends_bind
      apply Prog.ends_ofExcept
      cases hnext : nextCursorOf app rows ((rows.take limit).map app.itemOfRow) limit with
      | error e => trivial
      | ok next =>
        rintro text ⟨⟩
        exact nextCursorOf_eq_ok hnext

/-- **An emitted cursor comes back as the same id**: the validator accepts the text
under the section's key next to whatever else is sent, and the strategy reads the id
it was made from.  Any text the validator accepts for the section, in whatever
spelling, asks for the page of the canonical text of the UUID it denotes. -/
theorem cursor_round_trip (app : Paginated) :
    (∀ (session : Conn) (query userId : String) (cursor : Option String) (limit : ℕ),
      (app.search session query userId cursor limit).Ends (fun _ _ => True) (Emits app)) ∧
    (∀ (u : Uuid) (items : List (String × String)),
      checkCursorKeysAndValues (some (((Strategy.listing app).appName, u.str) :: items))
        = checkCursorKeysAndValues (some items)) ∧
    (∀ u : Uuid, cursorId (some u.str) = .ok (some u)) ∧
    (∀ (items : List (String × String)) (text : String),
      checkCursorKeysAndValues (some items) = .ok () →
      ((Strategy.listing app).appName, text) ∈ items →
      ∃ u, Uuid.parse text = some u ∧ cursorId (some text) = .ok (some u) ∧
        ∀ session query userId limit,
          app.search session query userId (some text) limit
            = app.search session query userId (some u.str) limit) ∧
    ∀ (u : Uuid) (spelling : Uuid.Spelling) (items : List (String × String)),
      checkCursorKeysAndValues
          (some (((Strategy.listing app).appName, u.spell spelling) :: items))
        = checkCursorKeysAndValues (some items) ∧
      ∀ session query userId limit,
        app.search session query userId (some (u.spell spelling)) limit
          = app.search session query userId (some u.str) limit := by
  simp only [checkCursorKeysAndValues_some]
  refine ⟨app.ends_search_nextCursor, ?_, ?_, ?_, ?_⟩
  · intro u items
    exact checkCursorItems_cons u.parse_str items
  · intro u
    rw [cursorId, u.parse_str]
  · intro items text hok hmem
    obtain ⟨u, hu⟩ := Option.isSome_iff_exists.mp (checkCursorItems_eq_ok_iff.mp hok _ hmem).2
    refine ⟨u, hu, by rw [cursorId, hu], ?_⟩
    apply app.search_congr
    rw [hu, u.parse_str]
  · intro u spelling items
    refine ⟨checkCursorItems_cons (u.parse_spell spelling) items, ?_⟩
    apply app.search_congr
    rw [u.parse_spell, u.parse_str]

end SnapSearch
