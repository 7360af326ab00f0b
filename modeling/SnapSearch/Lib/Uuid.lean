import Mathlib.Order.Lattice
import SnapSearch.Lib.PyStr

/-!
# UUIDs and their text forms

A UUID is a 128-bit number, ordered as one.  Two readers of its text meet in a
web service: Python's `uuid.UUID(text)` and the input function of PostgreSQL's
`uuid` type.  They accept different spellings.

## Main definitions

* `Uuid` — the number, with its range check as a field.
* `Uuid.str` — the canonical text, `str(u)`.
* `Uuid.spell` — the other texts that denote the UUID.
* `Uuid.parse` — `UUID(text)`, `none` standing for `ValueError`.
* `Uuid.pgIn` — PostgreSQL's `uuid_in`, `none` standing for a data error.

## Main results

* `Uuid.parse_spell` — **every spelling of a UUID reads as that UUID**; `parse_str`,
  its canonical text does.
-/

/-- A UUID, by its integer value: `0 <= int < 1 << 128`. -/
@[ext]
structure Uuid where
  int : ℕ
  int_lt : int < 2 ^ 128
  deriving DecidableEq

namespace Uuid

open PyStr

/-- UUIDs are compared as 128-bit unsigned numbers. -/
instance : LinearOrder Uuid := LinearOrder.lift' Uuid.int fun _ _ h => Uuid.ext h

instance : Inhabited Uuid := ⟨⟨0, by norm_num⟩⟩

/-! ### The canonical text -/

/-- Hyphens after the digits 8, 12, 16 and 20. -/
def hyphenate (x : List Char) : List Char :=
  x.take 8 ++ '-' :: ((x.drop 8).take 4 ++ '-' :: ((x.drop 12).take 4 ++ '-' ::
    ((x.drop 16).take 4 ++ '-' :: x.drop 20)))

/-- The characters of `str(u)`. -/
def strChars (u : Uuid) : List Char := hyphenate ((digits 16 32 u.int).map hexDigit)

/-- `str(u)`. -/
def str (u : Uuid) : String := String.ofList u.strChars

@[simp] theorem toList_str (u : Uuid) : u.str.toList = u.strChars := String.toList_ofList

/-! ### The two readers -/

/-- `UUID(text)` on characters. -/
def parseChars (s : List Char) : Option Uuid :=
  let hex := replace "uuid:".toList [] (replace "urn:".toList [] s)
  let hex := replace ['-'] [] (strip (fun c => c == '{' || c == '}') hex)
  if hex.length ≠ 32 then none
  else match int16 hex with
    | none => none
    | some i => if h : 0 ≤ i ∧ i.toNat < 2 ^ 128 then some ⟨i.toNat, h.2⟩ else none

/-- `UUID(text)`. -/
def parse (text : String) : Option Uuid := parseChars text.toList

/-- The bytes of `uuid_in`: two digits each, and after every second one but the
last a hyphen may stand.  `k` is how many are left. -/
def pgBytes : ℕ → ℕ → List Char → Option (ℕ × List Char)
  | 0, acc, s => some (acc, s)
  | k + 1, acc, a :: b :: s =>
      match hexVal a, hexVal b with
      | some x, some y =>
          let s := if k % 2 = 0 ∧ 0 < k ∧ s.head? = some '-' then s.tail else s
          pgBytes k (acc * 256 + (x * 16 + y)) s
      | _, _ => none
  | _ + 1, _, _ => none

/-- PostgreSQL's `uuid_in`: sixteen bytes, alone or between braces. -/
def pgIn (text : String) : Option Uuid :=
  match text.toList with
  | '{' :: s =>
      match pgBytes 16 0 s with
      | some (n, ['}']) => if h : n < 2 ^ 128 then some ⟨n, h⟩ else none
      | _ => none
  | s =>
      match pgBytes 16 0 s with
      | some (n, []) => if h : n < 2 ^ 128 then some ⟨n, h⟩ else none
      | _ => none

/-! ### The canonical text reads back -/

/-- Dropping the hyphens of a hyphenated text that has none of its own. -/
theorem replace_hyphenate {x : List Char} (hx : '-' ∉ x) :
    replace ['-'] [] (hyphenate x) = x := by
  have hpart : ∀ {y : List Char}, '-' ∉ y →
      (y.flatMap fun c => if c = '-' then [] else [c]) = y := by
    intro y hy
    rw [← replace_singleton]
    exact replace_of_notMem [] [] hy
  have htake : ∀ k j, '-' ∉ (x.drop k).take j := by
    intro k j h
    exact hx (List.mem_of_mem_drop (List.mem_of_mem_take h))
  have h0 := hpart (htake 0 8)
  have h1 := hpart (htake 8 4)
  have h2 := hpart (htake 12 4)
  have h3 := hpart (htake 16 4)
  have h4 := hpart (y := x.drop 20) fun h => hx (List.mem_of_mem_drop h)
  rw [List.drop_zero] at h0
  rw [replace_singleton, hyphenate]
  simp only [List.flatMap_append, List.flatMap_cons, if_true, List.nil_append, h0, h1, h2, h3, h4]
  -- the five parts make up the whole again, from the right
  have h20 := List.take_append_drop 4 (x.drop 16)
  have h16 := List.take_append_drop 4 (x.drop 12)
  have h12 := List.take_append_drop 4 (x.drop 8)
  simp only [List.drop_drop, Nat.reduceAdd] at h20 h16 h12
  rw [h20, h16, h12, List.take_append_drop]

theorem mem_hyphenate {x : List Char} {c : Char} (h : c ∈ hyphenate x) : c = '-' ∨ c ∈ x := by
  simp only [hyphenate, List.mem_append, List.mem_cons] at h
  rcases h with h | h | h | h | h | h | h | h | h
  · exact Or.inr (List.mem_of_mem_take h)
  · exact Or.inl h
  · exact Or.inr (List.mem_of_mem_drop (List.mem_of_mem_take h))
  · exact Or.inl h
  · exact Or.inr (List.mem_of_mem_drop (List.mem_of_mem_take h))
  · exact Or.inl h
  · exact Or.inr (List.mem_of_mem_drop (List.mem_of_mem_take h))
  · exact Or.inl h
  · exact Or.inr (List.mem_of_mem_drop h)

/-! ### Spellings -/

/-- How a UUID may be spelled: in upper case, with hyphens, between braces, with the
prefix of a URN. -/
structure Spelling where
  upper : Bool := false
  hyphens : Bool := true
  braces : Bool := false
  urn : Bool := false

/-- The digit of a spelling. -/
def Spelling.digit (sp : Spelling) : ℕ → Char := if sp.upper then hexDigitUpper else hexDigit

theorem Spelling.plainDigits (sp : Spelling) : PlainDigits sp.digit := by
  unfold digit
  split
  · exact plainDigits_hexDigitUpper
  · exact plainDigits_hexDigit

/-- The characters of a spelling. -/
def spellChars (u : Uuid) (sp : Spelling) : List Char :=
  let hex := (digits 16 32 u.int).map sp.digit
  let hex := if sp.hyphens then hyphenate hex else hex
  let hex := if sp.braces then '{' :: (hex ++ ['}']) else hex
  if sp.urn then "urn:uuid:".toList ++ hex else hex

/-- The text of a UUID in a spelling. -/
def spell (u : Uuid) (sp : Spelling) : String := String.ofList (u.spellChars sp)

theorem str_eq_spell (u : Uuid) : u.str = u.spell {} := rfl

/-- A text with none of the characters that the reader drops, the hyphens apart. -/
def Bare (s : List Char) : Prop := s ≠ [] ∧ ∀ c ∈ ['{', '}', 'u'], c ∉ s

section Reading

variable {digit : ℕ → Char} (hdigit : PlainDigits digit) {ds : List ℕ}

include hdigit

theorem notMem_map_digit (hds : ∀ d ∈ ds, d < 16) {c : Char}
    (hc : c ∈ ['_', 'x', 'X', '-', '+', '{', '}', 'u']) : c ∉ ds.map digit := by
  intro h
  obtain ⟨d, hd, rfl⟩ := List.mem_map.mp h
  exact (hdigit d (hds d hd)).2.2.2 hc

theorem int16_map_digit (hlen : 2 ≤ ds.length) (hds : ∀ d ∈ ds, d < 16) :
    int16 (ds.map digit) = some ((ds.foldl (fun acc d => acc * 16 + d) 0 : ℕ) : ℤ) := by
  match ds, hlen, hds with
  | d :: e :: ds, _, hds => exact int16_of_digits hdigit hds

theorem bare_map_digit (hne : ds ≠ []) (hds : ∀ d ∈ ds, d < 16) : Bare (ds.map digit) := by
  refine ⟨by simpa using hne, ?_⟩
  intro c hc
  apply notMem_map_digit hdigit hds
  simp only [List.mem_cons, List.not_mem_nil, or_false] at hc ⊢
  tauto

theorem bare_hyphenate (hds : ∀ d ∈ ds, d < 16) : Bare (hyphenate (ds.map digit)) := by
  refine ⟨by simp [hyphenate], ?_⟩
  intro c hc h
  rcases mem_hyphenate h with rfl | h
  · simp at hc
  · refine notMem_map_digit hdigit hds ?_ h
    simp only [List.mem_cons, List.not_mem_nil, or_false] at hc ⊢
    tauto

end Reading

/-- The braces around a bare text are dropped, if it has them. -/
theorem strip_braces {s : List Char} (hs : Bare s) (braces : Bool) :
    strip (fun c => c == '{' || c == '}') (if braces then '{' :: (s ++ ['}']) else s) = s := by
  have hbrace : ∀ c ∈ s, (c == '{' || c == '}') = false := by
    intro c hc
    have h1 : c ≠ '{' := by
      rintro rfl
      exact hs.2 _ (by simp) hc
    have h2 : c ≠ '}' := by
      rintro rfl
      exact hs.2 _ (by simp) hc
    simp [h1, h2]
  have hhead := hbrace _ (List.head_mem hs.1)
  have hlast := hbrace _ (List.getLast_mem hs.1)
  cases braces with
  | true => exact strip_cons_append hs.1 hhead hlast rfl rfl
  | false => exact strip_of_ends hs.1 hhead hlast

/-- The prefix of a text without a `u` is dropped, if it has one. -/
theorem replace_urn {s : List Char} (hs : 'u' ∉ s) (urn : Bool) :
    replace "uuid:".toList [] (replace "urn:".toList []
      (if urn then "urn:uuid:".toList ++ s else s)) = s := by
  rw [show "urn:".toList = 'u' :: "rn:".toList from rfl,
    show "uuid:".toList = 'u' :: "uid:".toList from rfl]
  cases urn with
  | false =>
    simp only [Bool.false_eq_true, if_false]
    rw [replace_of_notMem _ _ hs, replace_of_notMem _ _ hs]
  | true =>
    -- the first prefix does not occur in the second
    have hrest : replace ('u' :: "rn:".toList) [] ("uuid:".toList ++ s) = "uuid:".toList ++ s := by
      have htail : 'u' ∉ "id:".toList ++ s := by simp [hs]
      rw [show "uuid:".toList ++ s = 'u' :: 'u' :: ("id:".toList ++ s) from rfl, replace_cons,
        replace_cons, replace_of_notMem _ _ htail]
      rfl
    rw [if_pos rfl,
      show "urn:uuid:".toList ++ s = 'u' :: "rn:".toList ++ ("uuid:".toList ++ s) from rfl,
      replace_append, List.nil_append, hrest,
      show "uuid:".toList ++ s = 'u' :: "uid:".toList ++ s from rfl, replace_append,
      replace_of_notMem _ _ hs]
    rfl

/-- **Every spelling of a UUID reads as that UUID.** -/
theorem parse_spell (u : Uuid) (sp : Spelling) : parse (u.spell sp) = some u := by
  have hdigit := sp.plainDigits
  have hlt : ∀ d ∈ digits 16 32 u.int, d < 16 := fun d => digits_lt (by decide)
  have hlen : (digits 16 32 u.int).length = 32 := length_digits _ _ _
  have hne : digits 16 32 u.int ≠ [] := by
    rw [← List.length_pos_iff_ne_nil, hlen]
    decide
  -- the digits, with and without hyphens
  obtain ⟨hex, hhex, hbare, hreplace⟩ : ∃ hex,
      (if sp.hyphens then hyphenate ((digits 16 32 u.int).map sp.digit)
        else (digits 16 32 u.int).map sp.digit) = hex ∧ Bare hex ∧
      replace ['-'] [] hex = (digits 16 32 u.int).map sp.digit := by
    have hdash := notMem_map_digit (c := '-') hdigit hlt (by simp)
    cases sp.hyphens with
    | true => exact ⟨_, rfl, bare_hyphenate hdigit hlt, replace_hyphenate hdash⟩
    | false => exact ⟨_, rfl, bare_map_digit hdigit hne hlt, replace_of_notMem _ _ hdash⟩
  have hint : int16 ((digits 16 32 u.int).map sp.digit) = some (u.int : ℤ) := by
    have hval : (digits 16 32 u.int).foldl (fun acc d => acc * 16 + d) 0 = u.int := by
      rw [foldl_digits, Nat.mod_eq_of_lt (by simpa using u.int_lt)]
    rw [int16_map_digit hdigit (by rw [hlen]; decide) hlt, hval]
  have hurn : 'u' ∉ (if sp.braces then '{' :: (hex ++ ['}']) else hex) := by
    have hu : 'u' ∉ hex := hbare.2 _ (by simp)
    cases sp.braces <;> simp [hu]
  rw [parse, spell, String.toList_ofList, spellChars, parseChars]
  simp only [hhex]
  rw [replace_urn hurn, strip_braces hbare, hreplace]
  simp only [List.length_map, hlen, ne_eq, not_true_eq_false, if_false, hint]
  rw [dif_pos ⟨Int.natCast_nonneg _, by simpa using u.int_lt⟩]
  rfl

/-- **The canonical text reads back as the same UUID.** -/
@[simp] theorem parse_str (u : Uuid) : parse u.str = some u := by
  rw [str_eq_spell, parse_spell]

theorem str_injective : Function.Injective str := by
  intro u v h
  have := congrArg parse h
  simpa using this

end Uuid
