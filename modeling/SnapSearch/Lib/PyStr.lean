import Mathlib.Data.Char
import Mathlib.Data.List.DropRight
import Mathlib.Data.List.Lex
import Mathlib.Tactic.Ring

/-!
# Python's text functions

The `str` methods and the `int(text, 16)` reader of CPython, on lists of
characters.  A Python string is a sequence of code points and a Lean string is
one of scalar values; the lone surrogates that tell them apart never decode as
UTF-8, so no text that reaches a database or a parser below contains one.

## Main definitions

* `replace old new s` — `s.replace(old, new)` for a non-empty `old`.
* `strip p s` — `s.strip(...)` with `p` the characters to drop.
* `partition sep s` — `s.partition(sep)` for a one-character separator.
* `int16 s` — `int(s, 16)`, `none` standing for `ValueError`.
* `digits b k n` — the last `k` digits of a number, most significant first.

## Main results

* `replace_singleton` — replacing one character is a map on characters.
* `replace_of_notMem` — nothing changes when the pattern cannot start.
* `zeroPad_lt_iff`, `zeroPad_injective` — padded numbers are ordered and told apart
  by their texts.
* `int16_of_digits` — a run of plain digits reads as its base-16 value.
-/

namespace PyStr

/-! ### Replacing -/

/-- The scan of `str.replace`: `k` is how much of the last match is still to be
skipped. -/
def replaceFrom (old new : List Char) : ℕ → List Char → List Char
  | _, [] => []
  | k + 1, _ :: s => replaceFrom old new k s
  | 0, c :: s =>
      if old.isPrefixOf (c :: s) then new ++ replaceFrom old new (old.length - 1) s
      else c :: replaceFrom old new 0 s

/-- `s.replace(old, new)`: the non-overlapping matches of a non-empty `old`, from
the left. -/
def replace (old new s : List Char) : List Char := replaceFrom old new 0 s

@[simp] theorem replace_nil (old new : List Char) : replace old new [] = [] := rfl

theorem replace_cons (old new : List Char) (c : Char) (s : List Char) :
    replace old new (c :: s) =
      if old.isPrefixOf (c :: s) then new ++ replaceFrom old new (old.length - 1) s
      else c :: replace old new s := rfl

/-- A one-character pattern is replaced character by character. -/
theorem replace_singleton (o : Char) (new s : List Char) :
    replace [o] new s = s.flatMap fun c => if c = o then new else [c] := by
  induction s with
  | nil => rfl
  | cons c s ih =>
    rw [replace_cons, List.flatMap_cons, ← ih]
    by_cases hc : c = o
    · subst hc
      simp [replace]
    · have hoc : ¬o = c := fun h => hc h.symm
      simp [hc, hoc]

/-- A text without the pattern's first character is left alone. -/
theorem replace_of_notMem {o : Char} (old new : List Char) :
    ∀ {s : List Char}, o ∉ s → replace (o :: old) new s = s := by
  intro s
  induction s with
  | nil => intro _; rfl
  | cons c s ih =>
    intro h
    rw [List.mem_cons, not_or] at h
    rw [replace_cons, ih h.2]
    simp [h.1]

/-- The rest of a match is skipped. -/
theorem replaceFrom_append (old new x s : List Char) :
    replaceFrom old new x.length (x ++ s) = replace old new s := by
  induction x with
  | nil => rfl
  | cons c x ih => exact ih

/-- A match at the start is replaced. -/
theorem replace_append (o : Char) (old new s : List Char) :
    replace (o :: old) new (o :: old ++ s) = new ++ replace (o :: old) new s := by
  have hprefix : (o :: old).isPrefixOf (o :: (old ++ s)) = true := by
    rw [List.isPrefixOf_iff_prefix]
    exact ⟨s, rfl⟩
  rw [List.cons_append, replace_cons, if_pos hprefix]
  exact congrArg (new ++ ·) (replaceFrom_append (o :: old) new old s)

/-! ### Stripping and splitting -/

/-- `s.strip(chars)`: the characters satisfying `p` go from both ends. -/
def strip (p : Char → Bool) (s : List Char) : List Char := (s.dropWhile p).rdropWhile p

/-- A text whose two ends stay is left alone. -/
theorem strip_of_ends {p : Char → Bool} {s : List Char} (hs : s ≠ [])
    (hhead : p (s.head hs) = false) (hlast : p (s.getLast hs) = false) : strip p s = s := by
  have hleft : s.dropWhile p = s := by
    cases s with
    | nil => exact absurd rfl hs
    | cons c s => simpa using hhead
  rw [strip, hleft, List.rdropWhile_eq_self_iff]
  intro _
  simpa using hlast

/-- What is stripped stays as it is when it is stripped again. -/
theorem strip_strip (p : Char → Bool) (s : List Char) : strip p (strip p s) = strip p s := by
  by_cases hs : strip p s = []
  · rw [hs]
    rfl
  · have hfront : strip p s <+: s.dropWhile p := List.rdropWhile_prefix p _
    apply strip_of_ends hs
    · -- dropping from the right keeps the first character
      rw [hfront.head hs]
      exact List.head_dropWhile_not p _
    · exact Bool.eq_false_iff.mpr (List.rdropWhile_last_not p _ hs)

/-- What stands around such a text is dropped. -/
theorem strip_cons_append {p : Char → Bool} {s : List Char} (hs : s ≠ [])
    (hhead : p (s.head hs) = false) (hlast : p (s.getLast hs) = false) {c c' : Char}
    (hc : p c = true) (hc' : p c' = true) : strip p (c :: (s ++ [c'])) = s := by
  have hleft : (c :: (s ++ [c'])).dropWhile p = s ++ [c'] := by
    cases s with
    | nil => exact absurd rfl hs
    | cons d s =>
      rw [List.head_cons] at hhead
      simp [hc, hhead]
  rw [strip, hleft, List.rdropWhile_concat_pos _ _ _ hc', List.rdropWhile_eq_self_iff]
  intro _
  simpa using hlast

/-- Whitespace as `str.isspace` knows it (Unicode 15.0, the tables of Python
3.12). -/
def isSpace (c : Char) : Bool :=
  let n := c.toNat
  (0x09 ≤ n && n ≤ 0x0D) || (0x1C ≤ n && n ≤ 0x20) || n == 0x85 || n == 0xA0 || n == 0x1680 ||
    (0x2000 ≤ n && n ≤ 0x200A) || n == 0x2028 || n == 0x2029 || n == 0x202F || n == 0x205F ||
    n == 0x3000

/-- `s.partition(sep)` for a one-character separator; the middle component is
empty when the separator does not occur. -/
def partition (sep : Char) (s : List Char) : List Char × List Char × List Char :=
  let head := s.takeWhile (· ≠ sep)
  match s.drop head.length with
  | [] => (s, [], [])
  | c :: tail => (head, [c], tail)

/-- A text is split at the first separator. -/
theorem partition_append_cons {sep : Char} {x : List Char} (hx : sep ∉ x) (z : List Char) :
    partition sep (x ++ sep :: z) = (x, [sep], z) := by
  have hall : ∀ c ∈ x, decide (c ≠ sep) = true := by
    intro c hc
    rw [decide_eq_true_eq]
    rintro rfl
    exact hx hc
  have hhead : (x ++ sep :: z).takeWhile (· ≠ sep) = x := by
    rw [List.takeWhile_append_of_pos hall]
    simp
  simp only [partition, hhead, List.drop_left]

/-- A text without the separator is all in the first component. -/
theorem partition_of_notMem {sep : Char} {s : List Char} (hs : sep ∉ s) :
    partition sep s = (s, [], []) := by
  have hhead : s.takeWhile (· ≠ sep) = s := by
    rw [List.takeWhile_eq_self_iff]
    intro c hc
    rw [decide_eq_true_eq]
    rintro rfl
    exact hs hc
  simp only [partition, hhead, List.drop_length]

/-! ### Reading integers in base sixteen -/

/-- The code points of the zero of every run of ten decimal digits
(general category `Nd`, Unicode 15.0). -/
def decimalZeros : List ℕ :=
  [0x30, 0x660, 0x6F0, 0x7C0, 0x966, 0x9E6, 0xA66, 0xAE6, 0xB66, 0xBE6, 0xC66, 0xCE6, 0xD66, 0xDE6,
   0xE50, 0xED0, 0xF20, 0x1040, 0x1090, 0x17E0, 0x1810, 0x1946, 0x19D0, 0x1A80, 0x1A90, 0x1B50,
   0x1BB0, 0x1C40, 0x1C50, 0xA620, 0xA8D0, 0xA900, 0xA9D0, 0xA9F0, 0xAA50, 0xABF0, 0xFF10, 0x104A0,
   0x10D30, 0x11066, 0x110F0, 0x11136, 0x111D0, 0x112F0, 0x11450, 0x114D0, 0x11650, 0x116C0,
   0x11730, 0x118E0, 0x11950, 0x11C50, 0x11D50, 0x11DA0, 0x11F50, 0x16A60, 0x16AC0, 0x16B50,
   0x1D7CE, 0x1D7D8, 0x1D7E2, 0x1D7EC, 0x1D7F6, 0x1E140, 0x1E2F0, 0x1E4F0, 0x1E950, 0x1FBF0]

/-- What `int` makes of one character before it parses: spaces and decimal
digits of any script become ASCII, everything else beyond ASCII becomes junk. -/
def toAscii (c : Char) : Char :=
  if c.toNat < 127 then c
  else if isSpace c then ' '
  else match decimalZeros.find? fun z => z ≤ c.toNat && c.toNat < z + 10 with
    | some z => Char.ofNat (0x30 + (c.toNat - z))
    | none => '?'

/-- The whitespace the C parser skips. -/
def isCSpace (c : Char) : Bool := c == ' ' || (0x09 ≤ c.toNat && c.toNat ≤ 0x0D)

/-- The value of an ASCII hexadecimal digit of either case. -/
def hexVal (c : Char) : Option ℕ :=
  if 0x30 ≤ c.toNat ∧ c.toNat ≤ 0x39 then some (c.toNat - 0x30)
  else if 0x61 ≤ c.toNat ∧ c.toNat ≤ 0x66 then some (c.toNat - 0x61 + 10)
  else if 0x41 ≤ c.toNat ∧ c.toNat ≤ 0x46 then some (c.toNat - 0x41 + 10)
  else none

/-- Digits with single underscores between them; the flag says whether the last
character was a digit. -/
def scanDigits : Bool → ℕ → List Char → Option ℕ
  | afterDigit, acc, [] => if afterDigit then some acc else none
  | afterDigit, acc, c :: s =>
      if c = '_' then (if afterDigit then scanDigits false acc s else none)
      else match hexVal c with
        | some d => scanDigits true (acc * 16 + d) s
        | none => none

/-- The digits after the sign: an optional `0x`, after which one underscore may
stand. -/
def magnitude16 : List Char → Option ℕ
  | '0' :: 'x' :: s => scanDigits false 0 (if s.head? = some '_' then s.tail else s)
  | '0' :: 'X' :: s => scanDigits false 0 (if s.head? = some '_' then s.tail else s)
  | s => scanDigits false 0 s

/-- `int(s, 16)`. -/
def int16 (s : List Char) : Option ℤ :=
  match strip isCSpace (s.map toAscii) with
  | '-' :: s => (magnitude16 s).map fun n => -(n : ℤ)
  | '+' :: s => (magnitude16 s).map fun n => (n : ℤ)
  | s => (magnitude16 s).map fun n => (n : ℤ)

/-! ### Digits of fixed width -/

/-- The last `k` digits of `n` in base `b`, most significant first. -/
def digits (b : ℕ) : ℕ → ℕ → List ℕ
  | 0, _ => []
  | k + 1, n => digits b k (n / b) ++ [n % b]

@[simp] theorem length_digits (b k n : ℕ) : (digits b k n).length = k := by
  induction k generalizing n with
  | zero => rfl
  | succ k ih => rw [digits, List.length_append, ih]; rfl

theorem digits_lt {b k n d : ℕ} (hb : 0 < b) (h : d ∈ digits b k n) : d < b := by
  induction k generalizing n with
  | zero => simp [digits] at h
  | succ k ih =>
    rw [digits, List.mem_append, List.mem_singleton] at h
    rcases h with h | rfl
    · exact ih h
    · exact Nat.mod_lt _ hb

/-- The digits carry the number modulo `b ^ k`. -/
theorem foldl_digits (b k n : ℕ) :
    (digits b k n).foldl (fun acc d => acc * b + d) 0 = n % b ^ k := by
  induction k generalizing n with
  | zero => simp [digits, Nat.mod_one]
  | succ k ih =>
    rw [digits, List.foldl_append, ih, List.foldl_cons, List.foldl_nil, Nat.pow_succ',
      Nat.mod_mul]
    ring

/-- A number in decimal, padded with zeros to a width it may exceed:
`'%0{width}d' % n`. -/
def zeroPad (width n : ℕ) : List Char :=
  if n < 10 ^ width then (digits 10 width n).map Nat.digitChar else Nat.toDigits 10 n

/-! ### The order of padded numbers -/

/-- Texts of one length are compared part by part. -/
theorem append_lt_append_iff {α : Type} [LinearOrder α] {x y z w : List α}
    (h : x.length = y.length) : x ++ z < y ++ w ↔ x < y ∨ x = y ∧ z < w := by
  induction x generalizing y with
  | nil =>
    cases y with
    | nil => simp
    | cons b y => cases h
  | cons a x ih =>
    cases y with
    | nil => cases h
    | cons b y =>
      rw [List.length_cons, List.length_cons, Nat.add_right_cancel_iff] at h
      rw [List.cons_append, List.cons_append, List.cons_lt_cons_iff, List.cons_lt_cons_iff, ih h,
        List.cons.injEq]
      tauto

theorem digitChar_lt_iff :
    ∀ d < 10, ∀ e < 10, (Nat.digitChar d < Nat.digitChar e ↔ d < e) := by
  decide

/-- Numbers of one width are ordered as their texts are. -/
theorem zeroPad_lt_iff {width m n : ℕ} (hm : m < 10 ^ width) (hn : n < 10 ^ width) :
    zeroPad width m < zeroPad width n ↔ m < n := by
  rw [zeroPad, zeroPad, if_pos hm, if_pos hn]
  induction width generalizing m n with
  | zero =>
    simp only [pow_zero, Nat.lt_one_iff] at hm hn
    simp [digits, hm, hn]
  | succ k ih =>
    have hdiv : ∀ {a : ℕ}, a < 10 ^ (k + 1) → a / 10 < 10 ^ k := by
      intro a ha
      rwa [Nat.div_lt_iff_lt_mul (by decide), ← Nat.pow_succ]
    -- as no digit is smaller, the leading digits are the same
    have heq : (digits 10 k (m / 10)).map Nat.digitChar = (digits 10 k (n / 10)).map Nat.digitChar ↔
        m / 10 = n / 10 := by
      constructor
      · intro h
        have hlt : ¬m / 10 < n / 10 := fun hlt => ((ih (hdiv hm) (hdiv hn)).mpr hlt).ne h
        have hgt : ¬n / 10 < m / 10 := fun hgt => ((ih (hdiv hn) (hdiv hm)).mpr hgt).ne' h
        omega
      · intro h
        rw [h]
    rw [digits, digits, List.map_append, List.map_append, append_lt_append_iff (by simp), heq,
      ih (hdiv hm) (hdiv hn), List.map_singleton, List.map_singleton, List.cons_lt_cons_iff,
      digitChar_lt_iff _ (Nat.mod_lt _ (by decide)) _ (Nat.mod_lt _ (by decide))]
    simp only [List.not_lt_nil, and_false, or_false]
    omega

theorem length_zeroPad {width n : ℕ} (h : n < 10 ^ width) : (zeroPad width n).length = width := by
  rw [zeroPad, if_pos h, List.length_map, length_digits]

/-- A number that is too long keeps all its digits. -/
theorem lt_length_zeroPad {width n : ℕ} (h : ¬n < 10 ^ width) :
    width < (zeroPad width n).length := by
  rw [zeroPad, if_neg h]
  rcases Nat.eq_zero_or_pos width with rfl | hpos
  · exact Nat.length_toDigits_pos
  · rw [← not_le, Nat.length_toDigits_le_iff (by decide) hpos]
    exact h

/-- **A padded number is told by its text.** -/
theorem zeroPad_injective (width : ℕ) : Function.Injective (zeroPad width) := by
  intro m n h
  have hlength := congrArg List.length h
  by_cases hm : m < 10 ^ width
  · by_cases hn : n < 10 ^ width
    · have hlt : ¬m < n := fun hlt => ((zeroPad_lt_iff hm hn).mpr hlt).ne h
      have hgt : ¬n < m := fun hgt => ((zeroPad_lt_iff hn hm).mpr hgt).ne' h
      omega
    · have := length_zeroPad hm
      have := lt_length_zeroPad hn
      omega
  · by_cases hn : n < 10 ^ width
    · have := lt_length_zeroPad hm
      have := length_zeroPad hn
      omega
    · rw [zeroPad, zeroPad, if_neg hm, if_neg hn] at h
      rw [← Nat.ofDigitChars_ten_toDigits (n := m), h, Nat.ofDigitChars_ten_toDigits]

theorem isDigit_of_mem_zeroPad {width n : ℕ} {c : Char} (h : c ∈ zeroPad width n) : c.isDigit := by
  have hdigit : ∀ d < 10, (Nat.digitChar d).isDigit := by decide
  unfold zeroPad at h
  split at h
  · rw [List.mem_map] at h
    obtain ⟨d, hd, rfl⟩ := h
    exact hdigit d (digits_lt (by decide) hd)
  · exact Nat.isDigit_of_mem_toDigits (by decide) (by decide) h

/-! ### Plain digits -/

/-- The lower-case digit of a value below sixteen. -/
def hexDigit (d : ℕ) : Char := Char.ofNat (if d < 10 then 0x30 + d else 0x61 + (d - 10))

/-- The upper-case digit of a value below sixteen. -/
def hexDigitUpper (d : ℕ) : Char := Char.ofNat (if d < 10 then 0x30 + d else 0x41 + (d - 10))

/-- What is used of the digits of a case: their values, and that no parser takes one
for anything else. -/
def PlainDigits (digit : ℕ → Char) : Prop :=
  ∀ d : ℕ, d < 16 →
    hexVal (digit d) = some d ∧ toAscii (digit d) = digit d ∧ isCSpace (digit d) = false ∧
      digit d ∉ ['_', 'x', 'X', '-', '+', '{', '}', 'u']

theorem plainDigits_hexDigit : PlainDigits hexDigit := by
  unfold PlainDigits
  decide

theorem plainDigits_hexDigitUpper : PlainDigits hexDigitUpper := by
  unfold PlainDigits
  decide

section Digits

variable {digit : ℕ → Char} (hdigit : PlainDigits digit)

include hdigit

theorem scanDigits_map_digit {ds : List ℕ} (hds : ∀ d ∈ ds, d < 16) :
    ∀ acc : ℕ, scanDigits true acc (ds.map digit)
      = some (ds.foldl (fun acc d => acc * 16 + d) acc) := by
  induction ds with
  | nil => intro acc; rfl
  | cons d ds ih =>
    intro acc
    obtain ⟨hval, -, -, hne⟩ := hdigit d (hds d List.mem_cons_self)
    have hund : digit d ≠ '_' := fun h => hne (by simp [h])
    rw [List.map_cons, scanDigits, if_neg hund, hval, List.foldl_cons]
    apply ih
    intro e he
    exact hds e (List.mem_cons_of_mem _ he)

/-- **A run of plain digits reads as its base-16 value.**  Two digits are asked
for, so that the second can be told from the `x` of a prefix. -/
theorem int16_of_digits {d e : ℕ} {ds : List ℕ} (hds : ∀ x ∈ d :: e :: ds, x < 16) :
    int16 ((d :: e :: ds).map digit)
      = some ((((d :: e :: ds).foldl (fun acc d => acc * 16 + d) 0 : ℕ)) : ℤ) := by
  have hfacts := fun x hx => hdigit x (hds x hx)
  -- the digits are ASCII already, and no whitespace stands around them
  have hascii : ((d :: e :: ds).map digit).map toAscii = (d :: e :: ds).map digit := by
    rw [List.map_map]
    apply List.map_congr_left
    intro x hx
    exact (hfacts x hx).2.1
  have hstrip : strip isCSpace ((d :: e :: ds).map digit) = (d :: e :: ds).map digit := by
    apply strip_of_ends (by simp)
    · exact (hfacts d List.mem_cons_self).2.2.1
    · rw [List.getLast_map]
      exact (hfacts _ (List.getLast_mem (by simp))).2.2.1
  have hd := hfacts d List.mem_cons_self
  have he := hfacts e (List.mem_cons_of_mem _ List.mem_cons_self)
  have hmag : magnitude16 ((d :: e :: ds).map digit)
      = some ((d :: e :: ds).foldl (fun acc d => acc * 16 + d) 0) := by
    have hscan : scanDigits false 0 ((d :: e :: ds).map digit)
        = some ((d :: e :: ds).foldl (fun acc d => acc * 16 + d) 0) := by
      have hund : digit d ≠ '_' := fun h => hd.2.2.2 (by simp [h])
      rw [List.map_cons, scanDigits, if_neg hund, hd.1]
      apply scanDigits_map_digit hdigit
      intro x hx
      exact hds x (List.mem_cons_of_mem _ hx)
    rw [← hscan]
    simp only [List.map_cons]
    -- the second digit is no `x`, so the text has no prefix
    unfold magnitude16
    split
    · next h => exact absurd (List.cons.inj (List.cons.inj h).2).1 fun h => he.2.2.2 (by simp [h])
    · next h => exact absurd (List.cons.inj (List.cons.inj h).2).1 fun h => he.2.2.2 (by simp [h])
    · rfl
  -- the first digit is no sign
  rw [int16, hascii, hstrip]
  split
  · next h => exact absurd (List.cons.inj h).1 fun h => hd.2.2.2 (by simp [h])
  · next h => exact absurd (List.cons.inj h).1 fun h => hd.2.2.2 (by simp [h])
  · rw [hmag]; rfl

end Digits

end PyStr
