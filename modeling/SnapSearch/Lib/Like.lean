import Mathlib.Computability.Language

/-!
# SQL pattern matching with `LIKE`

A pattern is a text in which `%` stands for any text, `_` for any character and
the escape character takes the special meaning from the character after it.
Compiling a pattern resolves the escapes; a pattern that ends in a lone escape
is an error.  What a compiled pattern means is a language, and the backtracking
matcher decides it.

## Main definitions

* `Token`, `compile` — patterns without escapes, and how a text becomes one.
* `language` — the texts a pattern stands for.
* `matchTokens` — the backtracking matcher.
* `CaseFold`, `ilike` — matching after a per-character case fold.
* `escape` — the term written so that each of its characters stands for itself.

## Main results

* `matchTokens_iff` — **the matcher decides the language.**
* `compile_contains` — the pattern `%term%`, escaped, always compiles.
* `matchTokens_contains` — it matches exactly the texts containing the term.
-/

namespace Like

/-- One unit of a pattern whose escapes are resolved. -/
inductive Token
  /-- `%`: any text. -/
  | any
  /-- `_`: any one character. -/
  | one
  /-- A character that stands for itself. -/
  | lit (c : Char)
  deriving DecidableEq, Repr

/-- Why a pattern is refused. -/
inductive PatternError
  /-- The pattern ends in an escape character with nothing to escape. -/
  | endsWithEscape
  deriving DecidableEq, Repr

/-! ### Compiling -/

/-- The token of a character that is not escaped. -/
def tokenOf (c : Char) : Token :=
  if c = '%' then .any else if c = '_' then .one else .lit c

/-- Resolve the escapes of a pattern; the flag says whether the character before
was an escape. -/
def compileFrom (esc : Char) : Bool → List Char → Except PatternError (List Token)
  | false, [] => .ok []
  | true, [] => .error .endsWithEscape
  | true, c :: p => (compileFrom esc false p).map (.lit c :: ·)
  | false, c :: p =>
      if c = esc then compileFrom esc true p
      else (compileFrom esc false p).map (tokenOf c :: ·)

/-- Resolve the escapes of a pattern. -/
def compile (esc : Char) (p : List Char) : Except PatternError (List Token) :=
  compileFrom esc false p

@[simp] theorem compile_nil (esc : Char) : compile esc [] = .ok [] := rfl

theorem compile_esc_cons (esc c : Char) (p : List Char) :
    compile esc (esc :: c :: p) = (compile esc p).map (.lit c :: ·) := by
  simp [compile, compileFrom]

theorem compile_cons_of_ne {esc c : Char} (hc : c ≠ esc) (p : List Char) :
    compile esc (c :: p) = (compile esc p).map (tokenOf c :: ·) := by
  simp [compile, compileFrom, hc]

/-- The characters with a special meaning. -/
def special (esc : Char) : List Char := ['%', '_', esc]

/-- The term with an escape before each special character. -/
def escape (esc : Char) (term : List Char) : List Char :=
  term.flatMap fun c => if c ∈ special esc then [esc, c] else [c]

@[simp] theorem escape_nil (esc : Char) : escape esc [] = [] := rfl

theorem escape_cons (esc c : Char) (term : List Char) :
    escape esc (c :: term) = (if c ∈ special esc then [esc, c] else [c]) ++ escape esc term := rfl

/-- An escaped term compiles to its own characters, whatever follows. -/
theorem compile_escape_append (esc : Char) (term p : List Char) :
    compile esc (escape esc term ++ p) = (compile esc p).map (term.map Token.lit ++ ·) := by
  induction term with
  | nil =>
    rw [escape_nil, List.nil_append]
    cases compile esc p <;> rfl
  | cons c term ih =>
    rw [escape_cons]
    by_cases hc : c ∈ special esc
    · -- the escape takes the character after it literally
      rw [if_pos hc, List.append_assoc, List.cons_append, List.cons_append, List.nil_append,
        compile_esc_cons, ih]
      cases compile esc p <;> rfl
    · have hne : c ≠ '%' ∧ c ≠ '_' ∧ c ≠ esc := by simpa [special] using hc
      have htok : tokenOf c = .lit c := by simp [tokenOf, hne.1, hne.2.1]
      rw [if_neg hc, List.append_assoc, List.singleton_append, compile_cons_of_ne hne.2.2, htok, ih]
      cases compile esc p <;> rfl

/-- **The pattern `%term%`, escaped, always compiles.** -/
theorem compile_contains {esc : Char} (hesc : esc ≠ '%') (term : List Char) :
    compile esc ('%' :: (escape esc term ++ ['%']))
      = .ok (.any :: (term.map Token.lit ++ [.any])) := by
  rw [compile_cons_of_ne hesc.symm, compile_escape_append, compile_cons_of_ne hesc.symm]
  rfl

/-! ### Meaning and matching -/

/-- The texts a token stands for. -/
def Token.language : Token → Language Char
  | .any => ⊤
  | .one => {s | s.length = 1}
  | .lit c => {[c]}

/-- The texts a pattern stands for: the concatenation of its tokens. -/
def language (ts : List Token) : Language Char := (ts.map Token.language).prod

@[simp] theorem language_nil : language [] = 1 := rfl

@[simp] theorem language_cons (t : Token) (ts : List Token) :
    language (t :: ts) = t.language * language ts := by simp [language]

/-- The backtracking matcher: `%` tries every suffix of the text. -/
def matchTokens : List Token → List Char → Bool
  | [], s => s.isEmpty
  | .any :: ts, s => s.tails.any (matchTokens ts)
  | .one :: _, [] => false
  | .one :: ts, _ :: s => matchTokens ts s
  | .lit _ :: _, [] => false
  | .lit c :: ts, d :: s => c == d && matchTokens ts s

/-- **The matcher decides the language of the pattern.** -/
theorem matchTokens_iff (ts : List Token) (s : List Char) :
    matchTokens ts s = true ↔ s ∈ language ts := by
  induction ts generalizing s with
  | nil => rw [language_nil, Language.mem_one, matchTokens, List.isEmpty_iff]
  | cons t ts ih =>
    rw [language_cons, Language.mem_mul]
    cases t with
    | any =>
      rw [matchTokens, List.any_eq_true]
      -- `%` stands for what comes before the suffix that matches the rest
      constructor
      · rintro ⟨u, hu, hmatch⟩
        obtain ⟨v, rfl⟩ := (List.mem_tails u s).mp hu
        exact ⟨v, Set.mem_univ v, u, (ih u).mp hmatch, rfl⟩
      · rintro ⟨v, -, u, hu, rfl⟩
        exact ⟨u, (List.mem_tails u _).mpr (List.suffix_append v u), (ih u).mpr hu⟩
    | one =>
      cases s with
      | nil =>
        rw [matchTokens]
        apply iff_of_false Bool.false_ne_true
        rintro ⟨v, hv, u, -, h⟩
        have hv1 : v.length = 1 := hv
        rw [(List.append_eq_nil_iff.mp h).1] at hv1
        simp at hv1
      | cons d s =>
        rw [matchTokens, ih]
        constructor
        · intro h
          exact ⟨[d], rfl, s, h, rfl⟩
        · rintro ⟨v, hv, u, hu, h⟩
          obtain ⟨e, rfl⟩ := List.length_eq_one_iff.mp (show v.length = 1 from hv)
          obtain ⟨-, rfl⟩ := List.cons.inj h
          exact hu
    | lit c =>
      cases s with
      | nil =>
        rw [matchTokens]
        apply iff_of_false Bool.false_ne_true
        rintro ⟨v, hv, u, -, h⟩
        obtain rfl : v = [c] := hv
        simp at h
      | cons d s =>
        rw [matchTokens, Bool.and_eq_true, beq_iff_eq, ih]
        constructor
        · rintro ⟨rfl, h⟩
          exact ⟨[c], rfl, s, h, rfl⟩
        · rintro ⟨v, hv, u, hu, h⟩
          obtain rfl : v = [c] := hv
          obtain ⟨rfl, rfl⟩ := List.cons.inj h
          exact ⟨rfl, hu⟩

/-- A literal text stands for itself alone. -/
theorem mem_language_map_lit_append {w s : List Char} {ts : List Token} :
    s ∈ language (w.map Token.lit ++ ts) ↔ ∃ u ∈ language ts, w ++ u = s := by
  induction w generalizing s with
  | nil => simp
  | cons c w ih =>
    rw [List.map_cons, List.cons_append, language_cons, Language.mem_mul]
    constructor
    · rintro ⟨v, hv, u, hu, rfl⟩
      obtain rfl : v = [c] := hv
      obtain ⟨u', hu', rfl⟩ := ih.mp hu
      exact ⟨u', hu', rfl⟩
    · rintro ⟨u, hu, rfl⟩
      exact ⟨[c], rfl, w ++ u, ih.mpr ⟨u, hu, rfl⟩, rfl⟩

/-- **The compiled `%term%` matches exactly the texts that contain the term.** -/
theorem matchTokens_contains (w s : List Char) :
    matchTokens (.any :: (w.map Token.lit ++ [.any])) s = true ↔ w <:+: s := by
  rw [matchTokens_iff, language_cons, Language.mem_mul]
  constructor
  · rintro ⟨v, -, u, hu, rfl⟩
    obtain ⟨u', -, rfl⟩ := mem_language_map_lit_append.mp hu
    exact ⟨v, u', by rw [List.append_assoc]⟩
  · rintro ⟨v, u, rfl⟩
    refine ⟨v, Set.mem_univ v, w ++ u, mem_language_map_lit_append.mpr ⟨u, ?_, rfl⟩, ?_⟩
    · rw [language_cons, language_nil, mul_one]
      exact Set.mem_univ u
    · rw [List.append_assoc]

/-! ### Case folding -/

/-- A per-character case fold that keeps the special characters to themselves. -/
structure CaseFold (esc : Char) where
  fold : Char → Char
  fixes : ∀ c ∈ special esc, fold c = c
  reflects : ∀ c, fold c ∈ special esc → c ∈ special esc

namespace CaseFold

variable {esc : Char} (f : CaseFold esc)

theorem mem_special_iff (c : Char) : f.fold c ∈ special esc ↔ c ∈ special esc := by
  constructor
  · exact f.reflects c
  · intro h
    rw [f.fixes c h]
    exact h

theorem fold_esc : f.fold esc = esc := f.fixes esc (by simp [special])

theorem fold_percent : f.fold '%' = '%' := f.fixes '%' (by simp [special])

/-- Folding an escaped term is escaping the folded term. -/
theorem map_escape (term : List Char) :
    (escape esc term).map f.fold = escape esc (term.map f.fold) := by
  induction term with
  | nil => rfl
  | cons c term ih =>
    rw [escape_cons, List.map_append, ih, List.map_cons, escape_cons]
    congr 1
    by_cases hc : c ∈ special esc
    · rw [if_pos hc, if_pos ((f.mem_special_iff c).mpr hc), List.map_cons, f.fold_esc]
      rfl
    · rw [if_neg hc, if_neg (mt (f.mem_special_iff c).mp hc)]
      rfl

end CaseFold

/-- `text LIKE pattern ESCAPE esc`. -/
def like (esc : Char) (text pattern : List Char) : Except PatternError Bool :=
  (compile esc pattern).map fun ts => matchTokens ts text

/-- `text ILIKE pattern ESCAPE esc`: both sides are folded first. -/
def ilike {esc : Char} (f : CaseFold esc) (text pattern : List Char) : Except PatternError Bool :=
  like esc (text.map f.fold) (pattern.map f.fold)

end Like
