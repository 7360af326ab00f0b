import SnapSearch.Lib.Like
import SnapSearch.Lib.PyStr

/-!
# Literal search terms

`app/services/search/text.py`: the term a user types is searched for literally,
so the wildcards of `LIKE` are escaped before the term is put between two of
them.

## Main results

* `toList_escapeLike` — three replacements in a row escape each character once.
* `ilike_likePattern` — **the pattern is never refused, and matches exactly the
  texts that contain the term.**
-/

namespace SnapSearch

open PyStr

def likeEscapeChar : Char := '\\'

/-- `s.replace(old, new)` on strings. -/
def replaceStr (s old new : String) : String :=
  String.ofList (replace old.toList new.toList s.toList)

/-- `escape_like`: the escape character is doubled first, so that the escapes the
later replacements insert are not escaped again. -/
def escapeLike (term : String) : String :=
  let esc := String.singleton likeEscapeChar
  replaceStr (replaceStr (replaceStr term esc (esc ++ esc)) "%" (esc ++ "%")) "_" (esc ++ "_")

/-- `like_pattern`: the escaped term between two wildcards. -/
def likePattern (term : String) : String := "%" ++ escapeLike term ++ "%"

/-- What the three replacements make of one character. -/
theorem escapeLike_char (c : Char) :
    ((if c = '\\' then ['\\', '\\'] else [c]).flatMap fun d =>
      (if d = '%' then ['\\', '%'] else [d]).flatMap fun e =>
        if e = '_' then ['\\', '_'] else [e])
      = if c ∈ Like.special likeEscapeChar then [likeEscapeChar, c] else [c] := by
  by_cases h1 : c = '\\'
  · subst h1; decide
  · by_cases h2 : c = '%'
    · subst h2; decide
    · by_cases h3 : c = '_'
      · subst h3; decide
      · simp [Like.special, likeEscapeChar, h1, h2, h3]

/-- **Three replacements in a row escape each character once.** -/
theorem toList_escapeLike (term : String) :
    (escapeLike term).toList = Like.escape likeEscapeChar term.toList := by
  have hstep : ∀ (s : String) (o : Char) (new : List Char),
      (replaceStr s (String.ofList [o]) (String.ofList new)).toList
        = s.toList.flatMap fun c => if c = o then new else [c] := by
    intro s o new
    simp only [replaceStr, String.toList_ofList, replace_singleton]
  -- each replacement works on what the one before it left
  have h1 := hstep term '\\' ['\\', '\\']
  have h2 := hstep (replaceStr term "\\" "\\\\") '%' ['\\', '%']
  have h3 := hstep (replaceStr (replaceStr term "\\" "\\\\") "%" "\\%") '_' ['\\', '_']
  calc (escapeLike term).toList
      = (((term.toList.flatMap fun c => if c = '\\' then ['\\', '\\'] else [c]).flatMap fun c =>
          if c = '%' then ['\\', '%'] else [c]).flatMap fun c =>
            if c = '_' then ['\\', '_'] else [c]) := by
        rw [← h1, ← h2]
        exact h3
    _ = term.toList.flatMap fun c =>
          if c ∈ Like.special likeEscapeChar then [likeEscapeChar, c] else [c] := by
        rw [List.flatMap_assoc, List.flatMap_assoc]
        apply List.flatMap_congr
        intro c _
        exact escapeLike_char c
    _ = Like.escape likeEscapeChar term.toList := rfl

theorem toList_likePattern (term : String) :
    (likePattern term).toList = '%' :: (Like.escape likeEscapeChar term.toList ++ ['%']) := by
  rw [likePattern, String.toList_append, String.toList_append, toList_escapeLike]
  rfl

/-- The folded pattern compiles to the folded term between two wildcards. -/
theorem compile_map_likePattern (f : Like.CaseFold likeEscapeChar) (term : String) :
    Like.compile likeEscapeChar ((likePattern term).toList.map f.fold)
      = .ok (.any :: ((term.toList.map f.fold).map Like.Token.lit ++ [.any])) := by
  rw [toList_likePattern, List.map_cons, List.map_append, f.map_escape, List.map_cons,
    f.fold_percent]
  exact Like.compile_contains (by decide) _

/-- **User input is matched literally**: whatever the term and the text, the
pattern is never refused, and it matches exactly where the folded term occurs in
the folded text. -/
theorem ilike_likePattern (f : Like.CaseFold likeEscapeChar) (term text : String) :
    ∃ b, Like.ilike f text.toList (likePattern term).toList = .ok b ∧
      (b = true ↔ term.toList.map f.fold <:+: text.toList.map f.fold) := by
  refine ⟨_, ?_, Like.matchTokens_contains _ _⟩
  rw [Like.ilike, Like.like, compile_map_likePattern]
  rfl

end SnapSearch
