/-!
# Pieces of a text

A text is cut at every occurrence of a separator.  There is always one piece more than there are separators, so the
empty text is one empty piece and a separator at an end leaves an empty piece there.
-/
namespace Cognitive
namespace Text

/-- Puts one character in front of the pieces of the text that follows it. -/
def splitStep (sep c : Char) : List (List Char) → List (List Char)
  | [] => if c = sep then [[], []] else [[c]]
  | piece :: rest => if c = sep then [] :: piece :: rest else (c :: piece) :: rest

/-- The pieces of a text between its separators. -/
def split (sep : Char) (text : List Char) : List (List Char) :=
  text.foldr (splitStep sep) [[]]

/-- The pieces of a string between its separators, as strings. -/
def splitString (sep : Char) (text : String) : List String :=
  (split sep text.toList).map String.ofList

/-- The strings in order, with a separator between neighbours. -/
def join (sep : String) : List String → String
  | [] => ""
  | first :: rest => rest.foldl (fun text piece => text ++ sep ++ piece) first

theorem foldl_join (sep lead text : String) (rest : List String) :
    rest.foldl (fun text piece => text ++ sep ++ piece) (lead ++ text) =
      lead ++ rest.foldl (fun text piece => text ++ sep ++ piece) text := by
  induction rest generalizing text with
  | nil => rfl
  | cons piece rest ih => rw [List.foldl_cons, List.foldl_cons, String.append_assoc, String.append_assoc, ih,
      ← String.append_assoc]

theorem join_singleton (sep text : String) : join sep [text] = text := rfl

theorem join_cons (sep first : String) {rest : List String} (h : rest ≠ []) :
    join sep (first :: rest) = first ++ sep ++ join sep rest := by
  cases rest with
  | nil => exact absurd rfl h
  | cons second rest => exact foldl_join sep (first ++ sep) second rest

@[simp] theorem split_nil (sep : Char) : split sep [] = [[]] := rfl

theorem split_cons (sep c : Char) (cs : List Char) : split sep (c :: cs) = splitStep sep c (split sep cs) := rfl

theorem split_ne_nil (sep : Char) (text : List Char) : split sep text ≠ [] := by
  cases text with
  | nil => simp
  | cons c cs =>
    rw [split_cons]
    cases split sep cs <;> simp only [splitStep] <;> split <;> simp

/-- There is one piece more than there are separators. -/
theorem length_split (sep : Char) (text : List Char) : (split sep text).length = text.count sep + 1 := by
  induction text with
  | nil => rfl
  | cons c cs ih =>
    rw [split_cons]
    cases h : split sep cs with
    | nil => exact absurd h (split_ne_nil sep cs)
    | cons piece rest =>
      rw [h] at ih
      simp only [splitStep]
      split
      · next hc => simp [hc] at ih ⊢; omega
      · next hc => simp [hc] at ih ⊢; omega

end Text
end Cognitive
