import Cognitive.Text.Split
/-!
# Cutting and joining

Cutting a text at slashes and joining pieces with slashes undo each other (`join_splitString`, `splitString_join`): a
text is known by its pieces, and pieces without slashes are known by the text that they are joined to.
-/
namespace Cognitive
namespace Text

theorem split_eq_splitOn (sep : Char) (text : List Char) : split sep text = text.splitOn sep := by
  induction text with
  | nil => rfl
  | cons c cs ih =>
    rw [split_cons, ih, List.splitOn_cons_eq_if_modifyHead]
    cases h : cs.splitOn sep with
    | nil => exact absurd h (List.splitOn_ne_nil sep cs)
    | cons piece rest => simp [splitStep]

theorem mem_split {sep : Char} {text piece : List Char} (h : piece ∈ split sep text) :
    ∀ c ∈ piece, c ∈ text ∧ c ≠ sep := by
  induction text generalizing piece with
  | nil =>
    rw [split_nil, List.mem_singleton] at h
    simp [h]
  | cons d ds ih =>
    intro c hc
    have hlater : ∀ {p}, p ∈ split sep ds → c ∈ p → c ∈ d :: ds ∧ c ≠ sep := fun hp hcp =>
      ⟨List.mem_cons_of_mem d (ih hp c hcp).1, (ih hp c hcp).2⟩
    rw [split_cons] at h
    cases hs : split sep ds with
    | nil => exact absurd hs (split_ne_nil sep ds)
    | cons first rest =>
      rw [hs] at h
      simp only [splitStep] at h
      split at h
      · rcases List.mem_cons.1 h with rfl | h
        · cases hc
        · exact hlater (hs ▸ h) hc
      · next hd =>
        rcases List.mem_cons.1 h with rfl | h
        · rcases List.mem_cons.1 hc with rfl | hc
          · exact ⟨List.mem_cons_self, hd⟩
          · exact hlater (hs ▸ List.mem_cons_self) hc
        · exact hlater (hs ▸ List.mem_cons_of_mem first h) hc

theorem head?_split (sep : Char) (text : List Char) :
    (split sep text).head? = some (text.takeWhile (· != sep)) := by
  induction text with
  | nil => rfl
  | cons c cs ih =>
    rw [split_cons, List.takeWhile_cons]
    cases h : split sep cs with
    | nil => exact absurd h (split_ne_nil sep cs)
    | cons piece rest =>
      rw [h] at ih
      simp only [splitStep]
      by_cases hc : c = sep
      · simp [hc]
      · simpa [hc] using ih

/-- **The pieces of two texts put together**: those of the first, those of the second, and one where they meet. -/
theorem exists_split_append (sep : Char) (a b : List Char) :
    ∃ lines last first rest, split sep a = lines ++ [last] ∧ split sep b = first :: rest ∧
      split sep (a ++ b) = lines ++ (last ++ first) :: rest := by
  induction a with
  | nil =>
    obtain ⟨first, rest, hb⟩ := List.exists_cons_of_ne_nil (split_ne_nil sep b)
    exact ⟨[], [], first, rest, rfl, hb, by simpa using hb⟩
  | cons c a ih =>
    obtain ⟨lines, last, first, rest, ha, hb, hab⟩ := ih
    rw [List.cons_append, split_cons, split_cons, ha, hab]
    by_cases hc : c = sep
    · refine ⟨[] :: lines, last, first, rest, ?_, hb, ?_⟩ <;> cases lines <;> simp [splitStep, hc]
    · cases lines with
      | nil => exact ⟨[], c :: last, first, rest, by simp [splitStep, hc], hb, by simp [splitStep, hc]⟩
      | cons line lines =>
        exact ⟨(c :: line) :: lines, last, first, rest, by simp [splitStep, hc], hb, by simp [splitStep, hc]⟩

/-- A text that is put together with a separator has the pieces of both parts. -/
theorem split_append (sep : Char) (a b : List Char) : split sep (a ++ sep :: b) = split sep a ++ split sep b := by
  obtain ⟨lines, last, first, rest, ha, hb, hab⟩ := exists_split_append sep a (sep :: b)
  have hsep : split sep (sep :: b) = [] :: split sep b := by
    obtain ⟨piece, pieces, h⟩ := List.exists_cons_of_ne_nil (split_ne_nil sep b)
    rw [split_cons, h]
    simp [splitStep]
  rw [hsep, List.cons.injEq] at hb
  rw [hab, ha, ← hb.1, ← hb.2, List.append_nil, List.append_assoc, List.singleton_append]

theorem getLast?_split_append (sep : Char) (a b : List Char) :
    (split sep (a ++ sep :: b)).getLast? = (split sep b).getLast? := by
  obtain ⟨last, hlast⟩ := Option.isSome_iff_exists.1 (List.getLast?_isSome.2 (split_ne_nil sep b))
  rw [split_append, List.getLast?_append, hlast, Option.some_or]

theorem toList_join (sep : String) (pieces : List String) :
    (join sep pieces).toList = sep.toList.intercalate (pieces.map String.toList) := by
  induction pieces with
  | nil => rfl
  | cons first rest ih =>
    by_cases h : rest = []
    · subst h
      simp [join_singleton]
    · obtain ⟨second, rest, rfl⟩ := List.exists_cons_of_ne_nil h
      rw [join_cons sep first h, String.toList_append, String.toList_append, ih]
      simp [List.intercalate]

theorem mem_join {sep : String} {pieces : List String} {c : Char} (h : c ∈ (join sep pieces).toList) :
    c ∈ sep.toList ∨ ∃ p ∈ pieces, c ∈ p.toList := by
  induction pieces with
  | nil => cases h
  | cons first rest ih =>
    by_cases hr : rest = []
    · subst hr
      exact .inr ⟨first, List.mem_singleton_self first, h⟩
    · rw [join_cons sep first hr, String.toList_append, String.toList_append, List.mem_append, List.mem_append] at h
      rcases h with (h | h) | h
      · exact .inr ⟨first, List.mem_cons_self, h⟩
      · exact .inl h
      · rcases ih h with hs | ⟨p, hp, hc⟩
        · exact .inl hs
        · exact .inr ⟨p, List.mem_cons_of_mem first hp, hc⟩

theorem mem_join_of_mem {sep piece : String} {pieces : List String} {c : Char} (h : piece ∈ pieces)
    (hc : c ∈ piece.toList) : c ∈ (join sep pieces).toList := by
  induction pieces with
  | nil => cases h
  | cons first rest ih =>
    by_cases hr : rest = []
    · subst hr
      rwa [join_singleton, ← List.mem_singleton.1 h]
    · rw [join_cons sep first hr, String.toList_append, String.toList_append, List.mem_append, List.mem_append]
      rcases List.mem_cons.1 h with rfl | h
      · exact .inl (.inl hc)
      · exact .inr (ih h)

/-- What a joined text ends in is what its last piece ends in. -/
theorem getLast?_join {sep last : String} {pieces : List String} (h : pieces.getLast? = some last)
    (hne : last ≠ "") : (join sep pieces).toList.getLast? = last.toList.getLast? := by
  induction pieces with
  | nil => cases h
  | cons first rest ih =>
    by_cases hr : rest = []
    · subst hr
      rw [List.getLast?_singleton, Option.some.injEq] at h
      rw [join_singleton, h]
    · have hlast : rest.getLast? = some last := by
        rwa [List.getLast?_cons_of_ne_nil hr] at h
      obtain ⟨c, hc⟩ : ∃ c, last.toList.getLast? = some c :=
        Option.ne_none_iff_exists'.1 fun hn => hne (String.toList_eq_nil_iff.1 (List.getLast?_eq_none_iff.1 hn))
      rw [join_cons sep first hr, String.toList_append, List.getLast?_append, ih hlast, hc, Option.some_or]

/-- **Cutting and joining gives the text back.** -/
theorem join_splitString (text : String) : join "/" (splitString '/' text) = text := by
  rw [← String.toList_inj, toList_join, splitString, List.map_map, split_eq_splitOn]
  have hid : (String.toList ∘ String.ofList) = id := funext fun _ => String.toList_ofList
  rw [hid, List.map_id]
  exact List.intercalate_splitOn '/'

/-- **Joining and cutting gives the pieces back**, when no separator is inside a piece. -/
theorem splitString_join {pieces : List String} (hne : pieces ≠ []) (h : ∀ p ∈ pieces, '/' ∉ p.toList) :
    splitString '/' (join "/" pieces) = pieces := by
  have hslash : "/".toList = ['/'] := rfl
  rw [splitString, split_eq_splitOn, toList_join, hslash, List.splitOn_intercalate, List.map_map]
  · have hid : (String.ofList ∘ String.toList) = id := funext fun _ => String.ofList_toList
    rw [hid, List.map_id]
  · intro l hl
    obtain ⟨p, hp, rfl⟩ := List.mem_map.1 hl
    exact h p hp
  · simpa using hne

theorem mem_splitString {text piece : String} (h : piece ∈ splitString '/' text) :
    ∀ c ∈ piece.toList, c ∈ text.toList ∧ c ≠ '/' := by
  obtain ⟨chars, hc, rfl⟩ := List.mem_map.1 h
  rw [String.toList_ofList]
  exact mem_split hc

theorem head?_splitString (text : String) :
    (splitString '/' text).head? = some (String.ofList (text.toList.takeWhile (· != '/'))) := by
  rw [splitString, List.head?_map, head?_split]
  rfl

theorem splitString_ne_nil (text : String) : splitString '/' text ≠ [] := by
  simp [splitString, split_ne_nil]

end Text
end Cognitive
