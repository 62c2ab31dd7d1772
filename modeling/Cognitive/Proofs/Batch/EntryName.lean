import Cognitive.Batch.EntryName
import Cognitive.Proofs.Text.Split
/-!
# Clean names and unsafe names

A clean name holds no backslash and does not start with `./` (`backslash_not_mem_cleanChars`, `cleanChars_ne_dot`),
and a name of this form is clean already (`cleanChars_eq_self`).  Names are refused for what their clean form says,
piece by piece (`hazard?_eq_none_iff`): the check reads the pieces without the empty ones and the single dots, and that
these do not count is because a clean name that is not absolute has none in front.
-/
namespace Cognitive
namespace EntryName

/-! ## Clean names -/

theorem dropDots_of_ne {text : List Char} (h : ∀ rest, text ≠ '.' :: '/' :: rest) : dropDots text = text := by
  unfold dropDots
  split
  · next rest => exact absurd rfl (h rest)
  · rfl

theorem dropDots_ne_dot (text rest : List Char) : dropDots text ≠ '.' :: '/' :: rest := by
  fun_induction dropDots text with
  | case1 inner ih => exact ih
  | case2 text hne => exact hne rest

theorem mem_of_mem_dropDots {text : List Char} {c : Char} (h : c ∈ dropDots text) : c ∈ text := by
  fun_induction dropDots text with
  | case1 inner ih =>
    have hc := (List.dropWhile_sublist (· == '/')).subset (ih h)
    exact List.mem_cons_of_mem _ (List.mem_cons_of_mem _ hc)
  | case2 => exact h

theorem backslash_not_mem_cleanChars (name : List Char) : '\\' ∉ cleanChars name := by
  intro h
  obtain ⟨c, -, hc⟩ := List.mem_map.1 (mem_of_mem_dropDots h)
  unfold slashFor at hc
  split at hc
  · cases hc
  · next hne => exact hne hc

theorem cleanChars_ne_dot (name rest : List Char) : cleanChars name ≠ '.' :: '/' :: rest :=
  dropDots_ne_dot _ rest

theorem map_slashFor {text : List Char} (h : '\\' ∉ text) : text.map slashFor = text := by
  refine (List.map_congr_left fun c hc => ?_).trans (List.map_id text)
  have hne : c ≠ '\\' := fun he => h (he ▸ hc)
  rw [slashFor, if_neg hne, id]

/-- **A text without backslashes and without `./` in front is clean already.** -/
theorem cleanChars_eq_self {text : List Char} (hback : '\\' ∉ text) (hdot : ∀ rest, text ≠ '.' :: '/' :: rest) :
    cleanChars text = text := by
  rw [cleanChars, map_slashFor hback, dropDots_of_ne hdot]

theorem toList_clean (name : String) : (clean name).toList = cleanChars name.toList := by
  rw [clean, String.toList_ofList]

/-! ## Pieces -/

/-- The pieces of a name: those of its clean form. -/
def pieces (name : String) : List String := Text.splitString '/' (clean name)

theorem head?_pieces (name : String) : (pieces name).head? = some (top name) := by
  rw [pieces, Text.head?_splitString, toList_clean]
  rfl

theorem mem_pieces {name piece : String} (h : piece ∈ pieces name) :
    '/' ∉ piece.toList ∧ '\\' ∉ piece.toList := by
  refine ⟨fun hc => (Text.mem_splitString h _ hc).2 rfl, fun hc => ?_⟩
  have hm := (Text.mem_splitString h _ hc).1
  rw [toList_clean] at hm
  exact backslash_not_mem_cleanChars _ hm

/-- The clean name again, from the first piece on. -/
theorem cleanChars_eq_of_pieces {name first : String} {rest : List String} (h : pieces name = first :: rest)
    (hr : rest ≠ []) : cleanChars name.toList = first.toList ++ '/' :: (Text.join "/" rest).toList := by
  have hj := Text.join_splitString (clean name)
  rw [← toList_clean, ← hj, show Text.splitString '/' (clean name) = first :: rest from h, Text.join_cons "/" first hr,
    String.toList_append, String.toList_append, List.append_assoc]
  rfl

/-- The first piece is a single dot only when it is the only one. -/
theorem first_ne_dot {name first : String} {rest : List String} (h : pieces name = first :: rest) (hr : rest ≠ []) :
    first ≠ "." := by
  rintro rfl
  exact cleanChars_ne_dot name.toList _ (cleanChars_eq_of_pieces h hr)

theorem top_eq_of_pieces {name first : String} {rest : List String} (h : pieces name = first :: rest) :
    top name = first := by
  have hh := head?_pieces name
  rw [h, List.head?_cons, Option.some.injEq] at hh
  exact hh.symm

theorem isAtTop_iff (name : String) : isAtTop name = true ↔ (pieces name).length = 1 := by
  have hl : (pieces name).length = (cleanChars name.toList).count '/' + 1 := by
    rw [pieces, Text.splitString, List.length_map, Text.length_split, toList_clean]
  rw [hl, isAtTop]
  simp [List.count_eq_zero]

/-! ## Unsafe names -/

/-- **The clean name leads out of the folder that it is unpacked into**: it starts at the root or at a drive, or it goes
up. -/
inductive IsUnsafe (name : String) : Prop where
  | absolute (h : (clean name).toList.head? = some '/')
  | drive {first : String} (hf : (pieces name).find? (fun p => p != ".") = some first)
      (h : first.toList.getLast? = some ':')
  | upward (h : ".." ∈ pieces name)

theorem segments_clean (name : String) :
    Path.segments (clean name) = (pieces name).filter fun p => !Path.isVoid p := rfl

/-- An empty piece in front of others is an absolute name's. -/
theorem first_ne_empty {name first : String} {rest : List String} (h : pieces name = first :: rest) (hr : rest ≠ [])
    (ha : (clean name).toList.head? ≠ some '/') : first ≠ "" := by
  rintro rfl
  rw [toList_clean, cleanChars_eq_of_pieces h hr] at ha
  exact ha rfl

/-- The first segment is the first piece, in a name of more than one piece that is not absolute. -/
theorem exists_drive_iff {name : String} (ha : (clean name).toList.head? ≠ some '/') :
    (∃ first rest, Path.segments (clean name) = first :: rest ∧ first.toList.getLast? = some ':') ↔
      ∃ first, (pieces name).find? (fun p => p != ".") = some first ∧ first.toList.getLast? = some ':' := by
  rw [segments_clean]
  cases hp : pieces name with
  | nil => exact absurd hp (Text.splitString_ne_nil _)
  | cons first rest =>
    by_cases hr : rest = []
    · subst hr
      by_cases he : first = ""
      · subst he
        simp [Path.isVoid]
      · by_cases hd : first = "."
        · simp [Path.isVoid, hd]
        · simp [Path.isVoid, he, hd]
    · have he := first_ne_empty hp hr ha
      have hd := first_ne_dot hp hr
      simp [Path.isVoid, he, hd]

theorem isAbsolute_iff {text : String} : Path.isAbsolute text = true ↔ text.toList.head? = some '/' := by
  rw [Path.isAbsolute, beq_iff_eq]

theorem hazard?_of_not_drive {name : String} (ha : (clean name).toList.head? ≠ some '/')
    (hd : ¬ ∃ first rest, Path.segments (clean name) = first :: rest ∧ first.toList.getLast? = some ':') :
    hazard? name = if ".." ∈ pieces name then some .traversal else none := by
  have hup : ".." ∈ Path.segments (clean name) ↔ ".." ∈ pieces name := by
    rw [segments_clean, List.mem_filter]
    exact and_iff_left (by decide)
  have habs : Path.isAbsolute (clean name) = false := by
    rw [← Bool.not_eq_true, isAbsolute_iff]
    exact ha
  unfold hazard?
  cases hs : Path.segments (clean name) with
  | nil =>
    rw [hs] at hup
    simp [habs, hs, ← hup]
  | cons first rest =>
    have hl : first.toList.getLast? ≠ some ':' := fun hl => hd ⟨first, rest, hs, hl⟩
    rw [hs] at hup
    simp [habs, hs, hl, ← hup]

/-- **A name is refused exactly when it is unsafe.** -/
theorem hazard?_eq_none_iff (name : String) : hazard? name = none ↔ ¬ IsUnsafe name := by
  by_cases ha : (clean name).toList.head? = some '/'
  · refine iff_of_false ?_ (not_not_intro (.absolute ha))
    simp [hazard?, isAbsolute_iff.2 ha]
  · by_cases hd : ∃ first rest, Path.segments (clean name) = first :: rest ∧ first.toList.getLast? = some ':'
    · obtain ⟨first, hf, hl⟩ := (exists_drive_iff ha).1 hd
      refine iff_of_false ?_ (not_not_intro (.drive hf hl))
      obtain ⟨first, rest, hs, hl⟩ := hd
      simp [hazard?, hs, hl]
    · rw [hazard?_of_not_drive ha hd, ite_eq_right_iff]
      constructor
      · rintro h (hab | ⟨hf, hl⟩ | hm)
        · exact ha hab
        · exact hd ((exists_drive_iff ha).2 ⟨_, hf, hl⟩)
        · cases h hm
      · intro h hm
        exact absurd (.upward hm) h

/-! ## The root -/

/-- **The root is the first piece of every name that counts**; there is such a name, and none is a single piece. -/
theorem commonRoot_eq_some_iff {names : List String} {root : String} : commonRoot names = some root ↔
    (∃ name ∈ names, isIgnoredForRoot name = false) ∧
      ∀ name ∈ names, isIgnoredForRoot name = false → top name = root ∧ isAtTop name = false := by
  have hmem : ∀ name, name ∈ names.filter (fun n => !isIgnoredForRoot n) ↔
      name ∈ names ∧ isIgnoredForRoot name = false := fun name => by simp [List.mem_filter]
  unfold commonRoot
  generalize names.filter (fun n => !isIgnoredForRoot n) = files at hmem
  simp only [← and_imp, ← hmem]
  cases files with
  | nil => simp
  | cons first rest =>
    rw [and_iff_right ⟨first, List.mem_cons_self⟩]
    by_cases htop : (first :: rest).any isAtTop = true
    · obtain ⟨name, hname, hat⟩ := List.any_eq_true.1 htop
      rw [if_pos htop]
      refine iff_of_false (Option.some_ne_none root).symm fun h => ?_
      rw [(h name hname).2] at hat
      cases hat
    · have hapart : ∀ name ∈ first :: rest, isAtTop name = false := by
        simpa only [Bool.not_eq_true, List.any_eq_false] using htop
      rw [if_neg htop, List.map_cons]
      simp only [Option.ite_none_right_eq_some, List.all_map, List.all_eq_true, Function.comp_apply, beq_iff_eq,
        Option.some.injEq]
      constructor
      · rintro ⟨hsame, rfl⟩ name hname
        rcases List.mem_cons.1 hname with rfl | hrest
        · exact ⟨rfl, hapart _ hname⟩
        · exact ⟨hsame name hrest, hapart name hname⟩
      · intro h
        have hfirst : top first = root := (h first List.mem_cons_self).1
        exact ⟨fun name hrest => (h name (List.mem_cons_of_mem first hrest)).1.trans hfirst.symm, hfirst⟩

theorem commonRoot_eq_some {names : List String} {root : String} (h : commonRoot names = some root) {name : String}
    (hn : name ∈ names) (hi : isIgnoredForRoot name = false) : top name = root ∧ isAtTop name = false :=
  (commonRoot_eq_some_iff.1 h).2 name hn hi

end EntryName
end Cognitive
