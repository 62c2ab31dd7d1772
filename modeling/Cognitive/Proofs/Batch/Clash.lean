import Cognitive.Proofs.Batch.EntryName
import Cognitive.Proofs.Batch.Selection
/-!
# When a file cannot be put

A file is not put into a tree when its path goes through another file, or when the path of another file goes through its
own.  Which of the two checks finds this hangs on which file comes first and on how deep they lie; that there is such a
pair does not (`FileTree.put_eq_none_iff`), as long as no folder is empty, which is how putting leaves a tree
(`FileTree.isOccupied_put`).  So the order of the files an archive offers does not matter for whether they all find
their place (`Archive.exists_treeOf_iff`).
-/
namespace Cognitive

/-- The second path goes on where the first ends, so that the first would have to be a folder's. -/
def FilePath.IsAbove (p q : FilePath) : Prop := p <+: q ∧ p ≠ q

def FilePath.Clashes (p q : FilePath) : Prop := p.IsAbove q ∨ q.IsAbove p

namespace FilePath

theorem isAbove_cons_iff {n m : String} {p q : FilePath} :
    IsAbove (n :: p) (m :: q) ↔ n = m ∧ IsAbove p q := by
  unfold IsAbove
  rw [List.cons_prefix_cons]
  constructor
  · rintro ⟨⟨rfl, hp⟩, hne⟩
    exact ⟨rfl, hp, fun h => hne (by rw [h])⟩
  · rintro ⟨rfl, hp, hne⟩
    exact ⟨⟨rfl, hp⟩, fun h => hne (List.cons.inj h).2⟩

theorem clashes_cons_iff {n m : String} {p q : FilePath} :
    Clashes (n :: p) (m :: q) ↔ n = m ∧ Clashes p q := by
  unfold Clashes
  rw [isAbove_cons_iff, isAbove_cons_iff, eq_comm (a := m), and_or_left]

theorem isAbove_nil_left {q : FilePath} : IsAbove [] q ↔ q ≠ [] :=
  ⟨fun h => h.2.symm, fun h => ⟨List.nil_prefix, h.symm⟩⟩

theorem not_isAbove_nil {p : FilePath} : ¬ IsAbove p [] := fun h => h.2 (List.prefix_nil.1 h.1)

theorem clashes_nil_left {q : FilePath} : Clashes [] q ↔ q ≠ [] := by
  unfold Clashes
  rw [isAbove_nil_left, or_iff_left not_isAbove_nil]

theorem clashes_nil_right {p : FilePath} : Clashes p [] ↔ p ≠ [] := by
  unfold Clashes
  rw [isAbove_nil_left, or_iff_right not_isAbove_nil]

theorem Clashes.symm {p q : FilePath} (h : Clashes p q) : Clashes q p := Or.symm h

end FilePath

namespace FileTree

variable {α : Type}

/-- **Every folder holds something.** -/
def IsOccupied : FileTree α → Prop
  | .empty => True
  | .file _ _ rest => rest.IsOccupied
  | .folder _ inside rest => inside ≠ .empty ∧ inside.IsOccupied ∧ rest.IsOccupied

def Item.IsOccupied : Item α → Prop
  | .file _ => True
  | .folder inside => inside ≠ .empty ∧ inside.IsOccupied

theorem isOccupied_cons {n : String} {i : Item α} {t : FileTree α} :
    (cons n i t).IsOccupied ↔ i.IsOccupied ∧ t.IsOccupied := by
  cases i with
  | file a => exact (and_iff_right trivial).symm
  | folder inside => exact and_assoc.symm

theorem cons_ne_empty (n : String) (i : Item α) (t : FileTree α) : cons n i t ≠ .empty := by
  cases i <;> intro h <;> cases h

theorem isOccupied_item? {n : String} {i : Item α} {t : FileTree α} (ht : t.IsOccupied) (h : t.item? n = some i) :
    i.IsOccupied := by
  induction t using cons_induction with
  | empty => cases h
  | cons k j rest _ ih =>
    obtain ⟨hj, hr⟩ := isOccupied_cons.1 ht
    rw [item?_cons] at h
    split at h
    · cases h
      exact hj
    · exact ih hr h

theorem isOccupied_set {n : String} {i : Item α} {t : FileTree α} (ht : t.IsOccupied) (hi : i.IsOccupied) :
    (t.set n i).IsOccupied := by
  induction t using cons_induction with
  | empty => exact isOccupied_cons.2 ⟨hi, ht⟩
  | cons k j rest _ ih =>
    obtain ⟨hj, hr⟩ := isOccupied_cons.1 ht
    rw [set_cons]
    split
    · exact isOccupied_cons.2 ⟨hi, hr⟩
    · split
      · exact isOccupied_cons.2 ⟨hi, ht⟩
      · exact isOccupied_cons.2 ⟨hj, ih hr⟩

theorem set_ne_empty (n : String) (i : Item α) (t : FileTree α) : t.set n i ≠ .empty := by
  cases t with
  | empty => exact cons_ne_empty n i .empty
  | file k a rest =>
    rw [set]
    split
    · exact cons_ne_empty n i rest
    · split
      · exact cons_ne_empty n i _
      · exact cons_ne_empty k (.file a) _
  | folder k inside rest =>
    rw [set]
    split
    · exact cons_ne_empty n i rest
    · split
      · exact cons_ne_empty n i _
      · exact cons_ne_empty k (.folder inside) _

theorem put_ne_empty {leaf : String} {a : α} {folders : List String} {t t' : FileTree α}
    (h : put leaf a folders t = some t') : t' ≠ .empty := by
  cases folders with
  | nil =>
    obtain ⟨rfl, -⟩ := put_nil h
    exact set_ne_empty leaf _ t
  | cons f folders =>
    obtain ⟨-, inside', -, rfl, -⟩ := put_cons h
    exact set_ne_empty f _ t

theorem isOccupied_put {leaf : String} {a : α} : ∀ {folders : List String} {t t' : FileTree α},
    put leaf a folders t = some t' → t.IsOccupied → t'.IsOccupied
  | [], t, t', h, ht => by
    obtain ⟨rfl, -⟩ := put_nil h
    exact isOccupied_set ht trivial
  | f :: folders, t, t', h, ht => by
    obtain ⟨inside, inside', hp, rfl, hi⟩ := put_cons h
    have hinside : inside.IsOccupied := by
      rcases hi with hi | ⟨-, rfl⟩
      · exact (isOccupied_item? ht hi).2
      · exact trivial
    exact isOccupied_set ht ⟨put_ne_empty hp, isOccupied_put hp hinside⟩

/-- A tree in which every folder holds something holds a file, unless it is empty. -/
theorem exists_file? {t : FileTree α} (hne : t ≠ .empty) (ht : t.IsOccupied) :
    ∃ n rest a, t.file? (n :: rest) = some a := by
  induction t using cons_induction with
  | empty => exact absurd rfl hne
  | cons n i t ih _ =>
    have hitem : (cons n i t).item? n = some i := by rw [item?_cons, if_pos rfl]
    cases i with
    | file a => exact ⟨n, [], a, by rw [file?_cons, hitem]; rfl⟩
    | folder inside =>
      obtain ⟨hi, -⟩ := isOccupied_cons.1 ht
      obtain ⟨m, rest, a, h⟩ := ih inside rfl hi.1 hi.2
      exact ⟨n, m :: rest, a, by rw [file?_cons, hitem]; exact h⟩

/-- The files by a name's item: the item itself when it is a file, else those inside it. -/
theorem file?_of_item? {n : String} {i : Item α} {t : FileTree α} (h : t.item? n = some i) (rest : List String) :
    t.file? (n :: rest) = i.file? rest := by
  rw [file?_cons, h, Option.bind_some]

theorem file?_nil (t : FileTree α) : t.file? [] = none := by
  cases t <;> rfl

/-- **A file is put unless its path and that of another file clash.** -/
theorem put_eq_none_iff {leaf : String} {a : α} : ∀ {folders : List String} {t : FileTree α}, t.IsOccupied →
    (put leaf a folders t = none ↔ ∃ q b, t.file? q = some b ∧ FilePath.Clashes q (folders ++ [leaf]))
  | [], t, ht => by
    rw [put, List.nil_append]
    constructor
    · intro h
      split at h
      · next inside hi =>
        -- the name is a folder's, and the folder holds a file
        have hinside := isOccupied_item? ht hi
        obtain ⟨n, rest, b, hb⟩ := exists_file? hinside.1 hinside.2
        refine ⟨leaf :: n :: rest, b, ?_, ?_⟩
        · rw [file?_of_item? hi]
          exact hb
        · rw [FilePath.clashes_cons_iff, FilePath.clashes_nil_right]
          exact ⟨rfl, List.cons_ne_nil n rest⟩
      · cases h
    · rintro ⟨q, b, hq, hc⟩
      cases q with
      | nil =>
        rw [file?_nil] at hq
        cases hq
      | cons n rest =>
        obtain ⟨rfl, hr⟩ := FilePath.clashes_cons_iff.1 hc
        rw [FilePath.clashes_nil_right] at hr
        split
        · rfl
        · next hn =>
          rw [file?_eq_none hn hr] at hq
          cases hq
  | f :: folders, t, ht => by
    -- only files by the first folder's name can clash
    have hfirst : (∃ q b, t.file? q = some b ∧ FilePath.Clashes q (f :: folders ++ [leaf])) ↔
        ∃ rest b, t.file? (f :: rest) = some b ∧ FilePath.Clashes rest (folders ++ [leaf]) := by
      constructor
      · rintro ⟨q, b, hq, hc⟩
        cases q with
        | nil =>
          rw [file?_nil] at hq
          cases hq
        | cons n rest =>
          obtain ⟨rfl, hrest⟩ := FilePath.clashes_cons_iff.1 hc
          exact ⟨rest, b, hq, hrest⟩
      · rintro ⟨rest, b, hq, hc⟩
        exact ⟨f :: rest, b, hq, FilePath.clashes_cons_iff.2 ⟨rfl, hc⟩⟩
    rw [hfirst, put]
    split
    · next b hi =>
      refine iff_of_true rfl ⟨[], b, ?_, ?_⟩
      · rw [file?_of_item? hi]
        rfl
      · rw [FilePath.clashes_nil_left]
        simp
    · next inside hi =>
      rw [Option.map_eq_none_iff, put_eq_none_iff (isOccupied_item? ht hi).2]
      simp only [file?_of_item? hi, Item.file?]
    · next hi =>
      have hempty : ∀ q, (empty : FileTree α).file? q = none := file?_empty
      rw [Option.map_eq_none_iff, put_eq_none_iff (t := .empty) trivial]
      simp [file?_cons, hi, hempty]

end FileTree

/-! ## The files of an archive -/

namespace Archive

variable {offers : List Offer}

/-- **The offered files find their places in one tree**: they have names, none of which is unsafe, and no path goes on
where another ends. -/
structure Fits (offers : List Offer) : Prop where
  named : ∀ o ∈ offers, o.name ≠ ""
  safe : ∀ o ∈ offers, o.isFolder = false → ¬ EntryName.IsUnsafe o.name
  apart : ∀ o ∈ offers, ∀ o' ∈ offers, o.isFolder = false → o'.isFolder = false → ¬ FilePath.IsAbove o.path o'.path

/-- What one offer comes to: it has no name, is a folder's, has an unsafe name, clashes, or is put. -/
theorem add_cases (t : FileTree Offer) (o : Offer) :
    (o.name = "" ∧ add t o = breakDown .emptyEntryName) ∨
    (o.name ≠ "" ∧ o.isFolder = true ∧ add t o = .ok t) ∨
    (o.name ≠ "" ∧ o.isFolder = false ∧ ∃ why, EntryName.hazard? o.name = some why ∧
      add t o = refuse (.invalidArchive why.reason (some o.name))) ∨
    (o.name ≠ "" ∧ o.isFolder = false ∧ EntryName.hazard? o.name = none ∧
      ((t.put o.leaf o o.folders = none ∧
          add t o = refuse (.invalidArchive "entry is both a file and a folder" (some o.name))) ∨
        ∃ t', t.put o.leaf o o.folders = some t' ∧ add t o = .ok t')) := by
  by_cases hn : o.name = ""
  · refine .inl ⟨hn, ?_⟩
    simp [add, hn]
  · have hempty : o.name.isEmpty = false := by simpa using hn
    refine .inr ?_
    cases hf : o.isFolder with
    | true =>
      refine .inl ⟨hn, rfl, ?_⟩
      simp [add, hempty, hf]
    | false =>
      refine .inr ?_
      cases hh : EntryName.hazard? o.name with
      | some why =>
        refine .inl ⟨hn, rfl, why, rfl, ?_⟩
        simp [add, hempty, hf, EntryName.checked, hh]
      | none =>
        refine .inr ⟨hn, rfl, rfl, ?_⟩
        cases hp : t.put o.leaf o o.folders with
        | none =>
          refine .inl ⟨rfl, ?_⟩
          simp [add, hempty, hf, EntryName.checked, hh, hp]
        | some t' =>
          refine .inr ⟨t', rfl, ?_⟩
          simp [add, hempty, hf, EntryName.checked, hh, hp]

theorem exists_add_iff {t : FileTree Offer} (ht : t.IsOccupied) (o : Offer) :
    (∃ t', add t o = .ok t') ↔ o.name ≠ "" ∧ (o.isFolder = false →
      ¬ EntryName.IsUnsafe o.name ∧ ¬ ∃ q b, t.file? q = some b ∧ FilePath.Clashes q o.path) := by
  have hput : t.put o.leaf o o.folders = none ↔ ∃ q b, t.file? q = some b ∧ FilePath.Clashes q o.path :=
    FileTree.put_eq_none_iff ht
  rw [← EntryName.hazard?_eq_none_iff, ← hput]
  rcases add_cases t o with ⟨hn, h⟩ | ⟨hn, hf, h⟩ | ⟨hn, hf, why, hh, h⟩ | ⟨hn, hf, hh, ⟨hp, h⟩ | ⟨t', hp, h⟩⟩
  · simp [h, hn, breakDown]
  · simp [h, hn, hf]
  · simp [h, hn, hf, hh, refuse]
  · simp [h, hn, hf, hh, hp, refuse]
  · simp [h, hn, hf, hh, hp]

theorem add_eq_refused {t : FileTree Offer} {o : Offer} {r : Refusal} (h : add t o = .error (.refused r)) :
    r.cls = .invalidArchive := by
  rcases add_cases t o with ⟨-, h'⟩ | ⟨-, -, h'⟩ | ⟨-, -, why, -, h'⟩ | ⟨-, -, -, ⟨-, h'⟩ | ⟨t', -, h'⟩⟩ <;>
    rw [h'] at h <;> cases h <;> rfl

theorem add_eq_broke_iff {t : FileTree Offer} {o : Offer} {k : Breakdown} :
    add t o = .error (.broke k) ↔ o.name = "" ∧ k = .emptyEntryName := by
  rcases add_cases t o with ⟨hn, h⟩ | ⟨hn, hf, h⟩ | ⟨hn, hf, why, hh, h⟩ | ⟨hn, hf, hh, ⟨hp, h⟩ | ⟨t', hp, h⟩⟩
  · simp [h, hn, breakDown, eq_comm]
  · simp [h, hn]
  · simp [h, hn, refuse]
  · simp [h, hn, refuse]
  · simp [h, hn]

theorem isOccupied_add {t t' : FileTree Offer} {o : Offer} (h : add t o = .ok t') (ht : t.IsOccupied) :
    t'.IsOccupied := by
  rcases add_eq_ok h with ⟨-, rfl⟩ | ⟨-, hp⟩
  · exact ht
  · exact FileTree.isOccupied_put hp ht

theorem treeOf_concat (offers : List Offer) (o : Offer) : treeOf (offers ++ [o]) = treeOf offers >>= (add · o) := by
  simp [treeOf, List.foldlM_append]

theorem isOccupied_treeOf {t : FileTree Offer} (h : treeOf offers = .ok t) : t.IsOccupied := by
  induction offers using List.reverseRecOn generalizing t with
  | nil =>
    cases h
    trivial
  | append_singleton offers o ih =>
    rw [treeOf_concat] at h
    obtain ⟨t₁, h₁, h⟩ := Outcome.bind_eq_ok_iff.1 h
    exact isOccupied_add h (ih h₁)

theorem fits_concat_iff {o : Offer} : Fits (offers ++ [o]) ↔ Fits offers ∧ o.name ≠ "" ∧
    (o.isFolder = false → ¬ EntryName.IsUnsafe o.name ∧
      ∀ o' ∈ offers, o'.isFolder = false → ¬ FilePath.Clashes o'.path o.path) := by
  constructor
  · rintro ⟨hn, hs, ha⟩
    have hin : ∀ {o'}, o' ∈ offers → o' ∈ offers ++ [o] := fun h => List.mem_append_left _ h
    have hlast : o ∈ offers ++ [o] := List.mem_append_right _ (List.mem_singleton_self o)
    refine ⟨⟨fun o' h => hn o' (hin h), fun o' h => hs o' (hin h), fun o' h o'' h' => ha o' (hin h) o'' (hin h')⟩,
      hn o hlast, fun hf => ⟨hs o hlast hf, fun o' h hf' => ?_⟩⟩
    rintro (hc | hc)
    · exact ha o' (hin h) o hlast hf' hf hc
    · exact ha o hlast o' (hin h) hf hf' hc
  · rintro ⟨⟨hn, hs, ha⟩, hno, ho⟩
    refine ⟨?_, ?_, ?_⟩
    · intro o' h
      rcases List.mem_append.1 h with hm | hm
      · exact hn o' hm
      · exact List.mem_singleton.1 hm ▸ hno
    · intro o' h hf
      rcases List.mem_append.1 h with hm | hm
      · exact hs o' hm hf
      · obtain rfl := List.mem_singleton.1 hm
        exact (ho hf).1
    · intro o' h o'' h' hf hf' hc
      rcases List.mem_append.1 h with hm | hm
      · rcases List.mem_append.1 h' with hm' | hm'
        · exact ha o' hm o'' hm' hf hf' hc
        · obtain rfl := List.mem_singleton.1 hm'
          exact (ho hf').2 o' hm hf (.inl hc)
      · obtain rfl := List.mem_singleton.1 hm
        rcases List.mem_append.1 h' with hm' | hm'
        · exact (ho hf).2 o'' hm' hf' (.inr hc)
        · obtain rfl := List.mem_singleton.1 hm'
          exact hc.2 rfl

/-- **The files of an archive are put into a tree exactly when they fit**, in whatever order they come. -/
theorem exists_treeOf_iff : (∃ t, treeOf offers = .ok t) ↔ Fits offers := by
  induction offers using List.reverseRecOn with
  | nil => exact iff_of_true ⟨.empty, rfl⟩ ⟨by simp, by simp, by simp⟩
  | append_singleton offers o ih =>
    rw [fits_concat_iff, ← ih, treeOf_concat]
    constructor
    · rintro ⟨t', h⟩
      obtain ⟨t, ht, h⟩ := Outcome.bind_eq_ok_iff.1 h
      obtain ⟨hn, hf⟩ := (exists_add_iff (isOccupied_treeOf ht) o).1 ⟨t', h⟩
      refine ⟨⟨t, ht⟩, hn, fun hfile => ⟨(hf hfile).1, fun o' ho' hf' hc => (hf hfile).2 ?_⟩⟩
      obtain ⟨b, hb⟩ := isSome_lastAt?.2 ⟨o', ho', hf', rfl⟩
      exact ⟨o'.path, b, by rw [file?_treeOf ht, hb], hc⟩
    · rintro ⟨⟨t, ht⟩, hn, hf⟩
      have hadd : ∃ t', add t o = .ok t' := by
        refine (exists_add_iff (isOccupied_treeOf ht) o).2 ⟨hn, fun hfile => ⟨(hf hfile).1, ?_⟩⟩
        rintro ⟨q, b, hq, hc⟩
        rw [file?_treeOf ht] at hq
        obtain ⟨o', ho', hf', rfl⟩ := isSome_lastAt?.1 ⟨b, hq⟩
        exact (hf hfile).2 o' ho' hf' hc
      obtain ⟨t', h⟩ := hadd
      exact ⟨t', Outcome.bind_eq_ok_iff.2 ⟨t, ht, h⟩⟩

theorem treeOf_eq_refused {r : Refusal} (h : treeOf offers = .error (.refused r)) : r.cls = .invalidArchive := by
  obtain ⟨-, o, -, t, -, -, h⟩ := Outcome.foldlM_eq_error_iff.1 h
  exact add_eq_refused h

/-- Only a file without a name breaks off, when the files before it fit. -/
theorem treeOf_eq_broke_iff {k : Breakdown} : treeOf offers = .error (.broke k) ↔
    k = .emptyEntryName ∧ ∃ before o after, offers = before ++ o :: after ∧ Fits before ∧ o.name = "" := by
  unfold treeOf
  rw [Outcome.foldlM_eq_error_iff]
  constructor
  · rintro ⟨before, o, after, t, hsplit, ht, h⟩
    obtain ⟨hn, rfl⟩ := add_eq_broke_iff.1 h
    exact ⟨rfl, before, o, after, hsplit, exists_treeOf_iff.1 ⟨t, ht⟩, hn⟩
  · rintro ⟨rfl, before, o, after, hsplit, hb, hn⟩
    obtain ⟨t, ht⟩ := exists_treeOf_iff.2 hb
    exact ⟨before, o, after, t, hsplit, ht, add_eq_broke_iff.2 ⟨hn, rfl⟩⟩

end Archive
end Cognitive
