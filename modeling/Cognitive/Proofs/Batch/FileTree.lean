import Cognitive.Proofs.Settings.Selects
/-!
# What a tree of files holds

A tree is known by the file at each path (`FileTree.file?`): putting a file changes the file at its own path only
(`file?_put`).  As long as the names in each folder rise, the files of the tree in the order of a visit are those that
it has at all, in the order of their paths (`mem_files`, `files_rising`), and a selection picks from them
(`select_eq_ok`).
-/
namespace Cognitive
namespace FileTree

variable {α : Type}

def file? : List String → FileTree α → Option α
  | [], _ => none
  | n :: rest, t =>
    match t.item? n with
    | some (.file a) => if rest = [] then some a else none
    | some (.folder inside) => file? rest inside
    | none => none

def files : FileTree α → List (List String × α)
  | .empty => []
  | .file n a rest => ([n], a) :: rest.files
  | .folder n inside rest => (inside.files.map fun e => (n :: e.1, e.2)) ++ rest.files

def names : FileTree α → List String
  | .empty => []
  | .file n _ rest => n :: rest.names
  | .folder n _ rest => n :: rest.names

/-- **The names in each folder rise.** -/
def IsRising : FileTree α → Prop
  | .empty => True
  | .file n _ rest => (∀ m ∈ rest.names, n < m) ∧ rest.IsRising
  | .folder n inside rest => (∀ m ∈ rest.names, n < m) ∧ inside.IsRising ∧ rest.IsRising

namespace Item

def file? (path : List String) : Item α → Option α
  | .file a => if path = [] then some a else none
  | .folder inside => inside.file? path

def files : Item α → List (List String × α)
  | .file a => [([], a)]
  | .folder inside => inside.files

def IsRising : Item α → Prop
  | .file _ => True
  | .folder inside => inside.IsRising

end Item

/-! ## The first name of a folder -/

/-- Both kinds of items are passed in the same way, so that one case stands for both. -/
theorem cons_induction {motive : FileTree α → Prop} (empty : motive .empty)
    (cons : ∀ n i rest, (∀ inside, i = Item.folder inside → motive inside) → motive rest → motive (cons n i rest)) :
    ∀ t, motive t
  | .empty => empty
  | .file n a rest => cons n (.file a) rest (fun _ h => nomatch h) (cons_induction empty cons rest)
  | .folder n inside rest =>
    cons n (.folder inside) rest (fun _ h => Item.folder.inj h ▸ cons_induction empty cons inside)
      (cons_induction empty cons rest)

theorem item?_cons (n m : String) (i : Item α) (t : FileTree α) :
    (cons n i t).item? m = if n = m then some i else t.item? m := by
  cases i with
  | file a => rfl
  | folder inside => rfl

theorem set_cons (n m : String) (i j : Item α) (t : FileTree α) :
    (cons n i t).set m j =
      if n = m then cons m j t else if m < n then cons m j (cons n i t) else cons n i (t.set m j) := by
  cases i with
  | file a => rfl
  | folder inside => rfl

theorem names_cons (n : String) (i : Item α) (t : FileTree α) : (cons n i t).names = n :: t.names := by
  cases i with
  | file a => rfl
  | folder inside => rfl

theorem files_cons (n : String) (i : Item α) (t : FileTree α) :
    (cons n i t).files = (i.files.map fun e => (n :: e.1, e.2)) ++ t.files := by
  cases i with
  | file a => rfl
  | folder inside => rfl

theorem isRising_cons {n : String} {i : Item α} {t : FileTree α} :
    (cons n i t).IsRising ↔ (∀ m ∈ t.names, n < m) ∧ i.IsRising ∧ t.IsRising := by
  cases i with
  | file a => exact and_congr_right fun _ => (and_iff_right trivial).symm
  | folder inside => exact Iff.rfl

theorem file?_cons (n : String) (rest : List String) (t : FileTree α) :
    t.file? (n :: rest) = (t.item? n).bind fun i => i.file? rest := by
  rw [file?]
  cases t.item? n with
  | none => rfl
  | some i =>
    cases i with
    | file a => rfl
    | folder inside => rfl

/-! ## Setting a name -/

theorem item?_set (m n : String) (i : Item α) (t : FileTree α) :
    (t.set n i).item? m = if n = m then some i else t.item? m := by
  induction t using cons_induction with
  | empty => rw [set, item?_cons]
  | cons k j rest _ ih =>
    rw [set_cons]
    split
    · next hk =>
      subst hk
      rw [item?_cons, item?_cons]
      split <;> rfl
    · next hk =>
      split
      · rw [item?_cons]
      · rw [item?_cons, ih, item?_cons]
        split
        · next hm =>
          subst hm
          rw [if_neg (Ne.symm hk)]
        · rfl

theorem mem_names_set {m n : String} {i : Item α} {t : FileTree α} (h : m ∈ (t.set n i).names) :
    m = n ∨ m ∈ t.names := by
  induction t using cons_induction with
  | empty =>
    rw [set, names_cons] at h
    exact List.mem_cons.1 h
  | cons k j rest _ ih =>
    rw [set_cons] at h
    rw [names_cons]
    split at h
    · rw [names_cons] at h
      exact (List.mem_cons.1 h).imp_right (List.mem_cons_of_mem _)
    · split at h
      · rw [names_cons, names_cons] at h
        exact List.mem_cons.1 h
      · rw [names_cons] at h
        rcases List.mem_cons.1 h with rfl | h
        · exact .inr List.mem_cons_self
        · exact (ih h).imp_right (List.mem_cons_of_mem _)

theorem isRising_set {n : String} {i : Item α} {t : FileTree α} (ht : t.IsRising) (hi : i.IsRising) :
    (t.set n i).IsRising := by
  induction t using cons_induction with
  | empty =>
    rw [set]
    exact isRising_cons.2 ⟨fun m hm => (List.not_mem_nil hm).elim, hi, ht⟩
  | cons k j rest _ ih =>
    obtain ⟨hk, hj, hr⟩ := isRising_cons.1 ht
    rw [set_cons]
    split
    · next he =>
      subst he
      exact isRising_cons.2 ⟨hk, hi, hr⟩
    · next hne =>
      split
      · next hlt =>
        refine isRising_cons.2 ⟨fun m hm => ?_, hi, ht⟩
        rw [names_cons] at hm
        rcases List.mem_cons.1 hm with rfl | hm
        · exact hlt
        · exact hlt.trans (hk m hm)
      · next hlt =>
        have hkn : k < n := lt_of_le_of_ne (not_lt.1 hlt) hne
        refine isRising_cons.2 ⟨fun m hm => ?_, hj, ih hr⟩
        rcases mem_names_set hm with rfl | hm
        · exact hkn
        · exact hk m hm

theorem isRising_item? {n : String} {i : Item α} {t : FileTree α} (ht : t.IsRising) (h : t.item? n = some i) :
    i.IsRising := by
  induction t using cons_induction with
  | empty => cases h
  | cons k j rest _ ih =>
    obtain ⟨-, hj, hr⟩ := isRising_cons.1 ht
    rw [item?_cons] at h
    split at h
    · cases h
      exact hj
    · exact ih hr h

/-! ## Putting a file -/

/-- The tree after a file was put: the file is set in the folder where it goes, in the tree that was there or in a new
one. -/
theorem put_cons {leaf f : String} {a : α} {folders : List String} {t t' : FileTree α}
    (h : put leaf a (f :: folders) t = some t') :
    ∃ inside inside', put leaf a folders inside = some inside' ∧ t' = t.set f (.folder inside') ∧
      (t.item? f = some (.folder inside) ∨ t.item? f = none ∧ inside = .empty) := by
  rw [put] at h
  split at h
  · cases h
  · next inside hi =>
    obtain ⟨inside', hp, rfl⟩ := Option.map_eq_some_iff.1 h
    exact ⟨inside, inside', hp, rfl, .inl hi⟩
  · next hi =>
    obtain ⟨inside', hp, rfl⟩ := Option.map_eq_some_iff.1 h
    exact ⟨.empty, inside', hp, rfl, .inr ⟨hi, rfl⟩⟩

theorem put_nil {leaf : String} {a : α} {t t' : FileTree α} (h : put leaf a [] t = some t') :
    t' = t.set leaf (.file a) ∧ ∀ inside, t.item? leaf ≠ some (.folder inside) := by
  rw [put] at h
  split at h
  · cases h
  · next hn => exact ⟨(Option.some.inj h).symm, hn⟩

theorem file?_empty (path : List String) : (empty : FileTree α).file? path = none := by
  cases path with
  | nil => rfl
  | cons n rest => rw [file?_cons, item?, Option.bind_none]

theorem file?_set (n m : String) (i : Item α) (t : FileTree α) (rest : List String) :
    (t.set n i).file? (m :: rest) = if n = m then i.file? rest else t.file? (m :: rest) := by
  rw [file?_cons, item?_set, file?_cons]
  split <;> rfl

theorem file?_eq_none {n : String} {t : FileTree α} (hn : ∀ inside, t.item? n ≠ some (.folder inside))
    {rest : List String} (hr : rest ≠ []) : t.file? (n :: rest) = none := by
  rw [file?_cons]
  cases hi : t.item? n with
  | none => rfl
  | some i =>
    cases i with
    | file b => rw [Option.bind_some, Item.file?, if_neg hr]
    | folder inside => exact absurd hi (hn inside)

/-- **Putting a file changes the file at its own path and at no other.** -/
theorem file?_put {leaf : String} {a : α} : ∀ {folders : List String} {t t' : FileTree α},
    put leaf a folders t = some t' → ∀ path, t'.file? path = if path = folders ++ [leaf] then some a else t.file? path
  | [], t, t', _, [] => by simp [file?]
  | f :: folders, t, t', _, [] => by simp [file?]
  | [], t, t', h, n :: rest => by
    obtain ⟨rfl, hn⟩ := put_nil h
    rw [file?_set, Item.file?, List.nil_append]
    by_cases hl : leaf = n
    · subst hl
      by_cases hr : rest = []
      · simp [hr]
      · simp [hr, file?_eq_none hn hr]
    · simp [hl, Ne.symm hl]
  | f :: folders, t, t', h, n :: rest => by
    obtain ⟨inside, inside', hp, rfl, hi⟩ := put_cons h
    rw [file?_set, Item.file?, file?_put hp rest, List.cons_append]
    by_cases hf : f = n
    · subst hf
      have hold : t.file? (f :: rest) = inside.file? rest := by
        rw [file?_cons]
        rcases hi with hi | ⟨hi, rfl⟩
        · rw [hi, Option.bind_some, Item.file?]
        · rw [hi, Option.bind_none, file?_empty]
      simp [hold]
    · simp [hf, Ne.symm hf]

theorem isRising_put {leaf : String} {a : α} : ∀ {folders : List String} {t t' : FileTree α},
    put leaf a folders t = some t' → t.IsRising → t'.IsRising
  | [], t, t', h, ht => by
    obtain ⟨rfl, -⟩ := put_nil h
    exact isRising_set ht trivial
  | f :: folders, t, t', h, ht => by
    obtain ⟨inside, inside', hp, rfl, hi⟩ := put_cons h
    have hinside : inside.IsRising := by
      rcases hi with hi | ⟨-, rfl⟩
      · exact isRising_item? ht hi
      · exact trivial
    exact isRising_set ht (isRising_put hp hinside)

/-! ## The files in order -/

theorem exists_name_of_mem_files {t : FileTree α} {e : List String × α} (h : e ∈ t.files) :
    ∃ n ∈ t.names, ∃ rest, e.1 = n :: rest := by
  induction t using cons_induction with
  | empty => cases h
  | cons n i t _ ih =>
    rw [names_cons]
    rw [files_cons] at h
    rcases List.mem_append.1 h with h | h
    · obtain ⟨e', -, rfl⟩ := List.mem_map.1 h
      exact ⟨n, List.mem_cons_self, e'.1, rfl⟩
    · obtain ⟨m, hm, rest, he⟩ := ih h
      exact ⟨m, List.mem_cons_of_mem _ hm, rest, he⟩

/-- **The files in the order of a visit are the files that a tree has.** -/
theorem mem_files {t : FileTree α} (h : t.IsRising) {path : List String} {a : α} :
    (path, a) ∈ t.files ↔ t.file? path = some a := by
  induction t using cons_induction generalizing path with
  | empty =>
    rw [file?_empty]
    exact iff_of_false List.not_mem_nil (by simp)
  | cons n i t ihi iht =>
    obtain ⟨hn, hi, ht⟩ := isRising_cons.1 h
    have hitem : ∀ {q}, (q, a) ∈ i.files ↔ i.file? q = some a := by
      intro q
      cases i with
      | file b =>
        simp only [Item.files, Item.file?, List.mem_singleton, Prod.mk.injEq]
        by_cases hq : q = []
        · simp [hq, eq_comm]
        · simp [hq]
      | folder inside => exact ihi inside rfl hi
    rw [files_cons, List.mem_append, List.mem_map]
    cases path with
    | nil =>
      refine iff_of_false ?_ (by simp [file?])
      rintro (⟨e, -, he⟩ | hm)
      · simp at he
      · obtain ⟨m, -, rest, he⟩ := exists_name_of_mem_files hm
        simp at he
    | cons m rest =>
      rw [file?_cons, item?_cons]
      by_cases hm : n = m
      · subst hm
        -- the other names are greater, so the files by this name are those of its item
        have hnot : (n :: rest, a) ∉ t.files := by
          intro hmem
          obtain ⟨k, hk, _, he⟩ := exists_name_of_mem_files hmem
          cases he
          exact absurd (hn n hk) (lt_irrefl n)
        rw [or_iff_left hnot, if_pos rfl, Option.bind_some, ← hitem]
        constructor
        · rintro ⟨e, he, hp⟩
          cases hp
          exact he
        · intro he
          exact ⟨(rest, a), he, rfl⟩
      · have hnot : ¬ ∃ e ∈ i.files, (n :: e.1, e.2) = (m :: rest, a) := by
          rintro ⟨e, -, he⟩
          cases he
          exact hm rfl
        rw [or_iff_right hnot, if_neg hm, iht ht, file?_cons]

/-- **The files of a tree come in the order of their paths.** -/
theorem files_rising {t : FileTree α} (h : t.IsRising) : t.files.Pairwise fun a b => a.1 < b.1 := by
  induction t using cons_induction with
  | empty => exact .nil
  | cons n i t ihi iht =>
    obtain ⟨hn, hi, ht⟩ := isRising_cons.1 h
    have hitem : i.files.Pairwise fun a b => a.1 < b.1 := by
      cases i with
      | file a => exact List.pairwise_singleton _ _
      | folder inside => exact ihi inside rfl hi
    rw [files_cons, List.pairwise_append, List.pairwise_map]
    refine ⟨hitem.imp fun hab => List.Lex.cons hab, iht ht, ?_⟩
    intro x hx y hy
    obtain ⟨e, -, rfl⟩ := List.mem_map.1 hx
    obtain ⟨m, hm, rest, he⟩ := exists_name_of_mem_files hy
    rw [he]
    exact List.Lex.rel (hn m hm)

end FileTree
end Cognitive
