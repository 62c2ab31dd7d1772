import Cognitive.Batch.Folder
import Cognitive.Proofs.Disk.Below
import Cognitive.Proofs.Settings.Typed
/-!
# What a folder selects

A visit goes through the items of a folder in the order of their paths and remembers one ignored folder at a time.  That
is enough: what lies in a folder comes right after it (`FilePath.prefix_of_lt_of_lt`), so the folder that is remembered
is the one that hides an item if any does (`Folder.IsAt.hides_iff_prefix`).  A visit gives the files that nothing hides,
and those among them that are source files, as long as it has room to enter the folders that nothing hides
(`Folder.bundleOf_cases`).
-/
namespace Cognitive
namespace Folder

variable {s : Settings}

/-- A folder on the way to the path is ignored. -/
def Hides (s : Settings) (path : DiskPath) : Prop := ∃ name ∈ path.dropLast, s.IgnoresFolder name

def leaf (path : DiskPath) : String := path.getLast?.getD ""

def IsIgnored (s : Settings) (e : DiskPath × DiskItem) : Prop := e.2 = .folder ∧ s.IgnoresFolder (leaf e.1)

/-! ## Which folder is passed over -/

theorem leaf_concat (front : DiskPath) (name : String) : leaf (front ++ [name]) = name := by
  rw [leaf, List.getLast?_concat, Option.getD_some]

theorem hides_iff {path : DiskPath} :
    Hides s path ↔ ∃ folder, folder ≠ [] ∧ FilePath.IsAbove folder path ∧ s.IgnoresFolder (leaf folder) := by
  constructor
  · rintro ⟨name, hname, hignored⟩
    rcases List.eq_nil_or_concat' path with rfl | ⟨init, last, rfl⟩
    · cases hname
    · rw [List.dropLast_concat] at hname
      obtain ⟨front, back, rfl⟩ := List.append_of_mem hname
      refine ⟨front ++ [name], by simp, ⟨⟨back ++ [last], by simp⟩, fun he => ?_⟩, by rwa [leaf_concat]⟩
      have hlength := congrArg List.length he
      simp at hlength
  · rintro ⟨folder, hne, ⟨⟨back, rfl⟩, hpath⟩, hignored⟩
    have hback : back ≠ [] := fun hb => hpath (by rw [hb, List.append_nil])
    refine ⟨leaf folder, ?_, hignored⟩
    rw [List.dropLast_append_of_ne_nil hback, leaf, List.getLast?_eq_some_getLast hne, Option.getD_some]
    exact List.mem_append_left _ (List.getLast_mem hne)

/-- **How far a visit has come**: the items that are left all come after the ignored folder that is remembered; it hides
what it holds, and what else is hidden is hidden by a folder that is still to come. -/
structure IsAt (s : Settings) (ignored : Option DiskPath) (rest : List (DiskPath × DiskItem)) : Prop where
  passed : ∀ folder, ignored = some folder → ∀ e ∈ rest, folder < e.1
  sound : ∀ folder, ignored = some folder → ∀ e ∈ rest, folder <+: e.1 → Hides s e.1
  complete : ∀ e ∈ rest, Hides s e.1 → (∃ folder, ignored = some folder ∧ folder <+: e.1) ∨
    ∃ g ∈ rest, IsIgnored s g ∧ FilePath.IsAbove g.1 e.1

theorem isAt_start {items : List (DiskPath × DiskItem)} (ht : Disk.IsTree items) : IsAt s none items where
  passed := nofun
  sound := nofun
  complete e he h := by
    obtain ⟨folder, hne, habove, hignored⟩ := hides_iff.1 h
    exact .inr ⟨(folder, .folder), ht.nested e he folder hne habove, ⟨rfl, hignored⟩, habove⟩

theorem passesOver_iff {v : Visit} {path : DiskPath} :
    v.passesOver path = true ↔ ∃ folder, v.ignored = some folder ∧ folder <+: path := by
  unfold Visit.passesOver
  cases v.ignored with
  | none => simp
  | some folder => simp [List.isPrefixOf_iff_prefix]

namespace IsAt

variable {ignored : Option DiskPath} {e : DiskPath × DiskItem} {rest : List (DiskPath × DiskItem)}
  (h : IsAt s ignored (e :: rest)) (hrising : (e :: rest).Pairwise fun a b => a.1 < b.1)
include h hrising

/-- **The next item is passed over exactly when an ignored folder hides it.** -/
theorem hides_iff_prefix : Hides s e.1 ↔ ∃ folder, ignored = some folder ∧ folder <+: e.1 := by
  constructor
  · intro hh
    rcases h.complete e List.mem_cons_self hh with hp | ⟨g, hg, -, habove⟩
    · exact hp
    · -- a folder comes before what it holds, and this is the next item
      have hlt : g.1 < e.1 := FilePath.lt_of_isAbove habove
      rcases List.mem_cons.1 hg with rfl | hg
      · exact absurd hlt (lt_irrefl g.1)
      · exact absurd hlt (lt_asymm ((List.pairwise_cons.1 hrising).1 g hg))
  · rintro ⟨folder, hi, hp⟩
    exact h.sound folder hi e List.mem_cons_self hp

/-- After an item that is hidden or no ignored folder, the same folder is remembered. -/
theorem tail (he : Hides s e.1 ∨ ¬ IsIgnored s e) : IsAt s ignored rest where
  passed folder hi e' he' := h.passed folder hi e' (List.mem_cons_of_mem e he')
  sound folder hi e' he' := h.sound folder hi e' (List.mem_cons_of_mem e he')
  complete e' he' hh := by
    rcases h.complete e' (List.mem_cons_of_mem e he') hh with hp | ⟨g, hg, hignored, habove⟩
    · exact .inl hp
    · rcases List.mem_cons.1 hg with rfl | hg
      · rcases he with he | he
        · obtain ⟨folder, hi, hp⟩ := (h.hides_iff_prefix hrising).1 he
          exact .inl ⟨folder, hi, hp.trans habove.1⟩
        · exact absurd hignored he
      · exact .inr ⟨g, hg, hignored, habove⟩

/-- After an ignored folder that nothing hides, that folder is remembered. -/
theorem enter (hne : e.1 ≠ []) (hh : ¬ Hides s e.1) (he : IsIgnored s e) : IsAt s (some e.1) rest where
  passed folder hi e' he' := Option.some.inj hi ▸ (List.pairwise_cons.1 hrising).1 e' he'
  sound folder hi e' he' hp := by
    cases hi
    have hlt := (List.pairwise_cons.1 hrising).1 e' he'
    exact hides_iff.2 ⟨e.1, hne, ⟨hp, ne_of_lt hlt⟩, he.2⟩
  complete e' he' hh' := by
    rcases h.complete e' (List.mem_cons_of_mem e he') hh' with ⟨folder, hi, hp⟩ | ⟨g, hg, hignored, habove⟩
    · -- the folder remembered before would hide this one too
      have hbetween := FilePath.prefix_of_lt_of_lt hp (h.passed folder hi e List.mem_cons_self)
        ((List.pairwise_cons.1 hrising).1 e' he')
      exact absurd ((h.hides_iff_prefix hrising).2 ⟨folder, hi, hbetween⟩) hh
    · rcases List.mem_cons.1 hg with rfl | hg
      · exact .inl ⟨g.1, rfl, habove.1⟩
      · exact .inr ⟨g, hg, hignored, habove⟩

end IsAt
/-! ## What is found -/

open Classical in
/-- The files that no ignored folder hides, in their order. -/
noncomputable def files (s : Settings) : List (DiskPath × DiskItem) → List (DiskPath × ByteArray)
  | [] => []
  | (path, .file bytes) :: rest => if Hides s path then files s rest else (path, bytes) :: files s rest
  | (_, .folder) :: rest | (_, .link _) :: rest => files s rest

open Classical in
noncomputable def sourceFiles (s : Settings) (items : List (DiskPath × DiskItem)) : List (DiskPath × ByteArray) :=
  (files s items).filter fun e => decide (s.EndsInExtension (leaf e.1))

variable {e : DiskPath × DiskItem} {items rest : List (DiskPath × DiskItem)} {bytes : ByteArray} {path : DiskPath}

theorem files_cons_of_hides (h : Hides s e.1) : files s (e :: rest) = files s rest := by
  obtain ⟨path, item⟩ := e
  cases item with
  | file bytes => rw [files, if_pos h]
  | folder | link => rfl

theorem files_cons_of_ne (h : ∀ bytes, e.2 ≠ .file bytes) : files s (e :: rest) = files s rest := by
  obtain ⟨path, item⟩ := e
  cases item with
  | file bytes => exact absurd rfl (h bytes)
  | folder | link => rfl

theorem files_cons_file (h : ¬ Hides s path) :
    files s ((path, .file bytes) :: rest) = (path, bytes) :: files s rest := by
  rw [files, if_neg h]

theorem mem_files : (path, bytes) ∈ files s items ↔ (path, .file bytes) ∈ items ∧ ¬ Hides s path := by
  induction items with
  | nil => simp [files]
  | cons e rest ih =>
    obtain ⟨p, item⟩ := e
    cases item with
    | file b =>
      by_cases h : Hides s p
      · rw [files_cons_of_hides h, ih, List.mem_cons]
        refine and_congr_left fun hh => (or_iff_right fun he => hh ?_).symm
        cases he
        exact h
      · rw [files_cons_file h, List.mem_cons, ih, List.mem_cons, or_and_right]
        refine or_congr_left ⟨fun he => ?_, fun he => ?_⟩
        · cases he
          exact ⟨rfl, h⟩
        · cases he.1
          rfl
    | folder | link => simp [files, ih]

theorem mem_sourceFiles : (path, bytes) ∈ sourceFiles s items ↔
    (path, .file bytes) ∈ items ∧ ¬ Hides s path ∧ s.EndsInExtension (leaf path) := by
  simp [sourceFiles, mem_files, and_assoc]

theorem files_sublist : ∀ items, List.Sublist ((files s items).map Prod.fst) (items.map Prod.fst)
  | [] => .slnil
  | (path, .file bytes) :: rest => by
    by_cases h : Hides s path
    · rw [files_cons_of_hides h]
      exact (files_sublist rest).cons path
    · rw [files_cons_file h]
      exact (files_sublist rest).cons_cons path
  | (path, .folder) :: rest | (path, .link _) :: rest => (files_sublist rest).cons path

/-! ## One item -/

/-- The name that a file goes by: its path, with the folder's own name in front. -/
def packedName (root path : DiskPath) : String := Text.join "/" (leaf root :: path)

def entry (root : DiskPath) (e : DiskPath × ByteArray) : Entry := ⟨packedName root e.1, Utf8.decodeSource e.2⟩

def overflow (s : Settings) (root : DiskPath) : Refusal :=
  .invalidArchive ("more than " ++ (s .maxFiles).text ++ " source files under " ++ Disk.pathText root) none

/-- **What one item does to a visit.** -/
inductive Step (s : Settings) (room : Nat) (root : DiskPath) (v : Visit) (e : DiskPath × DiskItem) :
    Outcome Visit → Prop where
  | hidden (h : v.passesOver e.1 = true) : Step s room root v e (.ok v)
  | none (h : v.passesOver e.1 = false) (hf : ∀ bytes, e.2 ≠ .file bytes) (hi : ¬ IsIgnored s e)
      (hroom : e.2 = .folder → e.1.length ≤ room) : Step s room root v e (.ok v)
  | tooDeep (h : v.passesOver e.1 = false) (hf : e.2 = .folder) (hi : ¬ IsIgnored s e) (hroom : room < e.1.length) :
    Step s room root v e (breakDown .tooDeep)
  | ignored (h : v.passesOver e.1 = false) (hi : IsIgnored s e) : Step s room root v e (.ok { v with ignored := some e.1 })
  | file {bytes : ByteArray} (h : v.passesOver e.1 = false) (hf : e.2 = .file bytes)
      (hs : ¬ s.EndsInExtension (leaf e.1)) :
    Step s room root v e (.ok { v with names := packedName root e.1 :: v.names })
  | source {bytes : ByteArray} (h : v.passesOver e.1 = false) (hf : e.2 = .file bytes)
      (hs : s.EndsInExtension (leaf e.1)) (hcount : s.tooManyFiles (v.sources.length + 1) = false) :
    Step s room root v e (.ok ⟨v.ignored, packedName root e.1 :: v.names, (packedName root e.1, bytes) :: v.sources⟩)
  | tooMany {bytes : ByteArray} (h : v.passesOver e.1 = false) (hf : e.2 = .file bytes)
      (hs : s.EndsInExtension (leaf e.1)) (hcount : s.tooManyFiles (v.sources.length + 1) = true) :
    Step s room root v e (refuse (overflow s root))

theorem step_visit (hs : s.IsTyped) (room : Nat) (root : DiskPath) (v : Visit) (e : DiskPath × DiskItem) :
    Step s room root v e (visit s room root v e) := by
  obtain ⟨path, item⟩ := e
  cases hp : v.passesOver path with
  | true =>
    have hv : visit s room root v (path, item) = .ok v := by
      rw [visit, if_pos hp]
      rfl
    rw [hv]
    exact .hidden hp
  | false =>
    cases item with
    | link target =>
      have hv : visit s room root v (path, .link target) = .ok v := by
        rw [visit, hp]
        rfl
      rw [hv]
      refine .none hp (fun bytes h => ?_) (fun hi => ?_) (fun h => ?_)
      · cases h
      · cases hi.1
      · cases h
    | folder =>
      obtain ⟨b, hb⟩ := Settings.exists_isIgnored hs (leaf path)
      have hignored := Settings.isIgnored_eq_ok hb
      have hlast : s.isIgnored (path.getLast?.getD "") = .ok b := hb
      cases b with
      | true =>
        have hv : visit s room root v (path, .folder) = .ok { v with ignored := some path } := by
          simp only [visit, hp, hlast, bind, Except.bind]
          rfl
        rw [hv]
        exact .ignored hp ⟨rfl, hignored.1 rfl⟩
      | false =>
        have hi : ¬ IsIgnored s (path, .folder) := fun hi => Bool.false_ne_true (hignored.2 hi.2)
        by_cases hroom : room < path.length
        · have hv : visit s room root v (path, .folder) = breakDown .tooDeep := by
            simp only [visit, hp, hlast, hroom, breakDown, bind, Except.bind]
            rfl
          rw [hv]
          exact .tooDeep hp rfl hi hroom
        · have hv : visit s room root v (path, .folder) = .ok v := by
            simp only [visit, hp, hlast, hroom, bind, Except.bind]
            rfl
          rw [hv]
          refine .none hp (fun bytes h => ?_) hi fun _ => not_lt.1 hroom
          cases h
    | file bytes =>
      obtain ⟨b, hb⟩ := Settings.exists_isSource hs (leaf path)
      have hsource := Settings.isSource_eq_ok hb
      cases b with
      | false =>
        have hv : visit s room root v (path, .file bytes) = .ok { v with names := packedName root path :: v.names } := by
          rw [visit, hp]
          exact Outcome.bind_eq_ok_iff.2 ⟨false, hb, rfl⟩
        rw [hv]
        exact .file hp rfl fun he => Bool.false_ne_true (hsource.2 he)
      | true =>
        have hv : visit s room root v (path, .file bytes) =
            if s.tooManyFiles (v.sources.length + 1) then refuse (overflow s root)
            else .ok ⟨v.ignored, packedName root path :: v.names, (packedName root path, bytes) :: v.sources⟩ := by
          have hlast : s.isSource (path.getLast?.getD "") = .ok true := hb
          simp only [visit, hp, hlast, bind, Except.bind]
          cases s.tooManyFiles (v.sources.length + 1) with
          | true => rfl
          | false => rfl
        rw [hv]
        cases hcount : s.tooManyFiles (v.sources.length + 1) with
        | true => exact .tooMany hp rfl (hsource.1 rfl) hcount
        | false => exact .source hp rfl (hsource.1 rfl) hcount

/-! ## The whole visit -/

/-- With some source files at hand, none of the next ones is one too many. -/
def Keeps (s : Settings) (done more : Nat) : Prop := ∀ k, done < k → k ≤ done + more → s.tooManyFiles k = false

theorem keeps_zero (s : Settings) (done : Nat) : Keeps s done 0 := fun k hk hk' => by omega

theorem keeps_succ_iff {done more : Nat} :
    Keeps s done (more + 1) ↔ s.tooManyFiles (done + 1) = false ∧ Keeps s (done + 1) more := by
  constructor
  · intro h
    exact ⟨h (done + 1) (by omega) (by omega), fun k hk hk' => h k (by omega) (by omega)⟩
  · rintro ⟨hnext, h⟩ k hk hk'
    by_cases he : k = done + 1
    · rwa [he]
    · exact h k (by omega) (by omega)

theorem sourceFiles_cons (h : files s (e :: rest) = files s rest) :
    sourceFiles s (e :: rest) = sourceFiles s rest := by
  rw [sourceFiles, h, sourceFiles]

theorem sourceFiles_cons_file (h : ¬ Hides s path) (hsource : ¬ s.EndsInExtension (leaf path)) :
    sourceFiles s ((path, .file bytes) :: rest) = sourceFiles s rest := by
  rw [sourceFiles, files_cons_file h, List.filter_cons_of_neg (by simpa using hsource), sourceFiles]

theorem sourceFiles_cons_source (h : ¬ Hides s path) (hsource : s.EndsInExtension (leaf path)) :
    sourceFiles s ((path, .file bytes) :: rest) = (path, bytes) :: sourceFiles s rest := by
  rw [sourceFiles, files_cons_file h, List.filter_cons_of_pos (by simpa using hsource), sourceFiles]

/-- What a visit has found at the end: what it had, and the files of the items that it goes through. -/
noncomputable def found (s : Settings) (root : DiskPath) (v : Visit) (items : List (DiskPath × DiskItem))
    (ignored : Option DiskPath) : Visit where
  ignored := ignored
  names := ((files s items).map fun e => packedName root e.1).reverse ++ v.names
  sources := ((sourceFiles s items).map fun e => (packedName root e.1, e.2)).reverse ++ v.sources

/-- The item is a folder that would have to be entered, and there is no room for it. -/
structure IsDeep (s : Settings) (room : Nat) (e : DiskPath × DiskItem) : Prop where
  isFolder : e.2 = .folder
  shown : ¬ Hides s e.1
  notIgnored : ¬ IsIgnored s e
  deep : room < e.1.length

/-- **A visit of some items runs out of room.** -/
def RunsOut (s : Settings) (room : Nat) (items : List (DiskPath × DiskItem)) : Prop := ∃ e ∈ items, IsDeep s room e

theorem runsOut_cons_iff {room : Nat} (h : ¬ IsDeep s room e) : RunsOut s room (e :: rest) ↔ RunsOut s room rest := by
  unfold RunsOut
  rw [List.exists_mem_cons_iff, or_iff_right h]

/-- What becomes of a visit that goes through some items. -/
def Ends (s : Settings) (room : Nat) (root : DiskPath) (v : Visit) (items : List (DiskPath × DiskItem))
    (o : Outcome Visit) : Prop :=
  (¬ RunsOut s room items ∧ Keeps s v.sources.length (sourceFiles s items).length ∧
      ∃ ignored, o = .ok (found s root v items ignored)) ∨
    (RunsOut s room items ∧ o = breakDown .tooDeep) ∨
    (¬ Keeps s v.sources.length (sourceFiles s items).length ∧ o = refuse (overflow s root))

theorem ends_cons {room : Nat} {root : DiskPath} {v : Visit} {o : Outcome Visit} (hd : ¬ IsDeep s room e)
    (hf : files s (e :: rest) = files s rest) (h : Ends s room root v rest o) : Ends s room root v (e :: rest) o := by
  unfold Ends found at *
  rw [runsOut_cons_iff hd, sourceFiles_cons hf, hf]
  exact h

theorem not_isDeep_file {room : Nat} : ¬ IsDeep s room (path, .file bytes) := fun h => nomatch h.isFolder

theorem ends_cons_file {room : Nat} {root : DiskPath} {v : Visit} {o : Outcome Visit} (hh : ¬ Hides s path)
    (hsource : ¬ s.EndsInExtension (leaf path))
    (h : Ends s room root { v with names := packedName root path :: v.names } rest o) :
    Ends s room root v ((path, .file bytes) :: rest) o := by
  unfold Ends found at *
  rw [runsOut_cons_iff not_isDeep_file, sourceFiles_cons_file hh hsource, files_cons_file hh, List.map_cons,
    List.reverse_cons, List.append_assoc]
  exact h

theorem ends_cons_source {room : Nat} {root : DiskPath} {v : Visit} {o : Outcome Visit} (hh : ¬ Hides s path)
    (hsource : s.EndsInExtension (leaf path)) (hcount : s.tooManyFiles (v.sources.length + 1) = false)
    (h : Ends s room root ⟨v.ignored, packedName root path :: v.names, (packedName root path, bytes) :: v.sources⟩ rest
      o) : Ends s room root v ((path, .file bytes) :: rest) o := by
  unfold Ends found at *
  rw [runsOut_cons_iff not_isDeep_file, sourceFiles_cons_source hh hsource, files_cons_file hh, List.length_cons,
    keeps_succ_iff, and_iff_right hcount]
  simp only [List.map_cons, List.reverse_cons, List.append_assoc]
  exact h

/-- **A visit finds the files that nothing hides**, unless it stops at a folder too deep or at the first source file too
many. -/
theorem ends_foldlM_visit (hs : s.IsTyped) (room : Nat) (root : DiskPath) :
    ∀ {rest : List (DiskPath × DiskItem)} {v : Visit}, (rest.Pairwise fun a b => a.1 < b.1) → (∀ e ∈ rest, e.1 ≠ []) →
    IsAt s v.ignored rest → Ends s room root v rest (rest.foldlM (visit s room root) v)
  | [], v, _, _, _ => .inl ⟨fun ⟨_, he, _⟩ => (nomatch he), keeps_zero s _, v.ignored, rfl⟩
  | (path, item) :: rest, v, hrising, hne, h => by
    have hrest := (List.pairwise_cons.1 hrising).2
    have hne' : ∀ e ∈ rest, e.1 ≠ [] := fun e he => hne e (List.mem_cons_of_mem _ he)
    have hhides : v.passesOver path = true ↔ Hides s path :=
      passesOver_iff.trans (h.hides_iff_prefix hrising).symm
    have hshown : v.passesOver path = false → ¬ Hides s path := fun hp hh => by
      rw [hhides.2 hh] at hp
      cases hp
    have hstep := step_visit hs room root v (path, item)
    rw [List.foldlM_cons]
    generalize visit s room root v (path, item) = outcome at hstep
    cases hstep with
    | hidden hp =>
      have hh : Hides s path := hhides.1 hp
      have hlater := ends_foldlM_visit hs room root hrest hne' (h.tail hrising (.inl hh))
      exact ends_cons (fun hd => hd.shown hh) (files_cons_of_hides hh) hlater
    | none hp hf hi hroom =>
      have hlater := ends_foldlM_visit hs room root hrest hne' (h.tail hrising (.inr hi))
      exact ends_cons (fun hd => absurd hd.deep (not_lt.2 (hroom hd.isFolder))) (files_cons_of_ne hf) hlater
    | tooDeep hp hf hi hroom =>
      exact .inr (.inl ⟨⟨_, List.mem_cons_self, hf, hshown hp, hi, hroom⟩, rfl⟩)
    | ignored hp hi =>
      have hf : ∀ bytes, item ≠ .file bytes := fun bytes hb => by
        cases hi.1.symm.trans hb
      have hat := h.enter hrising (hne _ List.mem_cons_self) (hshown hp) hi
      have hlater := ends_foldlM_visit (v := { v with ignored := some path }) hs room root hrest hne' hat
      exact ends_cons (fun hd => hd.notIgnored hi) (files_cons_of_ne hf) hlater
    | file hp hf hsource =>
      obtain rfl := hf
      have hat := h.tail hrising (.inr fun hi => nomatch hi.1)
      exact ends_cons_file (hshown hp) hsource (ends_foldlM_visit hs room root hrest hne' hat)
    | source hp hf hsource hcount =>
      obtain rfl := hf
      have hat := h.tail hrising (.inr fun hi => nomatch hi.1)
      exact ends_cons_source (hshown hp) hsource hcount (ends_foldlM_visit hs room root hrest hne' hat)
    | tooMany hp hf hsource hcount =>
      obtain rfl := hf
      refine .inr (.inr ⟨?_, rfl⟩)
      rw [sourceFiles_cons_source (hshown hp) hsource, List.length_cons, keeps_succ_iff, hcount]
      exact fun hk => nomatch hk.1

/-- **A folder gives the source files that no ignored folder hides, in the order of their paths**, and the names of all
files that none hides; or it is too deep, or it has too many of them. -/
theorem bundleOf_cases (hs : s.IsTyped) (room : Nat) (root : DiskPath) (ht : Disk.IsTree items)
    (hrising : items.Pairwise fun a b => a.1 < b.1) :
    (¬ RunsOut s room items ∧ Keeps s 0 (sourceFiles s items).length ∧ bundleOf s room root items =
        .ok ⟨(sourceFiles s items).map (entry root), (files s items).map fun e => packedName root e.1⟩) ∨
      (RunsOut s room items ∧ bundleOf s room root items = breakDown .tooDeep) ∨
      (¬ Keeps s 0 (sourceFiles s items).length ∧ bundleOf s room root items = refuse (overflow s root)) := by
  unfold bundleOf
  rcases ends_foldlM_visit (v := .start) hs room root hrising ht.nonempty (isAt_start ht) with
    ⟨hin, hk, ignored, h⟩ | ⟨hout, h⟩ | ⟨hk, h⟩
  · refine .inl ⟨hin, hk, Outcome.bind_eq_ok_iff.2 ⟨_, h, ?_⟩⟩
    simp only [found, Visit.start, List.append_nil, List.reverse_reverse, List.map_map, Function.comp_def]
    rfl
  · exact .inr (.inl ⟨hout, Outcome.bind_eq_error_iff.2 (.inl h)⟩)
  · exact .inr (.inr ⟨hk, Outcome.bind_eq_error_iff.2 (.inl h)⟩)

theorem files_rising (hrising : items.Pairwise fun a b => a.1 < b.1) :
    (files s items).Pairwise fun a b => a.1 < b.1 :=
  List.pairwise_map.1 ((List.pairwise_map.2 hrising).sublist (files_sublist items))

/-! ## Reading a folder -/

/-- **A path leads to a folder**: to where it resolves to, and from there, with the links that are left, to the
folder. -/
structure LeadsTo (d : Disk) (path root folder : DiskPath) : Prop where
  resolved : d.resolve path = .ok root
  followed : d.follow root = .ok folder
  isFolder : d.item? folder = some .folder

theorem LeadsTo.read_eq {d : Disk} {path root folder : DiskPath} (h : LeadsTo d path root folder) (s : Settings)
    (room : Nat) : read s room d path = bundleOf s room root (d.below folder) := by
  have hloop : isLoop d root = false := by rw [isLoop, h.followed]
  rw [read, h.resolved]
  simp only [hloop, h.followed, h.isFolder]
  rfl

end Folder
end Cognitive
