import Cognitive.Batch.Archive
import Cognitive.Proofs.Batch.FileTree
/-!
# What an archive selects

The offers of an archive are put into a tree one after the other, so that the tree holds at each path the last offer
with that path (`Archive.file?_treeOf`).  The selection from the tree then gives the offered paths that the settings
select, once each, in their order (`FileTree.select_eq_ok`).
-/
namespace Cognitive

/-! ## A selection from a tree -/

namespace FileTree

variable {α : Type} {s : Settings}

open Classical in
/-- The files of a tree at the paths that the settings select. -/
noncomputable def selected (s : Settings) (t : FileTree α) : List (List String × α) :=
  t.files.filter fun e => decide (s.Selects e.1)

theorem mem_selected {t : FileTree α} {e : List String × α} : e ∈ t.selected s ↔ e ∈ t.files ∧ s.Selects e.1 := by
  simp [selected]

theorem selected_file {n : String} {a : α} {t : FileTree α} {b : Bool} (hb : b = true ↔ s.EndsInExtension n) :
    (file n a t).selected s = (if b = true then [([n], a)] else []) ++ t.selected s := by
  rw [selected, files, List.filter_cons]
  by_cases hn : s.EndsInExtension n
  · simp [hb, hn, Settings.selects_singleton, selected]
  · simp [hb, hn, Settings.selects_singleton, selected]

theorem selected_folder {n : String} {inside t : FileTree α} {b : Bool}
    (hb : b = true ↔ n = "__MACOSX" ∨ s.IgnoresFolder n) :
    (folder n inside t).selected s =
      (if b = true then [] else (inside.selected s).map fun e => (n :: e.1, e.2)) ++ t.selected s := by
  have hcons : ∀ e ∈ inside.files, s.Selects (n :: e.1) ↔ ¬ b = true ∧ s.Selects e.1 := by
    intro e he
    obtain ⟨m, -, rest, hm⟩ := exists_name_of_mem_files he
    rw [Settings.selects_cons (by simp [hm]), hb, not_or]
  rw [selected, files, List.filter_append, List.filter_map]
  congr 1
  by_cases h : b = true
  · rw [if_pos h, List.map_eq_nil_iff, List.filter_eq_nil_iff]
    intro e he
    simp [hcons e he, h]
  · rw [if_neg h, selected]
    refine congrArg _ (List.filter_congr fun e he => ?_)
    simp [hcons e he, h]

/-- **A selection gives the files at the selected paths, by their joined names.** -/
theorem select_eq_ok {room : Nat} {lead : String} {t : FileTree α} {l : List (String × α)}
    (h : t.select s room lead = .ok l) : l = (t.selected s).map fun e => (lead ++ Text.join "/" e.1, e.2) := by
  induction t generalizing room lead l with
  | empty =>
    cases h
    rfl
  | file n a rest ih =>
    obtain ⟨b, hb, h⟩ := Outcome.bind_eq_ok_iff.1 h
    obtain ⟨later, hl, h⟩ := Outcome.bind_eq_ok_iff.1 h
    cases h
    rw [selected_file (Settings.isSource_eq_ok hb), List.map_append, ← ih hl]
    cases b <;> rfl
  | folder n inside rest ihi ihr =>
    obtain ⟨b, hb, h⟩ := Outcome.bind_eq_ok_iff.1 h
    obtain ⟨here, hh, h⟩ := Outcome.bind_eq_ok_iff.1 h
    obtain ⟨later, hl, h⟩ := Outcome.bind_eq_ok_iff.1 h
    cases h
    rw [selected_folder (Settings.isPassedOver_eq_ok hb), List.map_append, ← ihr hl]
    congr 1
    cases b with
    | true =>
      cases hh
      rfl
    | false =>
      rw [if_neg Bool.false_ne_true] at hh
      split at hh
      · cases hh
      -- the folder's name and slash lead the names inside, as they do in the joined path
      have hjoin : ∀ e ∈ inside.selected s,
          lead ++ n ++ "/" ++ Text.join "/" e.1 = lead ++ Text.join "/" (n :: e.1) := by
        intro e he
        obtain ⟨m, -, rest, hm⟩ := exists_name_of_mem_files (mem_selected.1 he).1
        rw [Text.join_cons "/" n (by simp [hm]), String.append_assoc, String.append_assoc, String.append_assoc]
      rw [ihi hh, if_neg (by simp), List.map_map]
      exact List.map_congr_left fun e he => Prod.ext (hjoin e he) rfl

end FileTree

/-! ## The tree of an archive -/

deriving instance DecidableEq for Zip.ReadFault

namespace Offer

/-- What is seen of an offer: its name, its size and what reading it gives. -/
def data (o : Offer) : String × Nat × Except Zip.ReadFault ByteArray := (o.name, o.size, o.content.get)

theorem data_injective : Function.Injective data := by
  rintro ⟨name, size, ⟨read⟩⟩ ⟨name', size', ⟨read'⟩⟩ h
  simp only [data, Prod.mk.injEq, Thunk.get] at h
  obtain ⟨rfl, rfl, hread⟩ := h
  obtain rfl : read = read' := funext fun _ => hread
  rfl

end Offer

namespace Archive

variable {s : Settings} {room : Nat} {offers : List Offer}

theorem offersOf_eq_ok {bytes : ByteArray}
    (h : (offersOf bytes).map (List.map Offer.data) = .ok (offers.map Offer.data)) : offersOf bytes = .ok offers := by
  obtain ⟨found, hfound, hdata⟩ := Outcome.map_eq_ok_iff.1 h
  rw [hfound, List.map_injective_iff.2 Offer.data_injective hdata]

def lastAt? (offers : List Offer) (path : FilePath) : Option Offer :=
  (offers.filter fun o => !o.isFolder && o.path == path).getLast?

theorem lastAt?_cons (o : Offer) (path : FilePath) :
    lastAt? (o :: offers) path =
      (lastAt? offers path).or (if o.isFolder = false ∧ o.path = path then some o else none) := by
  rw [lastAt?, List.filter_cons, lastAt?]
  by_cases h : o.isFolder = false ∧ o.path = path
  · rw [if_pos (by simp [h]), if_pos h, List.getLast?_cons]
    cases (offers.filter fun o => !o.isFolder && o.path == path).getLast? with
    | none => rfl
    | some last => rfl
  · rw [if_neg (by simpa using h), if_neg h, Option.or_none]

theorem mem_of_lastAt? {path : FilePath} {o : Offer} (h : lastAt? offers path = some o) : o ∈ offers :=
  (List.mem_filter.1 (List.mem_of_getLast? h)).1

theorem isSome_lastAt? {path : FilePath} :
    (∃ o, lastAt? offers path = some o) ↔ ∃ o ∈ offers, o.isFolder = false ∧ o.path = path := by
  rw [← Option.isSome_iff_exists, lastAt?, List.getLast?_isSome, ne_eq, List.filter_eq_nil_iff]
  simp

/-- No two files are offered with one path. -/
def AreDistinct (offers : List Offer) : Prop := ((offers.filter fun o => !o.isFolder).map Offer.path).Nodup

theorem lastAt?_eq_some_iff (hd : AreDistinct offers) {path : FilePath} {o : Offer} :
    lastAt? offers path = some o ↔ o ∈ offers ∧ o.isFolder = false ∧ o.path = path := by
  have hat : ∀ {o}, lastAt? offers path = some o → o ∈ offers ∧ o.isFolder = false ∧ o.path = path := fun h => by
    have hmem := List.mem_filter.1 (List.mem_of_getLast? h)
    exact ⟨hmem.1, by simpa using hmem.2⟩
  refine ⟨hat, fun h => ?_⟩
  obtain ⟨last, hlast⟩ := isSome_lastAt?.2 ⟨o, h⟩
  have hfiles : ∀ {o}, o ∈ offers ∧ o.isFolder = false ∧ o.path = path → o ∈ offers.filter fun o => !o.isFolder :=
    fun h => List.mem_filter.2 ⟨h.1, by simp [h.2.1]⟩
  have hsame : last = o :=
    List.inj_on_of_nodup_map hd (hfiles (hat hlast)) (hfiles h) ((hat hlast).2.2.trans h.2.2.symm)
  rw [hlast, hsame]

/-- What one offer does to a tree: a folder's name does nothing, a file is put at its path. -/
theorem add_eq_ok {t t' : FileTree Offer} {o : Offer} (h : add t o = .ok t') :
    o.isFolder = true ∧ t' = t ∨ o.isFolder = false ∧ t.put o.leaf o o.folders = some t' := by
  rw [add] at h
  split at h
  · cases h
  · split at h
    · next hf =>
      cases h
      exact .inl ⟨hf, rfl⟩
    · next hf =>
      split at h
      · cases h
      · split at h
        · next t'' hp =>
          cases h
          exact .inr ⟨by simpa using hf, hp⟩
        · cases h

theorem isRising_add {t t' : FileTree Offer} {o : Offer} (h : add t o = .ok t') (ht : t.IsRising) : t'.IsRising := by
  rcases add_eq_ok h with ⟨-, rfl⟩ | ⟨-, hp⟩
  · exact ht
  · exact FileTree.isRising_put hp ht

theorem file?_add {t t' : FileTree Offer} {o : Offer} (h : add t o = .ok t') (path : FilePath) :
    t'.file? path = if o.isFolder = false ∧ o.path = path then some o else t.file? path := by
  rcases add_eq_ok h with ⟨hf, rfl⟩ | ⟨hf, hp⟩
  · simp [hf]
  · rw [FileTree.file?_put hp, Offer.path]
    simp [hf, eq_comm]

theorem foldlM_add : ∀ {offers : List Offer} {t t' : FileTree Offer}, offers.foldlM add t = .ok t' → t.IsRising →
    t'.IsRising ∧ ∀ path, t'.file? path = (lastAt? offers path).or (t.file? path)
  | [], t, t', h, ht => by
    cases h
    exact ⟨ht, fun path => rfl⟩
  | o :: offers, t, t', h, ht => by
    rw [List.foldlM_cons] at h
    obtain ⟨t₁, h₁, h⟩ := Outcome.bind_eq_ok_iff.1 h
    obtain ⟨hr, hf⟩ := foldlM_add h (isRising_add h₁ ht)
    refine ⟨hr, fun path => ?_⟩
    -- a later offer with the path goes before this one, and this one before the tree
    rw [hf path, file?_add h₁, lastAt?_cons, Option.or_assoc]
    split <;> rfl

theorem isRising_treeOf {t : FileTree Offer} (h : treeOf offers = .ok t) : t.IsRising := (foldlM_add h trivial).1

/-- **The tree holds at each path the last offer with that path.** -/
theorem file?_treeOf {t : FileTree Offer} (h : treeOf offers = .ok t) (path : FilePath) :
    t.file? path = lastAt? offers path := by
  rw [(foldlM_add h trivial).2, FileTree.file?_empty, Option.or_none]

/-! ## The sources of an archive -/

/-- A source is that of a path: it goes by the joined path and has the text of the last file offered with it. -/
def IsSourceAt (offers : List Offer) (path : FilePath) (e : Entry) : Prop :=
  e.name = Text.join "/" path ∧
    ∃ o bytes, lastAt? offers path = some o ∧ o.content.get = .ok bytes ∧ e.text = Utf8.decodeSource bytes

/-- **The selection that an archive should give**: the offered paths that the settings select, each once, in the order
of their names (not of the joined paths), and the source of each. -/
structure IsSelection (s : Settings) (offers : List Offer) (paths : List FilePath) (sources : List Entry) : Prop where
  mem_iff : ∀ p, p ∈ paths ↔ (∃ o ∈ offers, o.isFolder = false ∧ o.path = p) ∧ s.Selects p
  rising : paths.Pairwise (· < ·)
  sources : List.Forall₂ (IsSourceAt offers) paths sources

theorem rightUnique_isSourceAt : Relator.RightUnique (IsSourceAt offers) := by
  rintro path ⟨name, text⟩ ⟨name', text'⟩ ⟨hn, o, bytes, ho, hb, ht⟩ ⟨hn', o', bytes', ho', hb', ht'⟩
  obtain rfl : o = o' := Option.some.inj (ho.symm.trans ho')
  obtain rfl : bytes = bytes' := Except.ok.inj (hb.symm.trans hb')
  rw [Entry.mk.injEq]
  exact ⟨hn.trans hn'.symm, ht.trans ht'.symm⟩

theorem IsSelection.unique {paths paths' : List FilePath} {sources sources' : List Entry}
    (h : IsSelection s offers paths sources) (h' : IsSelection s offers paths' sources') :
    paths = paths' ∧ sources = sources' := by
  obtain rfl : paths = paths' :=
    h.rising.eq_of_mem_iff h'.rising fun p => (h.mem_iff p).trans (h'.mem_iff p).symm
  exact ⟨rfl, List.right_unique_forall₂' rightUnique_isSourceAt h.sources h'.sources⟩

theorem entryOf_eq_ok {file : String × Offer} {e : Entry} (h : entryOf file = .ok e) :
    e.name = file.1 ∧ ∃ bytes, file.2.content.get = .ok bytes ∧ e.text = Utf8.decodeSource bytes := by
  rw [entryOf] at h
  split at h
  · next bytes hb =>
    cases h
    exact ⟨rfl, bytes, hb, rfl⟩
  · cases h

theorem checkLimit_bind_eq_ok {kept : Bool} {reason : String} {β : Type} {f : Unit → Outcome β} {b : β}
    (h : checkLimit kept reason >>= f = .ok b) : kept = true ∧ f () = .ok b := by
  cases kept with
  | true => exact ⟨rfl, h⟩
  | false => cases h

theorem exists_of_bundleOf {b : Bundle} (h : bundleOf s room offers = .ok b) :
    ∃ t selected, treeOf offers = .ok t ∧ t.select s room "" = .ok selected ∧ selected.mapM entryOf = .ok b.sources ∧
      b.names = namesOf offers := by
  obtain ⟨t, ht, h⟩ := Outcome.bind_eq_ok_iff.1 h
  obtain ⟨selected, hs, h⟩ := Outcome.bind_eq_ok_iff.1 h
  obtain ⟨-, h⟩ := checkLimit_bind_eq_ok h
  obtain ⟨limit, -, h⟩ := Outcome.bind_eq_ok_iff.1 h
  obtain ⟨-, h⟩ := checkLimit_bind_eq_ok h
  obtain ⟨sources, hm, h⟩ := Outcome.bind_eq_ok_iff.1 h
  cases h
  exact ⟨t, selected, ht, hs, hm, rfl⟩

theorem bundleOf_eq_ok {b : Bundle} (h : bundleOf s room offers = .ok b) :
    ∃ t selected, treeOf offers = .ok t ∧ t.select s room "" = .ok selected ∧ selected.mapM entryOf = .ok b.sources := by
  obtain ⟨t, selected, ht, hs, hm, -⟩ := exists_of_bundleOf h
  exact ⟨t, selected, ht, hs, hm⟩

/-- Bytes that are read give the bundle of what they offer. -/
theorem read_eq_ok {bytes : ByteArray} {b : Bundle} (h : read s room bytes = .ok b) :
    ∃ offers, offersOf bytes = .ok offers ∧ bundleOf s room offers = .ok b := by
  obtain ⟨limit, -, h⟩ := Outcome.bind_eq_ok_iff.1 h
  obtain ⟨-, h⟩ := checkLimit_bind_eq_ok h
  split at h
  · next offers ho => exact ⟨offers, ho, h⟩
  · cases h

/-- **An archive gives exactly the selected sources**, whatever it offers and whatever the settings hold. -/
theorem bundleOf_isSelection {b : Bundle} (h : bundleOf s room offers = .ok b) :
    ∃ paths, IsSelection s offers paths b.sources := by
  obtain ⟨t, selected, ht, hs, hm⟩ := bundleOf_eq_ok h
  have hrising := isRising_treeOf ht
  have hfile : ∀ {p o}, (p, o) ∈ t.files ↔ lastAt? offers p = some o := by
    intro p o
    rw [FileTree.mem_files hrising, file?_treeOf ht]
  refine ⟨(t.selected s).map (·.1), fun p => ?_, ?_, ?_⟩
  · rw [← isSome_lastAt?]
    constructor
    · intro hp
      obtain ⟨⟨q, o⟩, he, rfl⟩ := List.mem_map.1 hp
      obtain ⟨hmem, hsel⟩ := FileTree.mem_selected.1 he
      exact ⟨⟨o, hfile.1 hmem⟩, hsel⟩
    · rintro ⟨⟨o, ho⟩, hsel⟩
      exact List.mem_map.2 ⟨(p, o), FileTree.mem_selected.2 ⟨hfile.2 ho, hsel⟩, rfl⟩
  · rw [List.pairwise_map]
    exact (FileTree.files_rising hrising).sublist List.filter_sublist
  · rw [Outcome.mapM_eq_ok_iff, FileTree.select_eq_ok hs, List.forall₂_map_left_iff] at hm
    rw [List.forall₂_map_left_iff]
    have hlast : ∀ e ∈ t.selected s, lastAt? offers e.1 = some e.2 := fun e he => hfile.1 (FileTree.mem_selected.1 he).1
    refine ((List.forall₂_and_left _ _).2 ⟨hlast, hm⟩).imp fun e entry he => ?_
    obtain ⟨hname, bytes, hbytes, htext⟩ := entryOf_eq_ok he.2
    exact ⟨by rw [hname, String.empty_append], e.2, bytes, he.1, hbytes, htext⟩

def offered (name text : String) : Offer := ⟨name, text.utf8ByteSize, Thunk.mk fun _ => .ok text.toUTF8⟩

/-- Files of which two have one path and some are not selected; their joined paths rise in another order. -/
def mixed : List Offer :=
  [offered "a//b.js" "1", offered "a.js" "2", offered "build/c.js" "3", offered "./a\\b.js" "4",
   offered "__MACOSX/a.js" "5", offered "a/b.txt" "6", offered "a/" ""]

/-- There is just enough room: the path of the first source goes through one folder. -/
theorem bundleOf_isSelection_mixed :
    bundleOf .fallback 1 mixed = .ok ⟨[⟨"a/b.js", "4"⟩, ⟨"a.js", "2"⟩], mixed.dropLast.map (·.name)⟩ ∧
      ∃ paths, IsSelection .fallback mixed paths [⟨"a/b.js", "4"⟩, ⟨"a.js", "2"⟩] := by
  have h : bundleOf .fallback 1 mixed = .ok ⟨[⟨"a/b.js", "4"⟩, ⟨"a.js", "2"⟩], mixed.dropLast.map (·.name)⟩ := by
    decide +kernel
  exact ⟨h, bundleOf_isSelection h⟩

end Archive
end Cognitive
