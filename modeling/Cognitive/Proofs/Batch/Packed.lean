import Cognitive.Proofs.Batch.Naming
import Cognitive.Proofs.Batch.Refusal
import Cognitive.Proofs.Batch.Visit
/-!
# Folders and archives

A folder is read as if it had been packed under its own name.  The archive of its files puts each at the path that it
has on the disk (`Offer.path_of_name`), so the files fit, and it selects what the visit of the folder finds, but for
files in noise folders: those an archive passes over and a folder does not (`Folder.read_packed`).  Where there are none
of these, both give the same sources or both have too many (`Folder.read_as_packed`).
-/
namespace Cognitive

/-! ## Names that are joined paths -/

namespace FilePath.IsProper

variable {p : FilePath} (hp : p.IsProper) (hfront : p.head? ≠ some ".")
include hp hfront

theorem pieces_join : EntryName.pieces (Text.join "/" p) = p := by
  have hclean : EntryName.clean (Text.join "/" p) = Text.join "/" p := by
    rw [EntryName.clean, hp.cleanChars_join fun h => absurd h hfront, String.ofList_toList]
  rw [EntryName.pieces, hclean, hp.splitString_join]

theorem not_isUnsafe_join (hdrive : ∀ first, p.head? = some first → first.toList.getLast? ≠ some ':') :
    ¬ EntryName.IsUnsafe (Text.join "/" p) := by
  intro h
  cases h with
  | absolute h =>
    rw [EntryName.toList_clean, hp.cleanChars_join fun h => absurd h hfront] at h
    exact hp.isProper_join.relative h
  | drive hf h =>
    rw [hp.pieces_join hfront] at hf
    obtain ⟨first, rest, rfl⟩ := List.exists_cons_of_ne_nil hp.nonempty
    have hne : (first != ".") = true := by simpa using hfront
    rw [List.find?_cons_of_pos (p := fun piece => piece != ".") hne] at hf
    exact hdrive first rfl (Option.some.inj hf ▸ h)
  | upward h =>
    rw [hp.pieces_join hfront] at h
    exact (hp.pieces _ h).2.1 rfl

end FilePath.IsProper

theorem Offer.path_of_name {o : Offer} {p : FilePath} (hp : p.IsProper) (hfront : p.head? ≠ some ".")
    (hn : o.name = Text.join "/" p) : o.path = p := by
  have hpieces : o.pieces = p := by
    rw [← hp.pieces_join hfront, ← hn]
    rfl
  have hfolders : o.folders = p.dropLast := by
    rw [folders, hpieces, List.filter_eq_self]
    intro piece hm
    simpa using (hp.pieces piece (List.mem_of_mem_dropLast hm)).1
  rw [path, hfolders, leaf, hpieces, List.getLast?_eq_some_getLast hp.nonempty, Option.getD_some,
    List.dropLast_concat_getLast]

namespace Folder

variable {s : Settings} {limit : Int} {root : DiskPath} {items : List (DiskPath × DiskItem)} {offers : List Offer}

/-- The files among some items under the names that they go by when they are packed, with what reading them gives. -/
def packedFiles (root : DiskPath) (items : List (DiskPath × DiskItem)) :
    List (String × Except Zip.ReadFault ByteArray) :=
  items.filterMap fun e => match e.2 with
    | .file bytes => some (packedName root e.1, .ok bytes)
    | .folder | .link _ => none

theorem mem_packedFiles {file : String × Except Zip.ReadFault ByteArray} : file ∈ packedFiles root items ↔
    ∃ path bytes, (path, .file bytes) ∈ items ∧ file = (packedName root path, .ok bytes) := by
  unfold packedFiles
  rw [List.mem_filterMap]
  constructor
  · rintro ⟨⟨path, item⟩, hm, h⟩
    cases item with
    | file bytes => exact ⟨path, bytes, hm, (Option.some.inj h).symm⟩
    | folder | link => cases h
  · rintro ⟨path, bytes, hm, rfl⟩
    exact ⟨_, hm, rfl⟩

/-- **A name under which the files of a folder can be packed and are not passed over.** -/
structure IsPackable (s : Settings) (name : String) : Prop extends Disk.IsName name where
  noBackslash : '\\' ∉ name.toList
  noDrive : name.toList.getLast? ≠ some ':'
  noNoise : name ≠ "__MACOSX"
  shown : ¬ s.IgnoresFolder name

/-- **Some offers are those of the packed items**: under the folder's own name, which can be packed, as no name below
has a backslash either.  The offers of folders do not matter. -/
structure IsPacked (s : Settings) (root : DiskPath) (items : List (DiskPath × DiskItem)) (offers : List Offer) :
    Prop where
  tree : Disk.IsTree items
  packable : IsPackable s (leaf root)
  noBackslash : ∀ e ∈ items, ∀ name ∈ e.1, '\\' ∉ name.toList
  files : ((offers.filter fun o => !o.isFolder).map fun o => (o.name, o.content.get)).Perm (packedFiles root items)

def IsOffer (root path : DiskPath) (bytes : ByteArray) (o : Offer) : Prop :=
  o.isFolder = false ∧ o.name = packedName root path ∧ o.content.get = .ok bytes

namespace IsPacked

variable (h : IsPacked s root items offers)
include h

theorem isProper {e : DiskPath × DiskItem} (he : e ∈ items) : FilePath.IsProper (leaf root :: e.1) where
  nonempty := List.cons_ne_nil _ _
  pieces piece hm := by
    rcases List.mem_cons.1 hm with rfl | hm
    · exact ⟨h.packable.nonempty, h.packable.notUp, h.packable.slash, h.packable.noBackslash⟩
    · have hname := h.tree.named e he piece hm
      exact ⟨hname.nonempty, hname.notUp, hname.slash, h.noBackslash e he piece hm⟩

theorem front (path : DiskPath) : (leaf root :: path).head? ≠ some "." := fun hd =>
  h.packable.notDot (Option.some.inj hd)

theorem exists_item {o : Offer} (ho : o ∈ offers) (hf : o.isFolder = false) :
    ∃ path bytes, (path, .file bytes) ∈ items ∧ IsOffer root path bytes o := by
  have hm : (o.name, o.content.get) ∈ packedFiles root items := h.files.mem_iff.1
    (List.mem_map_of_mem (f := fun o : Offer => (o.name, o.content.get)) (List.mem_filter.2 ⟨ho, by simp [hf]⟩))
  obtain ⟨path, bytes, he, heq⟩ := mem_packedFiles.1 hm
  obtain ⟨hname, hcontent⟩ := Prod.mk.inj heq
  exact ⟨path, bytes, he, hf, hname, hcontent⟩

theorem exists_offer {path : DiskPath} {bytes : ByteArray} (he : (path, .file bytes) ∈ items) :
    ∃ o ∈ offers, IsOffer root path bytes o := by
  obtain ⟨o, ho, heq⟩ := List.mem_map.1 (h.files.mem_iff.2 (mem_packedFiles.2 ⟨path, bytes, he, rfl⟩))
  obtain ⟨hm, hf⟩ := List.mem_filter.1 ho
  obtain ⟨hname, hcontent⟩ := Prod.mk.inj heq
  exact ⟨o, hm, by simpa using hf, hname, hcontent⟩

/-- **A packed file is put where it lies on the disk**, below the folder's own name. -/
theorem path_of_isOffer {path : DiskPath} {bytes : ByteArray} {o : Offer} (he : (path, .file bytes) ∈ items)
    (ho : IsOffer root path bytes o) : o.path = leaf root :: path :=
  Offer.path_of_name (h.isProper he) (h.front path) ho.2.1

theorem fits : Archive.Fits offers where
  named o ho := by
    rintro hn
    have hf : o.isFolder = false := by
      rw [Offer.isFolder, hn]
      rfl
    obtain ⟨path, bytes, he, hoffer⟩ := h.exists_item ho hf
    have hempty : Text.join "/" (leaf root :: path) = "" := hoffer.2.1.symm.trans hn
    have hpieces := (h.isProper he).splitString_join
    rw [hempty] at hpieces
    exact h.packable.nonempty (List.cons.inj hpieces).1.symm
  safe o ho hf := by
    obtain ⟨path, bytes, he, hoffer⟩ := h.exists_item ho hf
    rw [hoffer.2.1]
    refine (h.isProper he).not_isUnsafe_join (h.front path) fun first hfirst => ?_
    exact Option.some.inj hfirst ▸ h.packable.noDrive
  apart o ho o' ho' hf hf' habove := by
    obtain ⟨path, bytes, he, hoffer⟩ := h.exists_item ho hf
    obtain ⟨path', bytes', he', hoffer'⟩ := h.exists_item ho' hf'
    rw [h.path_of_isOffer he hoffer, h.path_of_isOffer he' hoffer', FilePath.isAbove_cons_iff] at habove
    -- the first path is a file's, and a folder's since the second goes on from it
    have hfolder := h.tree.nested _ he' path (h.tree.nonempty _ he) habove.2
    have hsame := List.inj_on_of_nodup_map h.tree.nodup he hfolder rfl
    cases hsame

theorem nodup_packedFiles : ((packedFiles root items).map Prod.fst).Nodup := by
  have hitems : items.Pairwise fun a b => a.1 ≠ b.1 := List.pairwise_map.1 h.tree.nodup
  refine List.pairwise_map.2 (List.pairwise_filterMap.2 (hitems.imp_of_mem ?_))
  rintro ⟨path, item⟩ ⟨path', item'⟩ he he' hne file hfile file' hfile' heq
  cases item with
  | file bytes =>
    cases item' with
    | file bytes' =>
      obtain rfl := Option.some.inj hfile
      obtain rfl := Option.some.inj hfile'
      exact hne (List.cons.inj ((h.isProper he).join_inj (h.isProper he') heq)).2
    | folder | link => cases hfile'
  | folder | link => cases hfile

theorem distinct : Archive.AreDistinct offers := by
  have hnames : (offers.filter fun o => !o.isFolder).Pairwise fun o o' => o.name ≠ o'.name := by
    have hnodup := (h.files.map Prod.fst).nodup_iff.2 h.nodup_packedFiles
    rw [List.map_map] at hnodup
    exact List.pairwise_map.1 hnodup
  refine List.pairwise_map.2 (hnames.imp_of_mem ?_)
  intro o o' hm hm' hne heq
  obtain ⟨ho, hf⟩ := List.mem_filter.1 hm
  obtain ⟨ho', hf'⟩ := List.mem_filter.1 hm'
  obtain ⟨path, bytes, he, hoffer⟩ := h.exists_item ho (by simpa using hf)
  obtain ⟨path', bytes', he', hoffer'⟩ := h.exists_item ho' (by simpa using hf')
  rw [h.path_of_isOffer he hoffer, h.path_of_isOffer he' hoffer', List.cons.injEq, and_iff_right rfl] at heq
  subst heq
  exact hne (hoffer.2.1.trans hoffer'.2.1.symm)

theorem lastAt?_eq_some_iff {p : FilePath} {o : Offer} : Archive.lastAt? offers p = some o ↔
    o ∈ offers ∧ ∃ path bytes, (path, .file bytes) ∈ items ∧ p = leaf root :: path ∧ IsOffer root path bytes o := by
  rw [Archive.lastAt?_eq_some_iff h.distinct]
  refine and_congr_right fun ho => ⟨?_, ?_⟩
  · rintro ⟨hf, rfl⟩
    obtain ⟨path, bytes, he, hoffer⟩ := h.exists_item ho hf
    exact ⟨path, bytes, he, h.path_of_isOffer he hoffer, hoffer⟩
  · rintro ⟨path, bytes, he, rfl, hoffer⟩
    exact ⟨hoffer.1, h.path_of_isOffer he hoffer⟩

end IsPacked

/-! ## What is selected of the packed files -/

/-- No folder on the way to the path is noise. -/
def IsQuiet (path : DiskPath) : Prop := "__MACOSX" ∉ path.dropLast

instance (path : DiskPath) : Decidable (IsQuiet path) := inferInstanceAs (Decidable (_ ∉ _))

/-- The source files that an archive selects: those of a folder that lie in no noise folder either. -/
noncomputable def quietFiles (s : Settings) (items : List (DiskPath × DiskItem)) : List (DiskPath × ByteArray) :=
  (sourceFiles s items).filter fun e => decide (IsQuiet e.1)

theorem mem_quietFiles {path : DiskPath} {bytes : ByteArray} (hne : ∀ e ∈ items, e.1 ≠ []) :
    (path, bytes) ∈ quietFiles s items ↔ (path, .file bytes) ∈ items ∧ s.Selects path := by
  rw [quietFiles, List.mem_filter, mem_sourceFiles, decide_eq_true_eq, and_assoc]
  refine and_congr_right fun he => ?_
  rcases List.eq_nil_or_concat' path with rfl | ⟨folders, last, rfl⟩
  · exact absurd rfl (hne _ he)
  · rw [Settings.selects_append, Hides, IsQuiet, List.dropLast_concat, leaf_concat]
    constructor
    · rintro ⟨⟨hh, hsource⟩, hquiet⟩
      exact ⟨hsource, fun f hf => ⟨fun heq => hquiet (heq ▸ hf), fun hi => hh ⟨f, hf, hi⟩⟩⟩
    · rintro ⟨hsource, hfolders⟩
      exact ⟨⟨fun ⟨f, hf, hi⟩ => (hfolders f hf).2 hi, hsource⟩, fun hm => (hfolders _ hm).1 rfl⟩

theorem quietFiles_rising (hrising : items.Pairwise fun a b => a.1 < b.1) :
    (quietFiles s items).Pairwise fun a b => a.1 < b.1 :=
  (files_rising hrising).sublist (List.filter_sublist.trans List.filter_sublist)

namespace IsPacked

variable (h : IsPacked s root items offers)
include h

theorem mem_selectedPaths {p : FilePath} : p ∈ Archive.selectedPaths s offers ↔
    ∃ e ∈ quietFiles s items, p = leaf root :: e.1 := by
  have hselects : ∀ {path}, path ≠ [] → (s.Selects (leaf root :: path) ↔ s.Selects path) := fun hne => by
    rw [Settings.selects_cons hne, and_iff_right ⟨h.packable.noNoise, h.packable.shown⟩]
  rw [Archive.mem_selectedPaths]
  constructor
  · rintro ⟨⟨o, ho, hf, rfl⟩, hs⟩
    obtain ⟨path, bytes, he, hoffer⟩ := h.exists_item ho hf
    rw [h.path_of_isOffer he hoffer] at hs ⊢
    exact ⟨(path, bytes), (mem_quietFiles h.tree.nonempty).2 ⟨he, (hselects (h.tree.nonempty _ he)).1 hs⟩, rfl⟩
  · rintro ⟨⟨path, bytes⟩, hm, rfl⟩
    obtain ⟨he, hs⟩ := (mem_quietFiles h.tree.nonempty).1 hm
    obtain ⟨o, ho, hoffer⟩ := h.exists_offer he
    exact ⟨⟨o, ho, hoffer.1, h.path_of_isOffer he hoffer⟩, (hselects (h.tree.nonempty _ he)).2 hs⟩

variable (hrising : items.Pairwise fun a b => a.1 < b.1)
include hrising

theorem card_selectedPaths : (Archive.selectedPaths s offers).card = (quietFiles s items).length := by
  have hnodup : ((quietFiles s items).map fun e => leaf root :: e.1).Nodup := by
    refine List.pairwise_map.2 ((quietFiles_rising hrising).imp fun hlt heq => ?_)
    exact ne_of_lt hlt (List.cons.inj heq).2
  have hpaths : Archive.selectedPaths s offers = ((quietFiles s items).map fun e => leaf root :: e.1).toFinset := by
    ext p
    rw [h.mem_selectedPaths, List.mem_toFinset, List.mem_map]
    simp only [eq_comm]
  rw [hpaths, List.toFinset_card_of_nodup hnodup, List.length_map]

/-- **The tree of the packed files selects the same files as the visit**, in the same order, but for noise. -/
theorem selected_eq {t : FileTree Offer} (ht : Archive.treeOf offers = .ok t) :
    (t.selected s).map (fun e => (e.1, e.2.content.get)) =
      (quietFiles s items).map fun e => (leaf root :: e.1, .ok e.2) := by
  have hselected : ((t.selected s).map fun e => (e.1, e.2.content.get)).Pairwise fun a b => a.1 < b.1 :=
    List.pairwise_map.2 (Archive.selected_rising ht)
  have hquiet : ((quietFiles s items).map
      fun e => (leaf root :: e.1, (.ok e.2 : Except Zip.ReadFault ByteArray))).Pairwise fun a b => a.1 < b.1 :=
    List.pairwise_map.2 ((quietFiles_rising hrising).imp fun hlt => List.Lex.cons hlt)
  refine hselected.eq_of_mem_iff hquiet fun file => ?_
  rw [List.mem_map, List.mem_map]
  constructor
  · rintro ⟨e, he, rfl⟩
    obtain ⟨hp, hlast⟩ := (Archive.mem_selected_treeOf ht).1 he
    obtain ⟨-, path, bytes, hitem, hpath, hoffer⟩ := h.lastAt?_eq_some_iff.1 hlast
    obtain ⟨⟨path', bytes'⟩, hm, hpath'⟩ := h.mem_selectedPaths.1 hp
    obtain rfl : path' = path := (List.cons.inj (hpath'.symm.trans hpath)).2
    have hsame := List.inj_on_of_nodup_map h.tree.nodup ((mem_quietFiles h.tree.nonempty).1 hm).1 hitem rfl
    obtain rfl := DiskItem.file.inj (Prod.mk.inj hsame).2
    exact ⟨_, hm, by rw [hpath, hoffer.2.2]⟩
  · rintro ⟨⟨path, bytes⟩, hm, rfl⟩
    obtain ⟨o, ho, hoffer⟩ := h.exists_offer ((mem_quietFiles h.tree.nonempty).1 hm).1
    have hlast := h.lastAt?_eq_some_iff.2 ⟨ho, path, bytes, ((mem_quietFiles h.tree.nonempty).1 hm).1, rfl, hoffer⟩
    have hp : leaf root :: path ∈ Archive.selectedPaths s offers := h.mem_selectedPaths.2 ⟨_, hm, rfl⟩
    exact ⟨(leaf root :: path, o), (Archive.mem_selected_treeOf ht).2 ⟨hp, hlast⟩, by rw [hoffer.2.2]⟩

theorem entriesOf_eq {t : FileTree Offer} (ht : Archive.treeOf offers = .ok t) :
    Archive.entriesOf s t = .ok ((quietFiles s items).map (entry root)) := by
  have hrel : List.Forall₂ (fun e f => (e.1, e.2.content.get) = (leaf root :: f.1, .ok f.2))
      (t.selected s) (quietFiles s items) := by
    have hsame := h.selected_eq hrising ht
    rwa [← List.forall₂_eq_eq_eq, List.forall₂_map_left_iff, List.forall₂_map_right_iff] at hsame
  rw [Archive.entriesOf, Outcome.mapM_eq_ok_iff, List.forall₂_map_left_iff, List.forall₂_map_right_iff]
  refine hrel.imp fun e f hef => ?_
  obtain ⟨hpath, hcontent⟩ := Prod.mk.inj hef
  rw [Archive.entryOf, hcontent, hpath]
  rfl

end IsPacked

/-! ## Reading both -/

/-- **A folder that can be packed**: a path leads to it, and its own name can be packed with those below. -/
structure IsPlain (s : Settings) (d : Disk) (path root folder : DiskPath) : Prop where
  resolved : d.resolve path = .ok root
  followed : d.follow root = .ok folder
  isFolder : d.item? folder = some .folder
  packable : IsPackable s (leaf root)
  noBackslash : ∀ e ∈ d.below folder, ∀ name ∈ e.1, '\\' ∉ name.toList

/-- **An archive of a folder**: it offers the files below the folder and keeps the limits in size. -/
structure IsArchiveOf (s : Settings) (limit : Int) (root : DiskPath) (items : List (DiskPath × DiskItem))
    (bytes : ByteArray) (offers : List Offer) : Prop where
  opened : Archive.offersOf bytes = .ok offers
  files : ((offers.filter fun o => !o.isFolder).map fun o => (o.name, o.content.get)).Perm (packedFiles root items)
  size : (bytes.size : Int) ≤ limit
  unpacked : ((∑ p ∈ Archive.selectedPaths s offers, Archive.sizeAt offers p : Nat) : Int) ≤ limit

variable {d : Disk} {path folder : DiskPath} {bytes : ByteArray}

theorem IsPlain.leadsTo (h : IsPlain s d path root folder) : LeadsTo d path root folder :=
  ⟨h.resolved, h.followed, h.isFolder⟩

theorem read_eq_bundleOf (h : IsPlain s d path root folder) (room : Nat) :
    read s room d path = bundleOf s room root (d.below folder) :=
  h.leadsTo.read_eq s room

theorem IsArchiveOf.read_eq (ha : IsArchiveOf s limit root items bytes offers) (hl : s.archiveLimit = .ok limit)
    (room : Nat) : Archive.read s room bytes = Archive.bundleOf s room offers := by
  rcases Archive.read_cases hl room bytes with ⟨hsize, -⟩ | ⟨-, ⟨f, ho, -⟩ | ⟨offers', ho, h⟩⟩
  · exact absurd ha.size hsize
  · rw [ha.opened] at ho
    cases ho
  · rw [ha.opened] at ho
    cases ho
    exact h

theorem keeps_zero_iff (hs : s.IsTyped) {count : Nat} :
    Keeps s 0 count ↔ count = 0 ∨ s.tooManyFiles count = false := by
  obtain ⟨n, hmax⟩ := hs.maxFiles
  constructor
  · intro h
    by_cases hc : count = 0
    · exact .inl hc
    · exact .inr (h count (by omega) (by omega))
  · intro h k hk hle
    rw [Archive.tooManyFiles_eq_false_iff hmax] at h ⊢
    omega

section Typed

variable (hs : s.IsTyped) (hl : s.archiveLimit = .ok limit)
include hs hl

/-- **The archive of a folder gives the source files that lie in no noise folder**, or has too many of them, or it is too
deep. -/
theorem read_packed (hp : IsPacked s root items offers) (hrising : items.Pairwise fun a b => a.1 < b.1)
    (ha : IsArchiveOf s limit root items bytes offers) (room : Nat) :
    (Archive.RunsOut s room offers ∧ Archive.read s room bytes = breakDown .tooDeep) ∨
      ¬ Archive.RunsOut s room offers ∧ ((s.tooManyFiles (quietFiles s items).length = false ∧
          ∃ b, Archive.read s room bytes = .ok b ∧ b.sources = (quietFiles s items).map (entry root)) ∨
        (s.tooManyFiles (quietFiles s items).length = true ∧
          Archive.read s room bytes = refuse (Archive.overflow s (quietFiles s items).length))) := by
  rw [ha.read_eq hl room, ← hp.card_selectedPaths hrising]
  obtain ⟨t, ht⟩ := Archive.exists_treeOf_iff.2 hp.fits
  by_cases hout : Archive.RunsOut s room offers
  · exact .inl ⟨hout, Archive.bundleOf_eq_tooDeep hs ht hout⟩
  · refine .inr ⟨hout, ?_⟩
    cases hcount : s.tooManyFiles (Archive.selectedPaths s offers).card with
    | true => exact .inr ⟨rfl, Archive.bundleOf_eq_overflow hs ht hout hcount⟩
    | false =>
      have hends := Archive.ends_bundleOf hs hl room offers
      generalize Archive.bundleOf s room offers = outcome at hends
      cases hends with
      | misplaced hfits => exact absurd hp.fits hfits
      | tooDeep _ hout' => exact absurd hout' hout
      | overLimit _ _ hk => exact absurd ⟨hcount, ha.unpacked⟩ hk
      | entries _ _ _ ht' =>
        rw [hp.entriesOf_eq hrising ht']
        exact .inl ⟨rfl, _, rfl, rfl⟩

end Typed

/-- A folder with a file and a folder with another file. -/
def smallDisk : Disk :=
  ⟨[(["p"], .folder), (["p", "a.js"], .file .empty), (["p", "q"], .folder), (["p", "q", "b.js"], .file .empty)]⟩

def smallArchive : ByteArray := Zip.emptyFiles 20 ["p/q/b.js", "p/a.js"]

def smallOffers : List Offer := [Archive.offered "p/q/b.js" "", Archive.offered "p/a.js" ""]

theorem isSound_smallDisk : smallDisk.IsSound where
  nodup := by decide +kernel
  nonempty := by decide +kernel
  named := by decide +kernel
  nested := by
    intro e he folder hne habove
    have hinit : folder ∈ e.1.inits := (List.mem_inits _ _).2 habove.1
    have hpath := habove.2
    simp only [smallDisk, List.mem_cons, List.not_mem_nil, or_false] at he
    rcases he with rfl | rfl | rfl | rfl <;> simp [smallDisk] at hinit hpath ⊢ <;> grind

theorem below_smallDisk : smallDisk.below ["p"] =
    [(["a.js"], .file .empty), (["q"], .folder), (["q", "b.js"], .file .empty)] := by
  rw [Disk.below, List.mergeSort_of_pairwise]
  · rfl
  · decide +kernel

theorem isPlain_smallDisk : IsPlain .fallback smallDisk ["p"] ["p"] ["p"] where
  resolved := by
    have hitem : smallDisk.item? ["p"] = some .folder := rfl
    simp [Disk.resolve, Disk.resolveFrom, Path.isVoid, hitem]
  followed := by
    have hitem : smallDisk.item? ["p"] = some .folder := rfl
    have htext : Disk.checkText ["p"] = .ok () := by decide +kernel
    rw [Disk.follow, htext]
    simp [Disk.followFrom, Path.isVoid, hitem, bind, Except.bind]
  isFolder := rfl
  packable := {
    toIsName := by decide +kernel
    noBackslash := by decide +kernel
    noDrive := by decide +kernel
    noNoise := by decide +kernel
    shown := fun h => nomatch (Settings.isIgnored_eq_ok (b := false) (by decide +kernel)).2 h }
  noBackslash := by
    rw [below_smallDisk]
    decide +kernel

theorem isArchiveOf_smallDisk :
    IsArchiveOf .fallback 52428800 ["p"] (smallDisk.below ["p"]) smallArchive smallOffers where
  opened := Archive.offersOf_eq_ok (by decide +kernel)
  files := by
    have hoffers : (smallOffers.filter fun o => !o.isFolder).map (fun o => (o.name, o.content.get)) =
        [("p/q/b.js", .ok .empty), ("p/a.js", .ok .empty)] := by decide +kernel
    have hpacked : packedFiles ["p"] [(["a.js"], .file .empty), (["q"], .folder), (["q", "b.js"], .file .empty)] =
        [("p/a.js", .ok .empty), ("p/q/b.js", .ok .empty)] := by decide +kernel
    rw [below_smallDisk, hoffers, hpacked]
    exact List.Perm.swap _ _ _
  size := by decide +kernel
  unpacked := by
    have hempty : ∀ o ∈ smallOffers, o.size = 0 := by decide +kernel
    have hzero : ∀ p, Archive.sizeAt smallOffers p = 0 := fun p => by
      unfold Archive.sizeAt
      cases hlast : Archive.lastAt? smallOffers p with
      | none => rfl
      | some o => exact hempty o (Archive.mem_of_lastAt? hlast)
    rw [Finset.sum_eq_zero fun p _ => hzero p]
    decide

theorem shallow_smallDisk : ¬ RunsOut .fallback 960 (smallDisk.below ["p"]) ∧
    ¬ Archive.RunsOut .fallback 960 smallOffers := by
  constructor
  · rintro ⟨e, he, h⟩
    rw [below_smallDisk] at he
    have hshort : ∀ e ∈ [(["a.js"], DiskItem.file .empty), (["q"], .folder), (["q", "b.js"], .file .empty)],
        e.1.length ≤ 960 := by decide
    exact absurd h.deep (not_lt.2 (hshort e he))
  · rintro ⟨o, ho, -, h⟩
    have hshort : ∀ o ∈ smallOffers, o.path.dropLast.length ≤ 960 := by decide +kernel
    exact absurd h.1 (not_lt.2 (hshort o ho))

end Folder
end Cognitive
