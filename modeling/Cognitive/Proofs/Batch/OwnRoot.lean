import Cognitive.Proofs.Batch.Isolation
import Cognitive.Proofs.Batch.Packed
import Cognitive.Proofs.Batch.Separators
/-!
# A folder as its own root

The names of the files of a folder all start with the folder's own name, and the root is found among these names as it
is among the names of an archive: with slashes for backslashes and without noise.  So the own name is the root unless it
holds a backslash or is noise itself (`Folder.commonRoot_packedNames_iff`), and what a file is named relative to it is
its path from the folder, with slashes for backslashes (`Folder.analyze_ownRoot`).
-/
namespace Cognitive

open Cognitive.Language (withSlashes)

theorem EntryName.backslash_not_mem_withSlashes (name : String) : '\\' ∉ (withSlashes name).toList := by
  rw [toList_withSlashes]
  intro h
  obtain ⟨c, -, hc⟩ := List.mem_map.1 h
  unfold slashFor at hc
  split at hc
  · cases hc
  · next hne => exact hne hc

theorem EntryName.withSlashes_eq_self_iff {name : String} : withSlashes name = name ↔ '\\' ∉ name.toList := by
  constructor
  · intro h
    rw [← h]
    exact backslash_not_mem_withSlashes name
  · intro h
    rw [← String.toList_inj, toList_withSlashes, map_slashFor h]

namespace Folder

open EntryName (cleanChars slashFor)

variable {root path : DiskPath}

/-! ## Names with the own name in front -/

section Named

variable (hroot : Disk.IsName (leaf root)) (hne : path ≠ [])
include hne

theorem toList_packedName :
    (packedName root path).toList = (leaf root).toList ++ '/' :: (Text.join "/" path).toList := by
  rw [packedName, Text.join_cons "/" _ hne, String.toList_append, String.toList_append, List.append_assoc]
  rfl

theorem getLast?_packedName (hpath : ∀ name ∈ path, Disk.IsName name) :
    (packedName root path).toList.getLast? ≠ some '/' := by
  have hlast : (leaf root :: path).getLast? = some (path.getLast hne) := by
    rw [List.getLast?_cons_of_ne_nil hne, List.getLast?_eq_some_getLast hne]
  have hname := hpath _ (List.getLast_mem hne)
  rw [packedName, Text.getLast?_join hlast hname.nonempty]
  exact fun h => hname.slash (List.mem_of_getLast? h)

include hroot

/-- **The clean name is the own name and the path with slashes**, where the own name has no backslash. -/
theorem cleanChars_packedName (hback : '\\' ∉ (leaf root).toList) :
    cleanChars (packedName root path).toList =
      ((leaf root).toList ++ ['/']) ++ (withSlashes (Text.join "/" path)).toList := by
  have hdot : ∀ rest, (leaf root).toList ++ '/' :: (withSlashes (Text.join "/" path)).toList ≠ '.' :: '/' :: rest := by
    intro rest h
    rcases hchars : (leaf root).toList with _ | ⟨c, _ | ⟨d, chars⟩⟩
    · exact hroot.nonempty (String.toList_eq_nil_iff.1 hchars)
    · rw [hchars, List.singleton_append, List.cons.injEq] at h
      exact hroot.notDot (String.toList_inj.1 (hchars.trans (by rw [h.1]; rfl)))
    · rw [hchars, List.cons_append, List.cons_append, List.cons.injEq, List.cons.injEq] at h
      exact hroot.slash (by rw [hchars, h.2.1]; exact List.mem_cons_of_mem _ List.mem_cons_self)
  rw [cleanChars, toList_packedName hne, List.map_append, List.map_cons, EntryName.map_slashFor hback,
    ← EntryName.toList_withSlashes, show slashFor '/' = '/' from rfl, EntryName.dropDots_of_ne hdot, List.append_assoc]
  rfl

theorem top_packedName (hback : '\\' ∉ (leaf root).toList) : EntryName.top (packedName root path) = leaf root := by
  have hslash : ∀ c ∈ (leaf root).toList, (c != '/') = true := fun c hc => by
    rw [bne_iff_ne]
    exact fun he => hroot.slash (he ▸ hc)
  rw [EntryName.top, cleanChars_packedName hroot hne hback, List.append_assoc, List.takeWhile_append_of_pos hslash,
    List.singleton_append, List.takeWhile_cons_of_neg (by decide), List.append_nil, String.ofList_toList]

theorem isAtTop_packedName (hback : '\\' ∉ (leaf root).toList) : EntryName.isAtTop (packedName root path) = false := by
  rw [EntryName.isAtTop, cleanChars_packedName hroot hne hback]
  simp

theorem relativeTo_packedName (hback : '\\' ∉ (leaf root).toList) :
    EntryName.relativeTo (some (leaf root)) (packedName root path) = withSlashes (Text.join "/" path) := by
  have hown : (leaf root).isEmpty = false := by simpa using hroot.nonempty
  unfold EntryName.relativeTo
  rw [cleanChars_packedName hroot hne hback]
  simp only [hown, Bool.not_false, Bool.true_and]
  rw [if_pos (List.isPrefixOf_iff_prefix.2 (List.prefix_append _ _)), List.drop_left, String.ofList_toList]

theorem isIgnoredForRoot_packedName (hback : '\\' ∉ (leaf root).toList) (hpath : ∀ name ∈ path, Disk.IsName name) :
    EntryName.isIgnoredForRoot (packedName root path) = true ↔ leaf root = "__MACOSX" := by
  have hname : packedName root path ≠ "" := fun he => by
    have hchars : (packedName root path).toList = _ := toList_packedName hne
    rw [he] at hchars
    simp at hchars
  rw [EntryName.isIgnoredForRoot, top_packedName hroot hne hback]
  simp [hname, getLast?_packedName hne hpath, hroot.nonempty, EntryName.noiseFolders]

end Named

/-! ## The root -/

/-- **A name that is found as the root of what lies below it**: it has no backslash and is not noise. -/
structure IsRootName (name : String) : Prop where
  noBackslash : '\\' ∉ name.toList
  noNoise : name ≠ "__MACOSX"

instance (name : String) : Decidable (IsRootName name) :=
  decidable_of_iff ('\\' ∉ name.toList ∧ name ≠ "__MACOSX") ⟨fun ⟨hb, hn⟩ => ⟨hb, hn⟩, fun h => ⟨h.1, h.2⟩⟩

theorem commonRoot_packedNames_iff {paths : List DiskPath} (hroot : Disk.IsName (leaf root)) (hsome : paths ≠ [])
    (hpaths : ∀ path ∈ paths, path ≠ [] ∧ ∀ name ∈ path, Disk.IsName name) :
    EntryName.commonRoot (paths.map (packedName root)) = some (leaf root) ↔ IsRootName (leaf root) := by
  rw [EntryName.commonRoot_eq_some_iff]
  constructor
  · rintro ⟨⟨name, hname, hcounts⟩, hall⟩
    have htop := (hall name hname hcounts).1
    constructor
    · -- what a clean name starts with has no backslash
      intro hback
      rw [← htop, EntryName.top, String.toList_ofList] at hback
      exact EntryName.backslash_not_mem_cleanChars _ ((List.takeWhile_sublist _).subset hback)
    · intro hnoise
      rw [EntryName.isIgnoredForRoot, htop, hnoise] at hcounts
      simp [EntryName.noiseFolders] at hcounts
  · intro h
    have hcounts : ∀ path ∈ paths, EntryName.isIgnoredForRoot (packedName root path) = false := fun path hm => by
      have hignored := isIgnoredForRoot_packedName hroot (hpaths path hm).1 h.noBackslash (hpaths path hm).2
      exact Bool.eq_false_iff.2 fun hi => h.noNoise (hignored.1 hi)
    obtain ⟨first, hfirst⟩ := List.exists_mem_of_ne_nil paths hsome
    refine ⟨⟨_, List.mem_map_of_mem hfirst, hcounts first hfirst⟩, fun name hname _ => ?_⟩
    obtain ⟨path, hm, rfl⟩ := List.mem_map.1 hname
    exact ⟨top_packedName hroot (hpaths path hm).1 h.noBackslash,
      isAtTop_packedName hroot (hpaths path hm).1 h.noBackslash⟩

/-! ## The summary -/

/-- **What a summary says of the files of a folder with an own name.**  The root is the own name when that can be found.
Then the files are named by their paths with slashes, so by their paths when these have no backslashes. -/
structure IsOwnSummary (own : String) (files : List (DiskPath × ByteArray)) (summary : Summary) : Prop where
  root : summary.rootFolder = some own ↔ IsRootName own
  named : IsRootName own →
    summary.results.map FileResult.fileName = files.map fun e => withSlashes (Text.join "/" e.1)
  namedByPath : IsRootName own → (summary.results.map FileResult.fileName = files.map (fun e => Text.join "/" e.1) ↔
    ∀ e ∈ files, ∀ name ∈ e.1, '\\' ∉ name.toList)
  apart : IsRootName own → (∀ e ∈ files, ∀ name ∈ e.1, '\\' ∉ name.toList) →
    (summary.results.map FileResult.fileName).Nodup

variable {s : Settings} {items : List (DiskPath × DiskItem)}

theorem bundleOf_eq (hs : s.IsTyped) (room : Nat) (ht : Disk.IsTree items)
    (hrising : items.Pairwise fun a b => a.1 < b.1)
    (hcount : s.tooManyFiles (sourceFiles s items).length = false) :
    (RunsOut s room items ∧ bundleOf s room root items = breakDown .tooDeep) ∨
      ¬ RunsOut s room items ∧ bundleOf s room root items =
        .ok ⟨(sourceFiles s items).map (entry root), (files s items).map fun e => packedName root e.1⟩ := by
  rcases bundleOf_cases hs room root ht hrising with ⟨hin, -, h⟩ | ⟨hout, h⟩ | ⟨hk, -⟩
  · exact .inr ⟨hin, h⟩
  · exact .inl ⟨hout, h⟩
  · exact absurd ((keeps_zero_iff hs).2 (.inr hcount)) hk

theorem tear?_entry (root : DiskPath) (files : List (DiskPath × ByteArray)) :
    ∀ e ∈ files.map (entry root), e.text.tear? = none := by
  intro e he
  obtain ⟨file, -, rfl⟩ := List.mem_map.1 he
  exact Script.tear?_ofString _

/-- **The root of the files that nothing hides is the own name**, where it can be found. -/
theorem commonRoot_files_iff (hroot : Disk.IsName (leaf root)) (ht : Disk.IsTree items) {file : DiskPath}
    {bytes : ByteArray} (hfile : (file, .file bytes) ∈ items) (hshown : ¬ Hides s file) :
    EntryName.commonRoot ((files s items).map fun e => packedName root e.1) = some (leaf root) ↔
      IsRootName (leaf root) := by
  have hpaths : ∀ p ∈ (files s items).map Prod.fst, p ≠ [] ∧ ∀ name ∈ p, Disk.IsName name := fun p hp => by
    obtain ⟨e, he, rfl⟩ := List.mem_map.1 hp
    have hitem := (mem_files.1 he).1
    exact ⟨ht.nonempty _ hitem, ht.named _ hitem⟩
  have hsome : (files s items).map Prod.fst ≠ [] :=
    List.ne_nil_of_mem (List.mem_map_of_mem (mem_files.2 ⟨hfile, hshown⟩))
  have hiff := commonRoot_packedNames_iff hroot hsome hpaths
  rwa [List.map_map] at hiff

theorem joined_eq_iff {files : List (DiskPath × ByteArray)} :
    (files.map fun e => withSlashes (Text.join "/" e.1)) = files.map (fun e => Text.join "/" e.1) ↔
      ∀ e ∈ files, ∀ name ∈ e.1, '\\' ∉ name.toList := by
  rw [List.map_inj_left]
  refine forall₂_congr fun e _ => ?_
  rw [EntryName.withSlashes_eq_self_iff]
  constructor
  · exact fun h name hname hc => h (Text.mem_join_of_mem hname hc)
  · intro h hc
    rcases Text.mem_join hc with hc | ⟨name, hname, hc⟩
    · simp at hc
    · exact h name hname hc

theorem nodup_joined (ht : Disk.IsTree items) (hback : ∀ e ∈ sourceFiles s items, ∀ name ∈ e.1, '\\' ∉ name.toList) :
    ((sourceFiles s items).map fun e => Text.join "/" e.1).Nodup := by
  have hproper : ∀ e ∈ sourceFiles s items, FilePath.IsProper e.1 := fun e he => by
    have hitem := (mem_sourceFiles.1 he).1
    refine ⟨ht.nonempty _ hitem, fun name hname => ?_⟩
    have hn := ht.named _ hitem name hname
    exact ⟨hn.nonempty, hn.notUp, hn.slash, hback e he name hname⟩
  have hpaths : ((sourceFiles s items).map Prod.fst).Nodup :=
    ht.nodup.sublist ((List.filter_sublist.map Prod.fst).trans (files_sublist items))
  have hjoined : (sourceFiles s items).map (fun e => Text.join "/" e.1) =
      ((sourceFiles s items).map Prod.fst).map (Text.join "/") := by
    rw [List.map_map]
    rfl
  rw [hjoined]
  refine hpaths.map_on fun p hp q hq heq => ?_
  obtain ⟨e, he, rfl⟩ := List.mem_map.1 hp
  obtain ⟨f, hf, rfl⟩ := List.mem_map.1 hq
  exact (hproper e he).join_inj (hproper f hf) heq

variable {g : Grammars} {d : Disk} {folder : DiskPath}

end Folder
end Cognitive
