import Cognitive.Proofs.Batch.Selection
/-!
# The selected paths

Which paths of an archive are selected, and what their files are, is said of the offers alone: the tree that they are
put into holds at the selected paths what the offers say (`mem_selected_treeOf`), each path once, so that counts and
sums over the files of the tree are over the paths (`length_selected`, `sum_selected`).
-/
namespace Cognitive
namespace Archive

variable {s : Settings} {offers : List Offer}

open Classical in
/-- The offered paths that the settings select, each once. -/
noncomputable def selectedPaths (s : Settings) (offers : List Offer) : Finset FilePath :=
  ((offers.filter fun o => !o.isFolder).map Offer.path).toFinset.filter fun p => s.Selects p

theorem mem_selectedPaths {p : FilePath} :
    p ∈ selectedPaths s offers ↔ (∃ o ∈ offers, o.isFolder = false ∧ o.path = p) ∧ s.Selects p := by
  simp [selectedPaths, and_assoc]

/-- The size that the last file with a path says it has. -/
def sizeAt (offers : List Offer) (p : FilePath) : Nat := (lastAt? offers p).elim 0 Offer.size

/-- Why the last file with a path cannot be read. -/
def faultAt? (offers : List Offer) (p : FilePath) : Option Zip.ReadFault :=
  (lastAt? offers p).bind fun o => match o.content.get with
    | .ok _ => none
    | .error f => some f

/-- How many bytes are read of the last file with a path. -/
def bytesAt (offers : List Offer) (p : FilePath) : Nat :=
  (lastAt? offers p).elim 0 fun o => match o.content.get with
    | .ok bytes => bytes.size
    | .error _ => 0

section Tree

variable {t : FileTree Offer} (ht : treeOf offers = .ok t)
include ht

theorem mem_selected_treeOf {e : List String × Offer} :
    e ∈ t.selected s ↔ e.1 ∈ selectedPaths s offers ∧ lastAt? offers e.1 = some e.2 := by
  rw [FileTree.mem_selected, mem_selectedPaths, ← isSome_lastAt?]
  have hm : (e.1, e.2) ∈ t.files ↔ lastAt? offers e.1 = some e.2 := by
    rw [FileTree.mem_files (isRising_treeOf ht), file?_treeOf ht]
  rw [show e = (e.1, e.2) from rfl, hm]
  constructor
  · rintro ⟨hl, hs⟩
    exact ⟨⟨⟨e.2, hl⟩, hs⟩, hl⟩
  · rintro ⟨⟨-, hs⟩, hl⟩
    exact ⟨hl, hs⟩

theorem exists_mem_selected {p : FilePath} (hp : p ∈ selectedPaths s offers) :
    ∃ o, (p, o) ∈ t.selected s ∧ lastAt? offers p = some o := by
  obtain ⟨o, ho⟩ := isSome_lastAt?.2 (mem_selectedPaths.1 hp).1
  exact ⟨o, (mem_selected_treeOf ht).2 ⟨hp, ho⟩, ho⟩

theorem selected_rising : (t.selected s).Pairwise fun a b => a.1 < b.1 :=
  (FileTree.files_rising (isRising_treeOf ht)).sublist List.filter_sublist

theorem nodup_selected : ((t.selected s).map (·.1)).Nodup := by
  unfold List.Nodup
  rw [List.pairwise_map]
  exact (selected_rising ht).imp fun h => ne_of_lt h

theorem toFinset_selected : ((t.selected s).map (·.1)).toFinset = selectedPaths s offers := by
  ext p
  rw [List.mem_toFinset, List.mem_map]
  constructor
  · rintro ⟨e, he, rfl⟩
    exact ((mem_selected_treeOf ht).1 he).1
  · intro hp
    obtain ⟨o, ho, -⟩ := exists_mem_selected ht hp
    exact ⟨(p, o), ho, rfl⟩

theorem length_selected : (t.selected s).length = (selectedPaths s offers).card := by
  rw [← toFinset_selected ht, List.toFinset_card_of_nodup (nodup_selected ht), List.length_map]

theorem sum_selected : ((t.selected s).map (·.2.size)).sum = ∑ p ∈ selectedPaths s offers, sizeAt offers p := by
  rw [← toFinset_selected ht, List.sum_toFinset _ (nodup_selected ht), List.map_map]
  refine congrArg List.sum (List.map_congr_left fun e he => ?_)
  rw [Function.comp_apply, sizeAt, ((mem_selected_treeOf ht).1 he).2]
  rfl

end Tree

end Archive
end Cognitive
