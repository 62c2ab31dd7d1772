import Cognitive.Disk
import Cognitive.Proofs.Batch.Clash
/-!
# The items below a folder

On a sound disk every path has one item and lies in folders that are there too (`Disk.IsSound`).  The items below a
folder are those whose paths go on from it (`Disk.mem_below`), in rising order (`Disk.below_rising`), and they make up a
tree of their own (`Disk.isTree_below`).
-/
namespace Cognitive

/-! ## The order of paths -/

namespace FilePath

variable {p q f : List String}

theorem lt_of_isAbove (h : IsAbove p q) : p < q := by
  obtain ⟨⟨rest, rfl⟩, hne⟩ := h
  have hrest : rest ≠ [] := fun hr => hne (by rw [hr, List.append_nil])
  obtain ⟨first, rest, rfl⟩ := List.exists_cons_of_ne_nil hrest
  clear hne hrest
  induction p with
  | nil => exact List.Lex.nil
  | cons n p ih => exact List.Lex.cons ih

/-- What stands between a folder and something in it lies in that folder too. -/
theorem prefix_of_lt_of_lt (h : f <+: q) (hf : f < p) (hp : p < q) : f <+: p := by
  induction f generalizing p q with
  | nil => exact List.nil_prefix
  | cons n f ih =>
    obtain ⟨rest, rfl⟩ := h
    cases hf with
    | rel hn =>
      cases hp with
      | rel hm => exact absurd hm (lt_asymm hn)
      | cons _ => exact absurd hn (lt_irrefl n)
    | cons hf =>
      cases hp with
      | rel hm => exact absurd hm (lt_irrefl n)
      | cons hp => exact List.cons_prefix_cons.2 ⟨rfl, ih (List.prefix_append f rest) hf hp⟩

theorem isAbove_append_left {front : List String} : IsAbove (front ++ p) (front ++ q) ↔ IsAbove p q := by
  unfold IsAbove
  rw [List.prefix_append_right_inj, ne_eq, List.append_cancel_left_eq]

end FilePath

theorem Path.isBefore_iff {a b : List String} : isBefore a b = true ↔ a < b := by
  rw [isBefore, List.lex_eq_true_iff_lex]
  simp only [decide_eq_true_eq]
  exact Iff.rfl

theorem Path.not_isBefore_iff {a b : List String} : (!isBefore b a) = true ↔ a ≤ b := by
  rw [Bool.not_eq_true', ← Bool.not_eq_true, isBefore_iff, not_lt]

namespace Disk

/-! ## Sound disks -/

/-- A name that an item can go by. -/
structure IsName (name : String) : Prop where
  nonempty : name ≠ ""
  notDot : name ≠ "."
  notUp : name ≠ ".."
  slash : '/' ∉ name.toList

instance (name : String) : Decidable (IsName name) :=
  decidable_of_iff (name ≠ "" ∧ name ≠ "." ∧ name ≠ ".." ∧ '/' ∉ name.toList)
    ⟨fun ⟨he, hd, hu, hs⟩ => ⟨he, hd, hu, hs⟩, fun h => ⟨h.nonempty, h.notDot, h.notUp, h.slash⟩⟩

/-- **Each item has a path of its own, of names, and lies in folders that are among the items.** -/
structure IsTree (items : List (DiskPath × DiskItem)) : Prop where
  nodup : (items.map Prod.fst).Nodup
  nonempty : ∀ e ∈ items, e.1 ≠ []
  named : ∀ e ∈ items, ∀ name ∈ e.1, IsName name
  nested : ∀ e ∈ items, ∀ folder, folder ≠ [] → FilePath.IsAbove folder e.1 → (folder, .folder) ∈ items

def IsSound (d : Disk) : Prop := IsTree d.items

variable {d : Disk} {folder : DiskPath}

/-- What the items below a folder are before they are sorted. -/
theorem below?_eq_some_iff {e below : DiskPath × DiskItem} :
    (if folder.isPrefixOf e.1 && e.1.length != folder.length then some (e.1.drop folder.length, e.2) else none) =
      some below ↔ below.1 ≠ [] ∧ e = (folder ++ below.1, below.2) := by
  rw [Option.ite_none_right_eq_some, Bool.and_eq_true, List.isPrefixOf_iff_prefix, bne_iff_ne, Option.some.injEq]
  constructor
  · rintro ⟨⟨⟨rest, hrest⟩, hlength⟩, rfl⟩
    have hne : rest ≠ [] := fun hr => hlength (by rw [← hrest, hr, List.append_nil])
    rw [← hrest, List.drop_left]
    exact ⟨hne, Prod.ext hrest.symm rfl⟩
  · rintro ⟨hne, rfl⟩
    have hlength : (folder ++ below.1).length ≠ folder.length := by simpa using hne
    exact ⟨⟨List.prefix_append folder below.1, hlength⟩, by rw [List.drop_left]⟩

theorem mem_below {e : DiskPath × DiskItem} : e ∈ d.below folder ↔ e.1 ≠ [] ∧ (folder ++ e.1, e.2) ∈ d.items := by
  unfold below
  rw [(List.mergeSort_perm _ _).mem_iff, List.mem_filterMap]
  constructor
  · rintro ⟨e', hm, h⟩
    obtain ⟨hne, rfl⟩ := below?_eq_some_iff.1 h
    exact ⟨hne, hm⟩
  · rintro ⟨hne, hm⟩
    exact ⟨_, hm, below?_eq_some_iff.2 ⟨hne, rfl⟩⟩

theorem below_nodup (hd : d.IsSound) : ((d.below folder).map Prod.fst).Nodup := by
  have hitems : d.items.Pairwise fun a b => a.1 ≠ b.1 := List.pairwise_map.1 hd.nodup
  unfold below
  refine ((List.mergeSort_perm _ _).map Prod.fst).nodup_iff.2 (List.pairwise_map.2 (List.pairwise_filterMap.2 ?_))
  refine hitems.imp fun hne e he e' he' heq => hne ?_
  rw [(below?_eq_some_iff.1 he).2, (below?_eq_some_iff.1 he').2, heq]

theorem below_rising (hd : d.IsSound) (folder : DiskPath) : (d.below folder).Pairwise fun a b => a.1 < b.1 := by
  have hsorted : (d.below folder).Pairwise fun a b => (!Path.isBefore b.1 a.1) = true := by
    refine List.pairwise_mergeSort (fun a b c hab hbc => ?_) (fun a b => ?_) _
    · rw [Path.not_isBefore_iff] at hab hbc ⊢
      exact le_trans hab hbc
    · rw [Bool.or_eq_true, Path.not_isBefore_iff, Path.not_isBefore_iff]
      exact le_total a.1 b.1
  have hdistinct : (d.below folder).Pairwise fun a b => a.1 ≠ b.1 := List.pairwise_map.1 (below_nodup hd)
  exact (hsorted.and hdistinct).imp fun h => lt_of_le_of_ne (Path.not_isBefore_iff.1 h.1) h.2

theorem isTree_below (hd : d.IsSound) : IsTree (d.below folder) where
  nodup := below_nodup hd
  nonempty e he := (mem_below.1 he).1
  named e he name hn := hd.named _ (mem_below.1 he).2 name (List.mem_append_right folder hn)
  nested e he inner hne habove := by
    refine mem_below.2 ⟨hne, hd.nested _ (mem_below.1 he).2 _ ?_ (FilePath.isAbove_append_left.2 habove)⟩
    simp [hne]

end Disk
end Cognitive
