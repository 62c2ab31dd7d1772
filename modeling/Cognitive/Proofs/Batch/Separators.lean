import Cognitive.Proofs.Batch.EntryName
/-!
# Separators in names

A backslash counts as a slash in what a name is cleaned to, so the first piece of a name is the same with slashes for
its backslashes (`EntryName.top_withSlashes`), and so is whether it lies at the top.  That a name is a folder's is read
off the name as it stands: it ends in a slash, and a backslash there does not count.  So with slashes for backslashes
the root is that of the names which do not end in a backslash (`EntryName.commonRoot_withSlashes`).
-/
namespace Cognitive
namespace EntryName

open Cognitive.Language (withSlashes)

theorem toList_withSlashes (name : String) : (withSlashes name).toList = name.toList.map slashFor :=
  String.toList_ofList

theorem slashFor_slashFor (c : Char) : slashFor (slashFor c) = slashFor c := by
  by_cases h : c = '\\' <;> simp [slashFor, h]

theorem slashFor_eq_slash_iff {c : Char} : slashFor c = '/' ↔ c = '/' ∨ c = '\\' := by
  by_cases h : c = '\\' <;> simp [slashFor, h]

theorem cleanChars_map_slashFor (text : List Char) : cleanChars (text.map slashFor) = cleanChars text := by
  rw [cleanChars, List.map_map]
  congr 1
  exact List.map_congr_left fun c _ => slashFor_slashFor c

theorem top_withSlashes (name : String) : top (withSlashes name) = top name := by
  rw [top, toList_withSlashes, cleanChars_map_slashFor, top]

theorem isAtTop_withSlashes (name : String) : isAtTop (withSlashes name) = isAtTop name := by
  rw [isAtTop, toList_withSlashes, cleanChars_map_slashFor, isAtTop]

/-! ## The root -/

/-- The name is a folder's once it has slashes for backslashes, and is not taken for one as it stands. -/
def endsInBackslash (name : String) : Bool := name.toList.getLast? == some '\\'

/-- With slashes, a name that ends in a backslash says nothing about the root any more. -/
theorem isIgnoredForRoot_withSlashes (name : String) :
    isIgnoredForRoot (withSlashes name) = (endsInBackslash name || isIgnoredForRoot name) := by
  have hempty : (withSlashes name).isEmpty = name.isEmpty := by
    rw [Bool.eq_iff_iff, String.isEmpty_iff, String.isEmpty_iff, ← String.toList_eq_nil_iff, toList_withSlashes,
      List.map_eq_nil_iff, String.toList_eq_nil_iff]
  have hlast : ((withSlashes name).toList.getLast? == some '/') =
      (endsInBackslash name || name.toList.getLast? == some '/') := by
    rw [toList_withSlashes, List.getLast?_map, endsInBackslash]
    cases name.toList.getLast? with
    | none => rfl
    | some c =>
      rw [Bool.eq_iff_iff]
      simp [slashFor_eq_slash_iff, or_comm]
  rw [isIgnoredForRoot, isIgnoredForRoot, hempty, hlast, top_withSlashes]
  cases endsInBackslash name <;> simp

/-- Of the names that count, only their first pieces and whether they lie at the top tell. -/
theorem commonRoot_congr {names names' : List String}
    (htop : (names.filter fun n => !isIgnoredForRoot n).map top = (names'.filter fun n => !isIgnoredForRoot n).map top)
    (hat : (names.filter fun n => !isIgnoredForRoot n).map isAtTop =
      (names'.filter fun n => !isIgnoredForRoot n).map isAtTop) :
    commonRoot names = commonRoot names' := by
  have hany : ∀ files : List String, files.any isAtTop = (files.map isAtTop).any id := fun files => by
    rw [List.any_map, Function.id_comp]
  unfold commonRoot
  simp only [hany, hat, htop]

/-- **With slashes for backslashes the root is that of the names that do not end in a backslash.**  So it is the same
root, whichever separators are used, where no name that counts ends in one. -/
theorem commonRoot_withSlashes (names : List String) :
    commonRoot (names.map withSlashes) = commonRoot (names.filter fun n => !endsInBackslash n) ∧
      ((∀ n ∈ names, isIgnoredForRoot n = false → endsInBackslash n = false) →
        commonRoot (names.map withSlashes) = commonRoot names) := by
  have hdropped : commonRoot (names.map withSlashes) = commonRoot (names.filter fun n => !endsInBackslash n) := by
    have hfiles : (names.map withSlashes).filter (fun n => !isIgnoredForRoot n) =
        ((names.filter fun n => !endsInBackslash n).filter fun n => !isIgnoredForRoot n).map withSlashes := by
      rw [List.filter_map, List.filter_filter]
      congr 2
      funext n
      rw [Function.comp_apply, isIgnoredForRoot_withSlashes, Bool.not_or, Bool.and_comm]
    refine commonRoot_congr ?_ ?_
    · rw [hfiles, List.map_map]
      exact List.map_congr_left fun n _ => top_withSlashes n
    · rw [hfiles, List.map_map]
      exact List.map_congr_left fun n _ => isAtTop_withSlashes n
  refine ⟨hdropped, fun h => hdropped.trans ?_⟩
  have hsame : (names.filter fun n => !endsInBackslash n).filter (fun n => !isIgnoredForRoot n) =
      names.filter fun n => !isIgnoredForRoot n := by
    rw [List.filter_filter]
    refine List.filter_congr fun n hn => ?_
    cases hi : isIgnoredForRoot n with
    | true => rfl
    | false => simp [h n hn hi]
  exact commonRoot_congr (by rw [hsame]) (by rw [hsame])

/-- Names with both separators, among them a folder's, an empty one and noise. -/
def mixedNames : List String := [".\\p\\a.js", "p/", "", "__MACOSX\\p\\", "p\\q/b.js"]

theorem commonRoot_withSlashes_mixedNames :
    (∀ n ∈ mixedNames, isIgnoredForRoot n = false → endsInBackslash n = false) ∧
      commonRoot (mixedNames.map withSlashes) = some "p" ∧ commonRoot mixedNames = some "p" := by
  have h : ∀ n ∈ mixedNames, isIgnoredForRoot n = false → endsInBackslash n = false := by decide +kernel
  have hp : commonRoot mixedNames = some "p" := by decide +kernel
  exact ⟨h, ((commonRoot_withSlashes mixedNames).2 h).trans hp, hp⟩

/-- A folder whose name ends in a backslash is taken for a file of a second folder. -/
example : commonRoot ["p/a.js", "q\\"] = none ∧ commonRoot (["p/a.js", "q\\"].map withSlashes) = some "p" := by
  decide +kernel

end EntryName
end Cognitive
