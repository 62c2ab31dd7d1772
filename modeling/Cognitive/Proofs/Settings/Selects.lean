import Cognitive.Proofs.Outcome
import Cognitive.Batch.FileTree
import Mathlib
/-!
# What the settings say of a path

The tests of names are given by what the settings hold: a source file ends in some text among the extensions, and a
folder is passed over when it is noise, held by the ignored folders, or starts with some text among the prefixes.  The
settings may hold values of any kind: a test that gives an answer at all gives this one (`isSource_eq_ok`,
`isPassedOver_eq_ok`).
-/
namespace Cognitive

/-- A value holds a name: a text as a part, a list as an item, a table as a key. -/
def Value.Holds (name : String) : Value → Prop
  | .str text => name.toList <:+: text.toList
  | .list items => .str name ∈ items
  | .table entries => name ∈ entries.map (·.1)
  | _ => False

namespace Settings

variable {s : Settings} {name : String} {b : Bool}

/-- The name ends in an extension of source files. -/
def EndsInExtension (s : Settings) (name : String) : Prop :=
  ∃ items, (s .sourceExtensions).items = .ok items ∧ ∃ e, .str e ∈ items ∧ e.toList <:+ name.toList

/-- The name is that of an ignored folder or starts with an ignored beginning. -/
def IgnoresFolder (s : Settings) (name : String) : Prop :=
  (s .ignoredDirs).Holds name ∨
    ∃ items, (s .ignoredDirPrefixes).items = .ok items ∧ ∃ e, .str e ∈ items ∧ e.toList <+: name.toList

/-- **The paths that the settings select**: a file whose name ends in an extension of source files, in folders none of
which is noise or ignored. -/
def Selects (s : Settings) (path : List String) : Prop :=
  ∃ folders leaf, path = folders ++ [leaf] ∧ s.EndsInExtension leaf ∧
    ∀ f ∈ folders, f ≠ "__MACOSX" ∧ ¬ s.IgnoresFolder f

/-! ## The tests of names -/

theorem anyText_eq_ok {test : String → Bool} {notText : String → Breakdown} :
    ∀ {items : List Value}, anyText test notText items = .ok b → (b = true ↔ ∃ e, .str e ∈ items ∧ test e = true)
  | [], h => by
    cases h
    simp
  | .str e :: rest, h => by
    rw [anyText] at h
    split at h
    · next he =>
      cases h
      exact iff_of_true rfl ⟨e, List.mem_cons_self, he⟩
    · next he =>
      rw [anyText_eq_ok h]
      constructor
      · rintro ⟨e', hm, ht⟩
        exact ⟨e', List.mem_cons_of_mem _ hm, ht⟩
      · rintro ⟨e', hm, ht⟩
        rcases List.mem_cons.1 hm with hm | hm
        · cases hm
          exact absurd ht he
        · exact ⟨e', hm, ht⟩
  | .null :: _, h | .bool _ :: _, h | .int _ :: _, h | .float _ :: _, h | .moment _ :: _, h | .list _ :: _, h
  | .table _ :: _, h => by
    cases h

theorem isSource_eq_ok (h : s.isSource name = .ok b) : b = true ↔ s.EndsInExtension name := by
  obtain ⟨items, hi, h⟩ := Outcome.bind_eq_ok_iff.1 h
  rw [anyText_eq_ok h, EndsInExtension]
  simp [hi]

theorem occursIn_iff {part text : List Char} : occursIn part text = true ↔ part <:+: text := by
  induction text with
  | nil => simp [occursIn]
  | cons c rest ih => simp [occursIn, ih, List.infix_cons_iff]

theorem holds_eq_ok {v : Value} (h : holds v name = .ok b) : b = true ↔ v.Holds name := by
  cases v with
  | str text =>
    cases h
    exact occursIn_iff
  | list items =>
    cases h
    simp only [List.any_eq_true, Value.Holds, beq_iff_eq]
    constructor
    · rintro ⟨i, hi, hs⟩
      cases i <;> simp_all [Value.str?]
    · intro hm
      exact ⟨_, hm, rfl⟩
  | table entries =>
    cases h
    simp [Value.Holds]
  | null | bool | int | float | moment => cases h

theorem isIgnored_eq_ok (h : s.isIgnored name = .ok b) : b = true ↔ s.IgnoresFolder name := by
  obtain ⟨held, hh, h⟩ := Outcome.bind_eq_ok_iff.1 h
  have hheld := holds_eq_ok hh
  split at h
  · next ht =>
    cases h
    exact iff_of_true rfl (.inl (hheld.1 ht))
  · next hf =>
    obtain ⟨items, hi, h⟩ := Outcome.bind_eq_ok_iff.1 h
    rw [anyText_eq_ok h, IgnoresFolder, ← hheld]
    simp [hi, hf]

theorem isPassedOver_eq_ok (h : FileTree.isPassedOver s name = .ok b) :
    b = true ↔ name = "__MACOSX" ∨ s.IgnoresFolder name := by
  rw [FileTree.isPassedOver] at h
  split at h
  · next hn =>
    cases h
    exact iff_of_true rfl (.inl (by simpa [EntryName.noiseFolders] using hn))
  · next hn =>
    have hname : name ≠ "__MACOSX" := by simpa [EntryName.noiseFolders] using hn
    rw [isIgnored_eq_ok h, or_iff_right hname]

/-! ## Selected paths, name by name -/

theorem selects_append {folders : List String} :
    s.Selects (folders ++ [name]) ↔
      s.EndsInExtension name ∧ ∀ f ∈ folders, f ≠ "__MACOSX" ∧ ¬ s.IgnoresFolder f := by
  constructor
  · rintro ⟨folders', leaf, h, hs⟩
    obtain ⟨rfl, hl⟩ := List.append_inj' h rfl
    cases hl
    exact hs
  · intro hs
    exact ⟨folders, name, rfl, hs⟩

theorem selects_singleton : s.Selects [name] ↔ s.EndsInExtension name := by
  have h := @selects_append s name []
  simpa using h

theorem selects_cons {rest : List String} (hr : rest ≠ []) :
    s.Selects (name :: rest) ↔ (name ≠ "__MACOSX" ∧ ¬ s.IgnoresFolder name) ∧ s.Selects rest := by
  obtain ⟨folders, leaf, rfl⟩ := (List.eq_nil_or_concat' rest).resolve_left hr
  rw [← List.cons_append, selects_append, selects_append, List.forall_mem_cons]
  exact and_left_comm

end Settings
end Cognitive
