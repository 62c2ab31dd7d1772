import Cognitive.Proofs.Settings.Selects
/-!
# Settings of the declared kinds

Settings may hold data values of any kind, and a test of a name breaks off when it meets one that it is not for.  Where
every setting has the kind it is declared with, no test of a name breaks off (`exists_isSource`, `exists_isPassedOver`).
-/
namespace Cognitive

namespace Value

def IsText (v : Value) : Prop := ∃ text, v = .str text

def IsTexts (v : Value) : Prop := ∃ texts, v = Setting.texts texts

/-- A whole number; a truth value counts as one. -/
def IsWhole (v : Value) : Prop := ∃ n, v.quantity? = some (.whole n)

def IsNumber (v : Value) : Prop := ∃ q, v.quantity? = some q

end Value

namespace Settings

/-- Every setting has the kind that it is declared with. -/
structure IsTyped (s : Settings) : Prop where
  sourceExtensions : (s .sourceExtensions).IsTexts
  ignoredDirs : (s .ignoredDirs).IsTexts
  ignoredDirPrefixes : (s .ignoredDirPrefixes).IsTexts
  maxArchiveMb : (s .maxArchiveMb).IsNumber
  maxFiles : (s .maxFiles).IsWhole
  workers : s .workers = .null ∨ (s .workers).IsWhole
  host : (s .host).IsText
  port : (s .port).IsWhole
  corsOrigins : (s .corsOrigins).IsTexts
  verbosity : ∃ word ∈ verbosities, s .verbosity = .str word
  logFile : s .logFile = .null ∨ (s .logFile).IsText

theorem isTyped_fallback : fallback.IsTyped where
  sourceExtensions := ⟨_, rfl⟩
  ignoredDirs := ⟨_, rfl⟩
  ignoredDirPrefixes := ⟨_, rfl⟩
  maxArchiveMb := ⟨_, rfl⟩
  maxFiles := ⟨_, rfl⟩
  workers := .inl rfl
  host := ⟨_, rfl⟩
  port := ⟨_, rfl⟩
  corsOrigins := ⟨_, rfl⟩
  verbosity := ⟨"normal", by simp [verbosities], rfl⟩
  logFile := .inl rfl

variable {s : Settings}

theorem exists_anyText (test : String → Bool) (notText : String → Breakdown) :
    ∀ texts : List String, ∃ b, anyText test notText (texts.map Value.str) = .ok b
  | [] => ⟨false, rfl⟩
  | text :: rest => by
    rw [List.map_cons, anyText]
    split
    · exact ⟨true, rfl⟩
    · exact exists_anyText test notText rest

theorem exists_isSource (hs : s.IsTyped) (name : String) : ∃ b, s.isSource name = .ok b := by
  obtain ⟨texts, ht⟩ := hs.sourceExtensions
  obtain ⟨b, hb⟩ := exists_anyText (fun e => e.toList.isSuffixOf name.toList) .endNotText texts
  refine ⟨b, Outcome.bind_eq_ok_iff.2 ⟨texts.map .str, ?_, hb⟩⟩
  rw [ht]
  rfl

theorem exists_isIgnored (hs : s.IsTyped) (name : String) : ∃ b, s.isIgnored name = .ok b := by
  obtain ⟨held, hh⟩ : ∃ b, holds (s .ignoredDirs) name = .ok b := by
    obtain ⟨texts, ht⟩ := hs.ignoredDirs
    rw [ht]
    exact ⟨_, rfl⟩
  obtain ⟨texts, ht⟩ := hs.ignoredDirPrefixes
  obtain ⟨b, hb⟩ := exists_anyText (fun p => p.toList.isPrefixOf name.toList) .startNotText texts
  have hitems : (s .ignoredDirPrefixes).items = .ok (texts.map .str) := by
    rw [ht]
    rfl
  refine ⟨held || b, Outcome.bind_eq_ok_iff.2 ⟨held, hh, ?_⟩⟩
  cases held with
  | true => rfl
  | false =>
    rw [Bool.false_or]
    exact Outcome.bind_eq_ok_iff.2 ⟨_, hitems, hb⟩

theorem exists_isPassedOver (hs : s.IsTyped) (name : String) : ∃ b, FileTree.isPassedOver s name = .ok b := by
  unfold FileTree.isPassedOver
  split
  · exact ⟨true, rfl⟩
  · exact exists_isIgnored hs name

end Settings
end Cognitive
