import Cognitive.Proofs.Batch.Naming
import Cognitive.Proofs.Grammar.Parse
/-!
# Each file on its own

What comes of a file does not hang on the batch that it is in.  A batch changes one thing of a file, its name, which is
made relative to the root that all files share; and of the name only the last piece selects the language, which neither
cleaning nor leaving the root out touches (`EntryName.detect?_relativeTo`).  So the results of a batch are those of its
files one by one, in their order, unless the source of one cannot be encoded: then there are none
(`Grammars.analyze_isolated`).
-/
namespace Cognitive

/-! ## The last piece of a name -/

namespace EntryName

theorem getLast?_split_dropWhile (text : List Char) :
    (Text.split '/' (text.dropWhile (· == '/'))).getLast? = (Text.split '/' text).getLast? := by
  induction text with
  | nil => rfl
  | cons c cs ih =>
    by_cases hc : c = '/'
    · subst hc
      have hlast := Text.getLast?_split_append '/' [] cs
      rw [List.nil_append] at hlast
      rw [List.dropWhile_cons_of_pos (by decide), ih, hlast]
    · rw [List.dropWhile_cons_of_neg (by simpa using hc)]

theorem getLast?_split_dropDots (text : List Char) :
    (Text.split '/' (dropDots text)).getLast? = (Text.split '/' text).getLast? := by
  fun_induction dropDots text with
  | case1 inner ih =>
    rw [ih, getLast?_split_dropWhile, ← Text.getLast?_split_append '/' ['.'] inner, List.singleton_append]
  | case2 => rfl

def lastPiece (name : String) : String := (pieces name).getLast?.getD ""

/-- The name ends in a name of a file: its last piece is neither empty nor a single dot. -/
def HasLeaf (name : String) : Prop := lastPiece name ≠ "" ∧ lastPiece name ≠ "."

theorem getLast?_pieces (name : String) : (pieces name).getLast? = some (lastPiece name) := by
  have hne : pieces name ≠ [] := Text.splitString_ne_nil (clean name)
  rw [lastPiece, List.getLast?_eq_some_getLast hne, Option.getD_some]

/-- A name relative to a root is the clean name or what follows a slash in it. -/
theorem relativeTo_cases (root : Option String) (name : String) :
    (relativeTo root name).toList = cleanChars name.toList ∨
      ∃ front, cleanChars name.toList = front ++ '/' :: (relativeTo root name).toList := by
  cases root with
  | none => exact .inl String.toList_ofList
  | some r =>
    simp only [relativeTo]
    split
    · next h =>
      rw [Bool.and_eq_true, List.isPrefixOf_iff_prefix] at h
      obtain ⟨rest, hrest⟩ := h.2
      refine .inr ⟨r.toList, ?_⟩
      rw [String.toList_ofList, ← hrest, List.drop_left, List.append_assoc, List.singleton_append]
    · exact .inl String.toList_ofList

/-- **A name relative to a root ends in the piece that the name ends in.** -/
theorem getLast?_split_relativeTo (root : Option String) (name : String) :
    (Text.split '/' (relativeTo root name).toList).getLast? = (Text.split '/' (cleanChars name.toList)).getLast? := by
  rcases relativeTo_cases root name with h | ⟨front, h⟩
  · rw [h]
  · rw [h, Text.getLast?_split_append]

theorem backslash_not_mem_relativeTo (root : Option String) (name : String) :
    '\\' ∉ (relativeTo root name).toList := by
  intro hm
  refine backslash_not_mem_cleanChars name.toList ?_
  rcases relativeTo_cases root name with h | ⟨front, h⟩
  · rwa [← h]
  · rw [h]
    exact List.mem_append_right _ (List.mem_cons_of_mem _ hm)

theorem name_withSlashes {path : String} {last : List Char}
    (h : (Text.split '/' (path.toList.map slashFor)).getLast? = some last)
    (hv : Path.isVoid (String.ofList last) = false) :
    Path.name (Language.withSlashes path) = String.ofList last := by
  have hpieces : (Text.splitString '/' (Language.withSlashes path)).getLast? = some (String.ofList last) := by
    have hslash : (Language.withSlashes path).toList = path.toList.map slashFor := String.toList_ofList
    rw [Text.splitString, hslash, List.getLast?_map, h]
    rfl
  obtain ⟨front, hfront⟩ := List.getLast?_eq_some_iff.1 hpieces
  rw [Path.name, Path.segments, hfront, List.filter_append, List.filter_cons_of_pos (by rw [hv]; rfl), List.filter_nil]
  simp

/-- **The language of a file is the same, whatever root its name is relative to.** -/
theorem detect?_relativeTo (root : Option String) {name : String} (h : HasLeaf name) :
    Language.detect? (relativeTo root name) = Language.detect? name := by
  have hclean : (Text.split '/' (name.toList.map slashFor)).getLast? =
      (Text.split '/' (cleanChars name.toList)).getLast? := (getLast?_split_dropDots _).symm
  have hpieces := getLast?_pieces name
  rw [pieces, Text.splitString, toList_clean, List.getLast?_map, Option.map_eq_some_iff] at hpieces
  obtain ⟨last, hlast, hname⟩ := hpieces
  have hv : Path.isVoid (String.ofList last) = false := by
    rw [hname, Path.isVoid, Bool.or_eq_false_iff, beq_eq_false_iff_ne, beq_eq_false_iff_ne]
    exact h
  have hrelative : (Text.split '/' ((relativeTo root name).toList.map slashFor)).getLast? = some last := by
    rw [map_slashFor (backslash_not_mem_relativeTo root name), getLast?_split_relativeTo, hlast]
  rw [Language.detect?, Language.detect?, Path.suffix, Path.suffix, name_withSlashes hrelative hv,
    name_withSlashes (hclean.trans hlast) hv]

end EntryName

/-! ## Sources that cannot be encoded -/

/-- The tear of the first source that is torn. -/
def IsFirstTear (entries : List Entry) (tear : Tear) : Prop :=
  ∃ before e after, entries = before ++ e :: after ∧ (∀ b ∈ before, b.text.tear? = none) ∧ e.text.tear? = some tear

theorem isFirstTear_or_forall (entries : List Entry) :
    (∃ tear, IsFirstTear entries tear) ∨ ∀ e ∈ entries, e.text.tear? = none := by
  cases hfind : entries.find? fun e => e.text.tear?.isSome with
  | none => exact .inr fun e he => by simpa using List.find?_eq_none.1 hfind e he
  | some e =>
    obtain ⟨hsome, before, after, hsplit, hbefore⟩ := List.find?_eq_some_iff_append.1 hfind
    obtain ⟨tear, htear⟩ := Option.isSome_iff_exists.1 hsome
    exact .inl ⟨tear, before, e, after, hsplit, fun b hb => by simpa using hbefore b hb, htear⟩

theorem not_isFirstTear {entries : List Entry} (h : ∀ e ∈ entries, e.text.tear? = none) (tear : Tear) :
    ¬ IsFirstTear entries tear := by
  rintro ⟨before, e, after, rfl, -, he⟩
  rw [h e List.mem_append_cons_self] at he
  cases he

/-- The file under its name relative to a root. -/
def Entry.under (root : Option String) (e : Entry) : Entry := ⟨EntryName.relativeTo root e.name, e.text⟩

/-! ## Results -/

namespace Grammars

variable {g : Grammars}

/-- **A result says what measuring the file alone says**: the same metrics, or the same error in the same language,
which names the file as the result does. -/
inductive Agrees (g : Grammars) (e : Entry) (r : FileResult) : Prop where
  | measured {m : FileMetrics} (alone : g.measure e.name e.text = .ok m) (here : r.verdict = .measured m)
  | failed {language reason : String} (alone : g.measure e.name e.text = refuse (.parsing e.name language reason))
      (here : r.verdict = .failed (Refusal.parsing r.fileName language reason).text)

/-- **A result that owes nothing to the batch but the root in its name.** -/
structure IsIsolated (g : Grammars) (root : Option String) (e : Entry) (r : FileResult) : Prop where
  fileName : r.fileName = EntryName.relativeTo root e.name
  language : EntryName.HasLeaf e.name → Language.detect? r.fileName = Language.detect? e.name
  tree : EntryName.HasLeaf e.name → ∀ t, g.parseFile e.text r.fileName = .ok t ↔ g.parseFile e.text e.name = .ok t
  verdict : EntryName.HasLeaf e.name → g.Agrees e r

theorem result_of_measured {e : Entry} {m : FileMetrics} (h : g.measure e.name e.text = .ok m) :
    g.result e = .ok ⟨e.name, .measured m⟩ := by
  unfold result
  rw [h]

theorem result_of_parsing {e : Entry} {language reason : String}
    (h : g.measure e.name e.text = refuse (.parsing e.name language reason)) :
    g.result e = .ok ⟨e.name, .failed (Refusal.parsing e.name language reason).text⟩ := by
  unfold result
  rw [h]
  simp only [refuse]
  rfl

theorem analyze_eq (workers : Option Nat) {entries : List Entry} {names : Option (List String)}
    {root : Option String} (hroot : EntryName.commonRoot (names.getD (entries.map Entry.name)) = root) :
    g.analyze workers entries names =
      (entries.map (Entry.under root)).mapM g.result >>= fun results => .ok ⟨root, results⟩ := by
  subst hroot
  rw [analyze, outcomes_eq, allOrFirst_map]
  rfl

theorem result_of_torn {e : Entry} {tear : Tear} (h : e.text.encode = breakDown (.unencodable tear)) :
    g.result e = breakDown (.unencodable tear) := by
  simp only [result, measure_of_torn h, breakDown]

section Whole

variable (hg : g.AreWhole)
include hg

/-- **Every file has a result of its own, but for one whose source cannot be encoded.** -/
theorem result_cases (e : Entry) :
    (∃ tear, e.text.tear? = some tear ∧ g.result e = breakDown (.unencodable tear)) ∨
      e.text.tear? = none ∧ ∃ r, g.result e = .ok r := by
  obtain ⟨name, source⟩ := e
  rcases source.encode_cases with ⟨tear, htear, hencode⟩ | ⟨text, rfl⟩
  · exact .inl ⟨tear, htear, result_of_torn hencode⟩
  · refine .inr ⟨Script.tear?_ofString text, ?_⟩
    rcases measure_cases hg (Language.detect? name) text with ⟨m, h⟩ | ⟨language, reason, h⟩
    · exact ⟨_, result_of_measured (h name rfl)⟩
    · exact ⟨_, result_of_parsing (h name rfl)⟩

theorem exists_result {e : Entry} (he : e.text.tear? = none) : ∃ r, g.result e = .ok r := by
  rcases result_cases hg e with ⟨tear, htear, -⟩ | ⟨-, h⟩
  · rw [he] at htear
    cases htear
  · exact h

theorem result_eq_error_iff {e : Entry} {f : Failure} :
    g.result e = .error f ↔ ∃ tear, e.text.tear? = some tear ∧ f = .broke (.unencodable tear) := by
  rcases result_cases hg e with ⟨tear, htear, h⟩ | ⟨hwhole, r, h⟩
  · rw [h, htear]
    constructor
    · rintro ⟨⟩
      exact ⟨tear, rfl, rfl⟩
    · rintro ⟨tear', ⟨⟩, rfl⟩
      rfl
  · rw [h, hwhole]
    simp

theorem parseFile_eq_ok_iff {name path : String} (hd : Language.detect? name = Language.detect? path)
    (source : Script) (t : Tree) : g.parseFile source name = .ok t ↔ g.parseFile source path = .ok t := by
  rcases source.encode_cases with ⟨tear, -, hencode⟩ | ⟨text, rfl⟩
  · rw [parseFile_of_torn hencode, parseFile_of_torn hencode]
  · rw [parseFile_ofString, parseFile_ofString]
    generalize hpath : Language.detect? path = d at hd
    rcases parseText_cases hg d text with ⟨t', n, -, -, h⟩ | ⟨language, reason, h⟩
    · rw [h name hd, h path hpath]
    · have hrefused : ∀ path, Language.detect? path = d → g.parseText text path ≠ .ok t := fun path hd => by
        rw [h path hd]
        nofun
      exact iff_of_false (hrefused name hd) (hrefused path hpath)

/-- A file that is renamed within its language keeps what is said of it. -/
theorem agrees_of_detect? {e : Entry} {name : String} {r : FileResult}
    (hd : Language.detect? name = Language.detect? e.name) (h : g.result ⟨name, e.text⟩ = .ok r) : g.Agrees e r := by
  obtain ⟨path, source⟩ := e
  rcases source.encode_cases with ⟨tear, -, hencode⟩ | ⟨text, rfl⟩
  · rw [result_of_torn (e := ⟨name, source⟩) hencode] at h
    cases h
  · rcases measure_cases hg (Language.detect? path) text with ⟨m, hm⟩ | ⟨language, reason, hm⟩
    · rw [result_of_measured (e := ⟨name, text⟩) (hm name hd)] at h
      cases h
      exact .measured (hm path rfl) rfl
    · rw [result_of_parsing (e := ⟨name, text⟩) (hm name hd)] at h
      cases h
      exact .failed (hm path rfl) rfl

theorem isIsolated_of_result {root : Option String} {e : Entry} {r : FileResult}
    (h : g.result ⟨EntryName.relativeTo root e.name, e.text⟩ = .ok r) : g.IsIsolated root e r := by
  have hname : r.fileName = EntryName.relativeTo root e.name := fileName_result h
  have hlanguage : EntryName.HasLeaf e.name → Language.detect? r.fileName = Language.detect? e.name := by
    rw [hname]
    exact EntryName.detect?_relativeTo root
  exact {
    fileName := hname
    language := hlanguage
    tree := fun hleaf t => parseFile_eq_ok_iff hg (hlanguage hleaf) e.text t
    verdict := fun hleaf => agrees_of_detect? hg (EntryName.detect?_relativeTo root hleaf) h }

/-- **A batch of sources that can be encoded has a summary.** -/
theorem exists_analyze (workers : Option Nat) {entries : List Entry} (names : Option (List String))
    (hwhole : ∀ e ∈ entries, e.text.tear? = none) :
    ∃ root results, root = EntryName.commonRoot (names.getD (entries.map Entry.name)) ∧
      g.analyze workers entries names = .ok ⟨root, results⟩ ∧
      List.Forall₂ (fun e r => g.result ⟨EntryName.relativeTo root e.name, e.text⟩ = .ok r) entries results := by
  generalize hroot : EntryName.commonRoot (names.getD (entries.map Entry.name)) = root
  obtain ⟨results, hresults⟩ := Outcome.exists_mapM_eq_ok (l := entries.map (Entry.under root)) fun e he => by
    obtain ⟨e', he', rfl⟩ := List.mem_map.1 he
    exact exists_result hg (hwhole e' he')
  refine ⟨root, results, rfl, ?_, by rwa [Outcome.mapM_eq_ok_iff, List.forall₂_map_left_iff] at hresults⟩
  rw [analyze_eq workers hroot, hresults]
  rfl

/-- **A batch breaks off at the first source that cannot be encoded**, whatever the others come to. -/
theorem analyze_of_torn (workers : Option Nat) {entries : List Entry} (names : Option (List String)) {tear : Tear}
    (h : IsFirstTear entries tear) : g.analyze workers entries names = breakDown (.unencodable tear) := by
  obtain ⟨before, e, after, rfl, hbefore, he⟩ := h
  generalize hroot : EntryName.commonRoot (names.getD ((before ++ e :: after).map Entry.name)) = root
  rw [analyze_eq workers hroot]
  refine Outcome.bind_eq_error_iff.2 (.inl (Outcome.mapM_eq_error_iff.2
    ⟨before.map (Entry.under root), e.under root, after.map (Entry.under root), ?_, fun b hb => ?_, ?_⟩))
  · rw [List.map_append, List.map_cons]
  · obtain ⟨b', hb', rfl⟩ := List.mem_map.1 hb
    exact exists_result hg (hbefore b' hb')
  · exact (result_eq_error_iff hg).2 ⟨tear, he, rfl⟩

end Whole

/-- Half a pair in the second file leaves nothing of the first. -/
example : blank.analyze none [⟨"a.js", "1"⟩, ⟨"b.js", ⟨[.half 0]⟩⟩] none = breakDown (.unencodable ⟨0, 0, 0⟩) := by
  decide +kernel

/-- Parsers that find an error in every text of one language and nothing in any other. -/
def without (bad : Language) : Grammars :=
  ⟨fun l text => ⟨.ofString text,
    some (.mk ⟨"program", true, false, l == bad, 0, 0, none, true, true, true, true⟩ [])⟩⟩

/-- A file in a language that is not read and one that is, both in one folder. -/
def twoFiles : List Entry := [⟨".//p\\a.ts", "1"⟩, ⟨"p/b.js", "2"⟩]

end Grammars
end Cognitive
