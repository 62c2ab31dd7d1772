import Cognitive.Batch.Analyze
import Cognitive.Grammar.Parse
import Cognitive.Proofs.Scoring.Shares
/-!
# What parsing comes to

When the parsers give whole trees, a text either parses or is refused with an error in it (`Grammars.parseText_cases`),
and a text that parses is measured (`Grammars.measure_cases`).  Of the path that the text goes by only the language
shows in this: paths with one language give one tree and one set of metrics, or one error that names each of them.  A
source that is torn is neither parsed nor measured (`Grammars.measure_of_torn`).
-/
namespace Cognitive

namespace Node

mutual
/-- The children and the position can be asked for, here and everywhere below. -/
def isWhole : Node → Bool
  | .mk l cs => l.childrenKnown && l.startKnown && areWhole cs

def areWhole : List Node → Bool
  | [] => true
  | n :: rest => n.isWhole && areWhole rest
end

theorem areWhole_eq_all : ∀ ns : List Node, areWhole ns = ns.all isWhole
  | [] => rfl
  | n :: rest => by rw [areWhole, areWhole_eq_all rest, List.all_cons]

theorem isWhole_iff (n : Node) : n.isWhole = true ↔
    n.label.childrenKnown = true ∧ n.label.startKnown = true ∧ ∀ c ∈ n.children, c.isWhole = true := by
  cases n with
  | mk l cs => simp [isWhole, label, children, areWhole_eq_all, and_assoc]

theorem isWalkable_of_isWhole {n : Node} (h : n.isWhole = true) : n.isWalkable = true := by
  induction n using children_induction with
  | step n ih =>
    obtain ⟨hknown, -, hchildren⟩ := (isWhole_iff n).1 h
    exact (isWalkable_iff n).2 ⟨hknown, fun c hc => ih c hc (hchildren c hc)⟩

/-- The search for the first error goes through whole nodes, and what it finds is whole. -/
theorem exists_firstErrorFrom (pending : List Node) (h : ∀ n ∈ pending, n.isWhole = true) :
    ∃ found, firstErrorFrom pending = .ok found ∧ ∀ n, found = some n → n.isWhole = true := by
  fun_induction firstErrorFrom pending with
  | case1 => exact ⟨none, rfl, by simp⟩
  | case2 n rest herror =>
    refine ⟨some n, rfl, fun m hm => ?_⟩
    cases hm
    exact h n List.mem_cons_self
  | case3 n rest _ _ _ ih =>
    refine ih fun c hc => ?_
    rcases List.mem_append.1 hc with hc | hc
    · exact ((isWhole_iff n).1 (h n List.mem_cons_self)).2.2 c hc
    · exact h c (List.mem_cons_of_mem n hc)
  | case4 n rest _ _ hunknown => exact absurd ((isWhole_iff n).1 (h n List.mem_cons_self)).1 hunknown
  | case5 n rest _ _ ih => exact ih fun c hc => h c (List.mem_cons_of_mem n hc)

/-- Of a whole tree it can be said what is wrong with the text. -/
theorem exists_fault (src : Source) {root : Node} (h : root.isWhole = true) : ∃ fault, root.fault src = .ok fault := by
  obtain ⟨found, hfound, hwhole⟩ := exists_firstErrorFrom [root] fun n hn => List.mem_singleton.1 hn ▸ h
  cases found with
  | none => exact ⟨.unlocated, by rw [fault, hfound]; rfl⟩
  | some n =>
    have hstart : n.label.startKnown = true := ((isWhole_iff n).1 (hwhole n rfl)).2.1
    have hpoint : n.startPoint? src = some (src.point n.label.start) := by rw [startPoint?, if_pos hstart]
    rw [fault, hfound]
    simp only [bind, Except.bind, hpoint]
    exact ⟨_, rfl⟩

end Node

namespace Grammars

variable {g : Grammars}

/-- **A torn source breaks off before it is parsed.** -/
theorem measure_of_torn {source : Script} {tear : Tear} (h : source.encode = breakDown (.unencodable tear))
    (path : String) : g.measure path source = breakDown (.unencodable tear) := by
  simp only [measure, parseFile_of_torn h, breakDown, bind, Except.bind]

/-- **The parsers give whole trees**, whatever the text; there may be errors in them. -/
def AreWhole (g : Grammars) : Prop := ∀ l text, ∃ n, (g.parse l text).root = some n ∧ n.isWhole = true

variable (hg : g.AreWhole)
include hg

theorem parseAs_cases (l : Language) (text : String) :
    (∃ n, (g.parse l text).root = some n ∧ n.isWalkable = true ∧ ∀ path, g.parseAs text path l = .ok (g.parse l text)) ∨
      ∃ reason, ∀ path, g.parseAs text path l = refuse (.parsing path l.name reason) := by
  obtain ⟨n, hroot, hwhole⟩ := hg l text
  cases herror : n.label.erroneous with
  | false =>
    refine .inl ⟨n, hroot, Node.isWalkable_of_isWhole hwhole, fun path => ?_⟩
    simp [parseAs, hroot, herror]
  | true =>
    obtain ⟨fault, hfault⟩ := Node.exists_fault (g.parse l text).source hwhole
    refine .inr ⟨fault.reason, fun path => ?_⟩
    simp [parseAs, hroot, herror, hfault]

/-- **A text parses in the language of its path, or in the superset, or it is refused**, and which of these hangs on the
language and the text alone. -/
theorem parseText_cases (d : Option Language) (text : String) :
    (∃ t n, t.root = some n ∧ n.isWalkable = true ∧ ∀ path, Language.detect? path = d → g.parseText text path = .ok t) ∨
      ∃ language reason, ∀ path, Language.detect? path = d →
        g.parseText text path = refuse (.parsing path language reason) := by
  have hrefused : ∀ path language reason,
      isParseFailure (refuse (.parsing path language reason) : Outcome Tree) = true := fun _ _ _ => rfl
  rcases parseAs_cases hg (d.getD Language.fallback) text with ⟨n, hroot, hwalk, hok⟩ | ⟨reason, hbad⟩
  · refine .inl ⟨_, n, hroot, hwalk, fun path hd => ?_⟩
    rw [parseText, hd]
    simp only [hok path]
    exact if_neg fun h => absurd h.2 (by simp [isParseFailure])
  · by_cases hl : d.getD Language.fallback = Language.fallback
    · rcases parseAs_cases hg Language.superset text with ⟨n, hroot, hwalk, hok⟩ | ⟨reason', hbad'⟩
      · refine .inl ⟨g.parse Language.superset text, n, hroot, hwalk, fun path hd => ?_⟩
        rw [parseText, hd]
        simp only [hbad path, hok path, hrefused]
        rw [if_pos ⟨hl, trivial⟩]
        rfl
      · -- both parses fail, and the first error stays
        refine .inr ⟨(d.getD Language.fallback).name, reason, fun path hd => ?_⟩
        rw [parseText, hd]
        simp only [hbad path, hbad' path, hrefused]
        rw [if_pos ⟨hl, trivial⟩]
        rfl
    · refine .inr ⟨(d.getD Language.fallback).name, reason, fun path hd => ?_⟩
      rw [parseText, hd]
      simp only [hbad path]
      rw [if_neg fun h => hl h.1]

/-- **A text is measured, or refused with an error in it**, and which of these, with the metrics and the error, hangs on
the language of its path and on the text alone. -/
theorem measure_cases (d : Option Language) (text : String) :
    (∃ m, ∀ path, Language.detect? path = d → g.measure path text = .ok m) ∨
      ∃ language reason, ∀ path, Language.detect? path = d →
        g.measure path text = refuse (.parsing path language reason) := by
  rcases parseText_cases hg d text with ⟨t, n, hroot, hwalk, hok⟩ | ⟨language, reason, hbad⟩
  · obtain ⟨-, records, -, -, hrecords, -⟩ := Tree.exists_records hroot hwalk
    generalize hcount : Text.LineCount.of text = count
    refine .inl ⟨⟨count.total, count.nonBlank, records⟩, fun path hd => ?_⟩
    rw [measure, parseFile_ofString, hok path hd]
    simp only [bind, Except.bind, Tree.metrics, Script.encode_ofString, hrecords, hcount]
    rfl
  · refine .inr ⟨language, reason, fun path hd => ?_⟩
    rw [measure, parseFile_ofString, hbad path hd]
    rfl

end Grammars
end Cognitive
