import Cognitive.Proofs.Scoring.Records
import Cognitive.Proofs.Scoring.Shares
import Cognitive.Proofs.Tree.Placed
/-!
# Line figures

The total of a file counts the pieces of its text, the lines of a function are counted on a text that is read back from
bytes and may start and stop within a line, and first and last lines are counted on bytes.  For a tree that is placed in
its text these figures agree (`Tree.linesAgree_of_placed`).
-/
namespace Cognitive

namespace FunctionRecord

/-- The first and the last line of a record, where both are known. -/
def Spans (r : FunctionRecord) (first last : Int) : Prop := r.startLine = some first ∧ r.endLine = some last

/-- The record spans some lines of a file, and no more of its lines hold something than it spans, or than there are such
lines in the file. -/
def FitsIn (r : FunctionRecord) (total nonBlank : Int) : Prop :=
  ∃ first last, r.Spans first last ∧ 1 ≤ first ∧ first ≤ last ∧ last ≤ total ∧ r.lines ≤ last - first + 1 ∧
    r.lines ≤ nonBlank

def StartsBy (r r' : FunctionRecord) : Prop :=
  ∃ first first', r.startLine = some first ∧ r'.startLine = some first' ∧ first ≤ first'

/-- The lines that the second record spans are among those of the first. -/
def Encloses (r r' : FunctionRecord) : Prop :=
  ∃ first last first' last', r.Spans first last ∧ r'.Spans first' last' ∧ first ≤ first' ∧ last' ≤ last

end FunctionRecord

namespace Site

variable {text : String}

/-! ## One record -/

section Record

variable {f g : Site} {r r' : FunctionRecord}

/-- The line of an offset, counted from one. -/
def lineAt (text : String) (offset : Nat) : Int := ((Source.ofString text).point offset).row + 1

theorem one_le_lineAt (text : String) (offset : Nat) : 1 ≤ lineAt text offset := by
  unfold lineAt
  omega

theorem lineAt_le_total (text : String) (offset : Nat) : lineAt text offset ≤ (Text.LineCount.of text).total := by
  have hrow := Source.row_point_lt text offset
  unfold lineAt
  omega

theorem lineAt_mono (text : String) {a b : Nat} (h : a ≤ b) : lineAt text a ≤ lineAt text b := by
  have hrow := Source.row_point_mono (.ofString text) h
  unfold lineAt
  omega

theorem spans_of_record (hf : f.node.IsPlaced text) (hr : f.record (.ofString text) = .ok r) :
    r.Spans (lineAt text f.node.label.start) (lineAt text f.node.label.stop) := by
  obtain ⟨c, -, hr⟩ := Outcome.bind_eq_ok_iff.1 hr
  cases hr
  simp [FunctionRecord.Spans, Node.startPoint?, Node.stopPoint?, hf.startKnown, hf.stopKnown, lineOf, lineAt]

theorem lines_le_of_record (hf : f.node.IsPlaced text) (hr : f.record (.ofString text) = .ok r) :
    r.lines ≤ lineAt text f.node.label.stop - lineAt text f.node.label.start + 1 ∧
      r.lines ≤ (Text.LineCount.of text).nonBlank := by
  have hlines : r.lines =
      (Text.LineCount.of ((Source.ofString text).text f.node.label.start f.node.label.stop)).nonBlank := by
    obtain ⟨c, -, hr⟩ := Outcome.bind_eq_ok_iff.1 hr
    cases hr
    rfl
  obtain ⟨hspan, hfile⟩ := Source.nonBlank_text_le hf.start hf.stop hf.start_le_stop
  unfold lineAt
  omega

/-- **The record of a placed function fits in its text.** -/
theorem fitsIn_of_record (hf : f.node.IsPlaced text) (hr : f.record (.ofString text) = .ok r) :
    r.FitsIn (Text.LineCount.of text).total (Text.LineCount.of text).nonBlank := by
  obtain ⟨hspan, hfile⟩ := lines_le_of_record hf hr
  exact ⟨_, _, spans_of_record hf hr, one_le_lineAt text _, lineAt_mono text hf.start_le_stop, lineAt_le_total text _,
    hspan, hfile⟩

theorem startsBy_of_records (hf : f.node.IsPlaced text) (hg : g.node.IsPlaced text)
    (hr : f.record (.ofString text) = .ok r) (hr' : g.record (.ofString text) = .ok r')
    (hle : f.node.label.start ≤ g.node.label.start) : r.StartsBy r' :=
  ⟨_, _, (spans_of_record hf hr).1, (spans_of_record hg hr').1, lineAt_mono text hle⟩

theorem encloses_of_records (hf : f.node.IsPlaced text) (hg : g.node.IsPlaced text)
    (hr : f.record (.ofString text) = .ok r) (hr' : g.record (.ofString text) = .ok r') (hwithin : g.Within f) :
    r.Encloses r' :=
  ⟨_, _, _, _, spans_of_record hf hr, spans_of_record hg hr', lineAt_mono text hwithin.1, lineAt_mono text hwithin.2⟩

end Record

/-! ## The records of a file -/

section Records

variable {s : Site} {records : List FunctionRecord} (h : s.IsPlaced text)
  (hrecords : s.functions.mapM (record (.ofString text)) = .ok records)

include h hrecords

theorem records_fit : ∀ r ∈ records, r.FitsIn (Text.LineCount.of text).total (Text.LineCount.of text).nonBlank := by
  intro r hr
  obtain ⟨f, hf, hfr⟩ := (Outcome.mem_iff_of_mapM hrecords).1 hr
  exact fitsIn_of_record (h f (List.mem_filter.1 hf).1) hfr

theorem records_inOrder : records.Pairwise FunctionRecord.StartsBy := by
  have hstarts := (pairwise_start h).filter fun v => v.node.isFunctionLike
  refine Outcome.pairwise_of_mapM hrecords (hstarts.imp_of_mem ?_)
  intro f g hf hg hle r r' hr hr'
  exact startsBy_of_records (h f (List.mem_filter.1 hf).1) (h g (List.mem_filter.1 hg).1) hr hr' hle

theorem exists_records_nested {f g : Site} (hf : f ∈ s.functions) (hg : g ∈ s.functions) (hbelow : g ∈ f.below) :
    ∃ r ∈ records, ∃ r' ∈ records, f.record (.ofString text) = .ok r ∧ g.record (.ofString text) = .ok r' ∧
      r.Encloses r' := by
  obtain ⟨r, hr⟩ := Outcome.exists_eq_ok_of_mapM hrecords hf
  obtain ⟨r', hr'⟩ := Outcome.exists_eq_ok_of_mapM hrecords hg
  have hmem : r ∈ records := (Outcome.mem_iff_of_mapM hrecords).2 ⟨f, hf, hr⟩
  have hmem' : r' ∈ records := (Outcome.mem_iff_of_mapM hrecords).2 ⟨g, hg, hr'⟩
  have hfs := h.of_mem (List.mem_filter.1 hf).1
  exact ⟨r, hmem, r', hmem', hr, hr', encloses_of_records hfs.self (hfs.below hbelow).self hr hr'
    (within_of_below hfs hbelow)⟩

end Records
end Site

namespace Tree

variable {t : Tree} {text : String}

/-- **The line figures of a file agree.** -/
structure LinesAgree (t : Tree) (m : FileMetrics) : Prop where
  fits : ∀ r ∈ m.functions, r.FitsIn m.totalLines m.nonBlankLines
  inOrder : m.functions.Pairwise FunctionRecord.StartsBy
  nested : ∀ f g, t.HasFunction f → t.HasFunction g → g ∈ f.below → ∃ r ∈ m.functions, ∃ r' ∈ m.functions,
    f.record t.source = .ok r ∧ g.record t.source = .ok r' ∧ r.Encloses r'

/-- **The line figures agree for every tree that is placed in its text**, and there are such figures when it can be
walked. -/
theorem linesAgree_of_placed (h : t.IsPlaced text) (path : String) :
    ((∃ n, t.root = some n ∧ n.isWalkable = true) → ∃ m, t.metrics text path = .ok m) ∧
      ∀ m, t.metrics text path = .ok m → t.LinesAgree m := by
  refine ⟨?_, ?_⟩
  · rintro ⟨n, hr, hn⟩
    obtain ⟨-, m, -, -, hm, -⟩ := exists_metrics hr hn text path
    exact ⟨m, hm⟩
  · intro m hm
    obtain ⟨n, text', hr, -, hrecords, htext, htotal, hnonBlank⟩ := exists_of_metrics hm
    obtain rfl : text = text' := Except.ok.inj ((Script.encode_ofString text).symm.trans htext)
    rw [h.source] at hrecords
    have hroot := h.root hr
    have hmem : ∀ f, t.HasFunction f → f ∈ (Site.root n).functions := fun f hf =>
      List.mem_filter.2 ⟨(t.holds_iff hr).1 hf.1, hf.2⟩
    refine ⟨?_, Site.records_inOrder hroot hrecords, ?_⟩
    · rw [htotal, hnonBlank]
      exact Site.records_fit hroot hrecords
    · intro f g hf hg hbelow
      rw [h.source]
      exact Site.exists_records_nested hroot hrecords (hmem f hf) (hmem g hg) hbelow

/-! ## A function within another, after a character of two bytes -/

def positioned (type : String) (start stop : Nat) (children : List Node) : Node :=
  .mk { (Node.plain type none []).label with start := start, stop := stop } children

def nestedText : String := "const s = \"ß\";\nfunction f() \x7b\n\n  return () => s;\n\x7d\n"

def nestedRoot : Node :=
  positioned "program" 0 52
    [positioned "lexical_declaration" 0 15 [],
     positioned "function_declaration" 16 51
      [positioned "identifier" 25 26 [],
       positioned "statement_block" 29 51
        [positioned "return_statement" 34 49 [positioned "arrow_function" 41 48 []]]]]

def nestedTree : Tree := ⟨.ofString nestedText, some nestedRoot⟩

theorem isPlaced_nestedTree : nestedTree.IsPlaced nestedText := by
  refine ⟨rfl, fun s hs => ?_⟩
  have hall : ∀ s ∈ Site.root nestedRoot :: (Site.root nestedRoot).below, s.node.IsPlaced nestedText := by
    decide +kernel
  exact hall s ((holds_iff rfl).1 hs)

theorem linesAgree_of_placed_nestedTree :
    nestedTree.IsPlaced nestedText ∧ ∃ m, nestedTree.metrics nestedText "a.js" = .ok m ∧ nestedTree.LinesAgree m ∧
      m.functions.map (fun r => (r.startLine, r.endLine, r.lines)) = [(some 2, some 5, 3), (some 4, some 4, 1)] := by
  have h := isPlaced_nestedTree
  obtain ⟨hexists, hagree⟩ := linesAgree_of_placed h "a.js"
  obtain ⟨m, hm⟩ := hexists ⟨nestedRoot, rfl, by decide⟩
  have hfigures : (nestedTree.metrics nestedText "a.js").toOption.map
      (fun m => m.functions.map fun r => (r.startLine, r.endLine, r.lines)) =
        some [(some 2, some 5, 3), (some 4, some 4, 1)] := by decide +kernel
  rw [hm] at hfigures
  exact ⟨h, m, hm, hagree m hm, Option.some.inj hfigures⟩

end Tree
end Cognitive
