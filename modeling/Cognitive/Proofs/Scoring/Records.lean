import Cognitive.Metrics.Inventory
import Cognitive.Proofs.Outcome
import Cognitive.Proofs.Scoring.Lockstep
/-!
# Records, function by function

The records of a tree that can be walked are those of the functions at or below its root, in pre-order
(`Tree.records_eq`), and a tree that cannot has none (`Tree.records_eq_error`).
-/
namespace Cognitive

namespace Site

variable (src : Source)

theorem boundName?_eq_of_expressionParent (s : Site) :
    s.boundName? src = match s.up.find? fun n => !n.isParenthesized with
      | some p =>
        match p.kind with
        | .declarator => identifierText? src (p.child? "name")
        | .property => identifierText? src (p.child? "key")
        | _ => boundName?.methodKey? src s
      | none => boundName?.methodKey? src s := by
  rw [← map_node_beyondParentheses s.up s.address]
  rfl

/-- The functions at or below a site, in pre-order. -/
def functions (s : Site) : List Site := (s :: s.below).filter fun v => v.node.isFunctionLike

theorem functions_eq (s : Site) :
    s.functions = (if s.node.isFunctionLike then [s] else []) ++ s.children.flatMap functions := by
  rw [functions, List.filter_cons, below_eq, List.filter_flatMap]
  split <;> rfl

theorem isWalkable_of_mem_functions {s f : Site} (hs : s.node.isWalkable = true) (hf : f ∈ s.functions) :
    f.node.isWalkable = true := by
  rcases List.mem_cons.1 (List.mem_filter.1 hf).1 with rfl | hf
  · exact hs
  · exact isWalkable_below hs hf

end Site

namespace Tree

variable {src : Source}

theorem records_eq {n : Node} (hn : n.isWalkable = true) :
    records ⟨src, some n⟩ = (Site.root n).functions.mapM (Site.record src) := by
  rw [records, sites_eq rfl hn]
  rfl

theorem records_eq_error {n : Node} (hn : n.isWalkable = false) : records ⟨src, some n⟩ = .error .noChildren := by
  rw [records, sites_eq_error rfl hn]
  rfl

/-- What metrics are made of: the records of the functions of a tree that can be walked, and the line counts of the
encoded source. -/
theorem exists_of_metrics {t : Tree} {source : Script} {path : String} {m : FileMetrics}
    (h : t.metrics source path = .ok m) :
    ∃ n text, t.root = some n ∧ n.isWalkable = true ∧
      (Site.root n).functions.mapM (Site.record t.source) = .ok m.functions ∧ source.encode = .ok text ∧
      m.totalLines = (Text.LineCount.of text).total ∧ m.nonBlankLines = (Text.LineCount.of text).nonBlank := by
  obtain ⟨src, root⟩ := t
  obtain ⟨text, htext, h⟩ := Outcome.bind_eq_ok_iff.1 h
  split at h
  · next records hrecords =>
    cases h
    cases root with
    | none => cases hrecords
    | some n =>
      cases hn : n.isWalkable with
      | false =>
        rw [records_eq_error hn] at hrecords
        cases hrecords
      | true =>
        rw [records_eq hn] at hrecords
        exact ⟨n, text, rfl, hn, hrecords, htext, rfl, rfl⟩
  · cases h

end Tree
end Cognitive
