import Cognitive.Proofs.Scoring.Records
import Cognitive.Proofs.Scoring.Shares
/-!
# Trees that cannot be walked

A tree has metrics unless it has no root or a node of it cannot be asked for its children, wherever that node stands; a
source that cannot be encoded breaks off before the tree is looked at (`Tree.metrics_unwalkable`).  It does not matter
when the functions are scored: scoring each as soon as the walk meets it, so before what lies in it has been walked
through, fails on the same trees and with the same fault as walking first (`Tree.collected_eq_records`), because a walk
and a score stop at nothing but children that cannot be asked for.
-/
namespace Cognitive

/-! ## What stops a score -/

section Score

variable {src : Source} {name : Option String} {fault : TreeFault}

theorem Walk.eq_noChildren_of_step {w : Walk} {rest : List Work} {t : Work}
    (h : w.step src name rest t = .error fault) : fault = .noChildren := by
  cases t with
  | close levels => cases h
  | enter s =>
    simp only [step] at h
    split at h
    · cases h
    · split at h
      · cases h
      · cases h
        rfl

theorem Walk.eq_noChildren_of_finish {w : Walk} (h : w.finish src name = .error fault) : fault = .noChildren := by
  fun_induction Walk.finish src name w with
  | case1 => cases h
  | case2 w t rest hw fault' hs =>
    cases h
    exact eq_noChildren_of_step hs
  | case3 w t rest hw w' hs ih => exact ih h

/-- **A function is not scored only where children cannot be asked for.** -/
theorem Site.eq_noChildren_of_record {s : Site} (h : s.record src = .error fault) : fault = .noChildren := by
  rcases Outcome.bind_eq_error_iff.1 h with hscore | ⟨points, -, h⟩
  · unfold score at hscore
    split at hscore
    · exact Walk.eq_noChildren_of_finish (Outcome.map_eq_error_iff.1 hscore)
    · cases hscore
      rfl
  · cases h

end Score

/-! ## Scoring on the way -/

namespace Site

variable (src : Source)

/-- The records so far, the last one first, and that of a site if it is a function. -/
def addRecord (done : List FunctionRecord) (s : Site) : Except TreeFault (List FunctionRecord) :=
  if s.node.isFunctionLike then (s.record src).map (· :: done) else .ok done

/-- The records of the functions at or below some pending sites, each made as soon as the function is met, after those
already made, which are held in reverse. -/
def collectFrom (done : List FunctionRecord) : List Site → Except TreeFault (List FunctionRecord)
  | [] => .ok done.reverse
  | s :: rest =>
    match s.addRecord src done with
    | .error fault => .error fault
    | .ok done =>
      if s.node.label.childrenKnown then collectFrom done (s.children ++ rest) else .error .noChildren
termination_by pending => totalSize pending
decreasing_by
  have := totalSize_children s rest
  omega

/-- The records that can be made of the functions at or below a site. -/
def recordsAt (s : Site) : List FunctionRecord := s.functions.filterMap fun f => (f.record src).toOption

theorem recordsAt_eq (s : Site) : s.recordsAt src =
    (if s.node.isFunctionLike then (s.record src).toOption.toList else []) ++ s.children.flatMap (recordsAt src) := by
  rw [recordsAt, functions_eq, List.filterMap_append, List.filterMap_flatMap]
  congr 1
  split
  · rw [List.filterMap_cons]
    cases (s.record src).toOption <;> rfl
  · rfl

theorem addRecord_of_walkable {s : Site} (hs : s.node.isWalkable = true) (done : List FunctionRecord) :
    s.addRecord src done =
      .ok ((if s.node.isFunctionLike then (s.record src).toOption.toList else []).reverse ++ done) := by
  obtain ⟨r, hr⟩ := exists_record src s hs
  unfold addRecord
  rw [hr]
  split <;> rfl

theorem collectFrom_enter (s : Site) (hs : s.node.isWalkable = true) (done : List FunctionRecord) (rest : List Site) :
    collectFrom src done (s :: rest) = collectFrom src ((s.recordsAt src).reverse ++ done) rest := by
  induction s using children_induction generalizing done rest with
  | step s ih =>
    have all : ∀ done rest, collectFrom src done (s.children ++ rest) =
        collectFrom src ((s.children.flatMap (recordsAt src)).reverse ++ done) rest :=
      run_append fun c hc => ih c hc (isWalkable_child hs hc)
    rw [collectFrom, addRecord_of_walkable src hs]
    simp only [((Node.isWalkable_iff s.node).1 hs).1, if_true]
    rw [all, recordsAt_eq, List.reverse_append, List.append_assoc]

/-- **What cannot be walked through stops the walk**, whether at a score or at the children. -/
theorem collectFrom_fault (s : Site) (hs : s.node.isWalkable = false) (done : List FunctionRecord) (rest : List Site) :
    collectFrom src done (s :: rest) = .error .noChildren := by
  induction s using children_induction generalizing done rest with
  | step s ih =>
    rw [collectFrom]
    cases hadd : s.addRecord src done with
    | error fault =>
      have hrecord : s.record src = .error fault := by
        unfold addRecord at hadd
        split at hadd
        · exact Outcome.map_eq_error_iff.1 hadd
        · cases hadd
      -- the function here is scored before the walk comes to the hole below it
      rw [eq_noChildren_of_record hrecord]
    | ok done' =>
      simp only
      split
      · next hk =>
        exact run_append_fault (fun c _ hc a rest => ⟨_, collectFrom_enter src c hc a rest⟩) ih
          (exists_child_not_walkable hs hk) _ _
      · rfl

theorem mapM_record {sites : List Site} (h : ∀ f ∈ sites, f.node.isWalkable = true) :
    sites.mapM (record src) = .ok (sites.filterMap fun f => (f.record src).toOption) := by
  rw [Outcome.mapM_eq_ok_iff]
  induction sites with
  | nil => exact .nil
  | cons f sites ih =>
    obtain ⟨r, hr⟩ := exists_record src f (h f List.mem_cons_self)
    rw [List.filterMap_cons, hr]
    exact .cons hr (ih fun g hg => h g (List.mem_cons_of_mem f hg))

end Site

namespace Tree

/-- The records of a tree, each made as soon as the walk meets its function. -/
def collected (t : Tree) : Except TreeFault (List FunctionRecord) :=
  match t.root with
  | none => .error (.noRoot "is_named")
  | some n => Site.collectFrom t.source [] [.root n]

/-- **Scoring on the way gives what scoring after the walk gives**, whether that is records or a fault. -/
theorem collected_eq_records (t : Tree) : t.collected = t.records := by
  obtain ⟨src, root⟩ := t
  cases root with
  | none => rfl
  | some n =>
    rw [collected]
    cases hn : n.isWalkable with
    | true =>
      have hall : ∀ f ∈ (Site.root n).functions, f.node.isWalkable = true := fun f hf =>
        Site.isWalkable_of_mem_functions hn hf
      rw [records_eq hn, Site.mapM_record src hall]
      simp only
      rw [Site.collectFrom_enter src (.root n) hn, Site.collectFrom, List.append_nil, List.reverse_reverse]
      rfl
    | false =>
      rw [records_eq_error hn]
      exact Site.collectFrom_fault src (.root n) hn [] []

/-! ## Which trees cannot be walked -/

/-- **A tree with a hole**: it has no root, or a node of it, at any depth, cannot be asked for its children. -/
inductive IsUnwalkable (t : Tree) : Prop where
  | rootless (h : t.root = none)
  | childless {s : Site} (h : t.Holds s) (hk : s.node.label.childrenKnown = false)

theorem exists_childless {s : Site} (hs : s.node.isWalkable = false) :
    ∃ v ∈ s :: s.below, v.node.label.childrenKnown = false := by
  induction s using Site.children_induction with
  | step s ih =>
    cases hk : s.node.label.childrenKnown with
    | false => exact ⟨s, List.mem_cons_self, hk⟩
    | true =>
      obtain ⟨c, hc, hcw⟩ := Site.exists_child_not_walkable hs hk
      obtain ⟨v, hv, hvk⟩ := ih c hc hcw
      exact ⟨v, List.mem_cons_of_mem s (Site.mem_below.2 ⟨c, hc, List.mem_cons.1 hv⟩), hvk⟩

theorem isUnwalkable_iff {t : Tree} {n : Node} (hr : t.root = some n) : t.IsUnwalkable ↔ n.isWalkable = false := by
  constructor
  · intro h
    cases h with
    | rootless h =>
      rw [hr] at h
      cases h
    | @childless s h hk =>
      rw [← Bool.not_eq_true]
      intro hn
      have hs := (Node.isWalkable_iff s.node).1 (isWalkable_of_holds hr hn h)
      rw [hs.1] at hk
      cases hk
  · intro hn
    obtain ⟨v, hv, hk⟩ := exists_childless (s := .root n) hn
    exact .childless ((holds_iff hr).2 hv) hk

theorem records_cases (t : Tree) :
    (t.IsUnwalkable ∧ ∃ fault, t.records = .error fault) ∨
      ¬ t.IsUnwalkable ∧ ∃ n, t.root = some n ∧ n.isWalkable = true := by
  obtain ⟨src, root⟩ := t
  cases root with
  | none => exact .inl ⟨.rootless rfl, _, rfl⟩
  | some n =>
    cases hn : n.isWalkable with
    | false => exact .inl ⟨(isUnwalkable_iff rfl).2 hn, _, records_eq_error hn⟩
    | true =>
      refine .inr ⟨fun h => ?_, n, rfl, hn⟩
      rw [isUnwalkable_iff rfl, hn] at h
      cases h

end Tree
end Cognitive
