import Cognitive.Metrics.Inventory
import Cognitive.Proofs.Outcome
import Cognitive.Proofs.Scoring.Sum
/-!
# What each function is scored for

Every function of a tree is scored on its own, and its walk leaves the functions inside it out.  Together the walks
apply the rules once to each site that lies in a function and is none itself, and the function it counts for is the
nearest one around it (`Tree.functions_share_sites`).  The inventory has a record for each function, in pre-order.
-/
namespace Cognitive
namespace Site

/-- The sites that the rules are applied to when a function is scored for its record, in order. -/
def scored (src : Source) (f : Site) : List Site :=
  ((Walk.start f f.baseNesting).entries src (some (f.displayName src))).map (·.1)

/-- **A function is scored for the sites it owns.** -/
theorem scored_eq_own (src : Source) (f : Site) (hf : f.node.isWalkable = true) : f.scored src = f.own := by
  rw [scored, (Walk.run_start src (some (f.displayName src)) f hf f.baseNesting).entries_eq, Walk.entries_done rfl,
    List.append_nil, visits_children, List.map_map]
  exact List.map_id' f.own

theorem own_nodup (f : Site) : f.own.Nodup := (below_nodup f).of_cons.filter _

def function? (v : Site) : Option Site := v.ancestors.find? fun a => a.node.isFunctionLike

/-- A function below which a site lies is the nearest one around it exactly when no function stands between. -/
theorem function?_eq_some_iff {f v : Site} (hf : f.node.isFunctionLike = true) (hv : v ∈ f.below) :
    v.function? = some f ↔ ∀ a ∈ f.between v, a.node.isFunctionLike = false := by
  rw [function?, ancestors_eq_between hv, List.find?_append]
  constructor
  · intro h a ha
    cases hx : (f.between v).find? fun a => a.node.isFunctionLike with
    | none => simpa using List.find?_eq_none.1 hx a ha
    | some b =>
      -- a function in between would be nearer, and it is not the one above
      rw [hx, Option.some_or, Option.some.injEq] at h
      exact absurd (congrArg address h) (address_ne_of_mem_between (List.mem_of_find?_eq_some hx))
  · intro h
    rw [List.find?_eq_none.2 fun a ha => by simp [h a ha]]
    simp [hf]

theorem mem_own_iff {f v : Site} (hf : f.node.isFunctionLike = true) :
    v ∈ f.own ↔ v ∈ f.below ∧ v.node.isFunctionLike = false ∧ v.function? = some f := by
  rw [own, List.mem_filter, owns, Bool.and_eq_true, List.all_eq_true]
  constructor
  · rintro ⟨hv, hn, hb⟩
    exact ⟨hv, by simpa using hn, (function?_eq_some_iff hf hv).2 fun a ha => by simpa using hb a ha⟩
  · rintro ⟨hv, hn, hs⟩
    have hb := (function?_eq_some_iff hf hv).1 hs
    exact ⟨hv, by simp [hn], fun a ha => by simp [hb a ha]⟩

theorem exists_record (src : Source) (f : Site) (hf : f.node.isWalkable = true) : ∃ r, f.record src = .ok r := by
  rw [record, score_eq_cost src f _ _ hf]
  exact ⟨_, rfl⟩

end Site

namespace Tree

def HasFunction (t : Tree) (f : Site) : Prop := t.Holds f ∧ f.node.isFunctionLike = true

/-- **The functions of a tree share out the sites in them**, and the inventory lists each function once. -/
structure IsSharedOut (t : Tree) : Prop where
  /-- No walk applies the rules to a site twice. -/
  once : ∀ f, t.HasFunction f → (f.scored t.source).Nodup
  /-- No site counts for two functions. -/
  apart : ∀ f g, t.HasFunction f → t.HasFunction g → f ≠ g → (f.scored t.source).Disjoint (g.scored t.source)
  /-- What counts for some function is what lies in one and is none itself. -/
  covered : ∀ v, (∃ f, t.HasFunction f ∧ v ∈ f.scored t.source) ↔
    t.Holds v ∧ v.node.isFunctionLike = false ∧ ∃ a ∈ v.ancestors, a.node.isFunctionLike = true
  /-- A site counts for the nearest function around it. -/
  nearest : ∀ f v, t.HasFunction f → v ∈ f.scored t.source → v.function? = some f
  /-- There is one record for each function, in pre-order. -/
  recorded : ∀ text path : String, ∃ functions m, functions.Pairwise Site.Precedes ∧
    (∀ f, f ∈ functions ↔ t.HasFunction f) ∧ t.metrics text path = .ok m ∧
    List.Forall₂ (fun f r => f.record t.source = .ok r) functions m.functions

theorem holds_below {t : Tree} {f v : Site} (hf : t.Holds f) (hv : v ∈ f.below) : t.Holds v := by
  obtain ⟨m, hm, hfm⟩ := hf
  exact ⟨m, hm, hfm.trans (Site.mem_below_iff.1 hv).to_reflTransGen⟩

section Walkable

variable {t : Tree} {n : Node} (hr : t.root = some n) (hn : n.isWalkable = true)
include hr

/-- The function around a site of a tree is of the tree, and the site lies below it. -/
theorem holds_of_function? {v f : Site} (hv : t.Holds v) (h : v.function? = some f) : t.Holds f ∧ v ∈ f.below := by
  have hmem := List.mem_of_find?_eq_some h
  rw [holds_iff hr, List.mem_cons] at hv ⊢
  obtain rfl | hv := hv
  · cases hmem
  · rw [Site.ancestors_eq_between hv, Site.ancestors_root, List.mem_append, List.mem_singleton] at hmem
    obtain hb | rfl := hmem
    · have hb := (Site.mem_between_iff hv).1 hb
      exact ⟨.inr hb.1, hb.2⟩
    · exact ⟨.inl rfl, hv⟩

include hn

theorem isWalkable_of_holds {s : Site} (h : t.Holds s) : s.node.isWalkable = true := by
  rw [holds_iff hr, List.mem_cons] at h
  obtain rfl | h := h
  · exact hn
  · exact Site.isWalkable_below hn h

/-- **A function is scored for the sites that are no functions and to which it is the nearest function.** -/
theorem mem_scored_iff {f v : Site} (hf : t.HasFunction f) :
    v ∈ f.scored t.source ↔ t.Holds v ∧ v.node.isFunctionLike = false ∧ v.function? = some f := by
  rw [Site.scored_eq_own _ _ (isWalkable_of_holds hr hn hf.1), Site.mem_own_iff hf.2]
  constructor
  · rintro ⟨hv, hvn, hs⟩
    exact ⟨holds_below hf.1 hv, hvn, hs⟩
  · rintro ⟨hv, hvn, hs⟩
    exact ⟨(holds_of_function? hr hv hs).2, hvn, hs⟩

theorem exists_mem_scored {v a : Site} (hv : t.Holds v) (hvn : v.node.isFunctionLike = false) (ha : a ∈ v.ancestors)
    (haf : a.node.isFunctionLike = true) : ∃ f, t.HasFunction f ∧ v ∈ f.scored t.source := by
  have hsome : v.function?.isSome = true := List.find?_isSome.2 ⟨a, ha, by simpa using haf⟩
  obtain ⟨f, hs⟩ := Option.isSome_iff_exists.1 hsome
  have hf : t.HasFunction f := ⟨(holds_of_function? hr hv hs).1, by simpa using List.find?_some hs⟩
  exact ⟨f, hf, (mem_scored_iff hr hn hf).2 ⟨hv, hvn, hs⟩⟩

/-- **There is one record for each function, in pre-order.** -/
theorem exists_records :
    ∃ functions records, functions.Pairwise Site.Precedes ∧ (∀ f, f ∈ functions ↔ t.HasFunction f) ∧
      t.records = .ok records ∧ List.Forall₂ (fun f r => f.record t.source = .ok r) functions records := by
  generalize hF : (Site.root n :: (Site.root n).below).filter (fun s => s.node.isFunctionLike) = functions
  have hmem : ∀ f, f ∈ functions ↔ t.HasFunction f := fun f => by
    rw [← hF, List.mem_filter, HasFunction, holds_iff hr]
  obtain ⟨records, h⟩ := Outcome.exists_mapM_eq_ok (f := Site.record t.source) fun f hf =>
    Site.exists_record _ f (isWalkable_of_holds hr hn ((hmem f).1 hf).1)
  have hrecords : t.records = .ok records := by
    rw [Tree.records, sites_eq hr hn, ← h, ← hF]
    rfl
  refine ⟨functions, records, ?_, hmem, hrecords, Outcome.mapM_eq_ok_iff.1 h⟩
  rw [← hF]
  exact (Site.below_sorted _).filter _

theorem exists_metrics (text path : String) :
    ∃ functions m, functions.Pairwise Site.Precedes ∧ (∀ f, f ∈ functions ↔ t.HasFunction f) ∧
      t.metrics text path = .ok m ∧ List.Forall₂ (fun f r => f.record t.source = .ok r) functions m.functions := by
  obtain ⟨functions, records, hsorted, hmem, hrecords, hall⟩ := exists_records hr hn
  exact ⟨functions, _, hsorted, hmem, by rw [metrics, Script.encode_ofString, hrecords]; rfl, hall⟩

end Walkable

/-- **The functions of a tree that can be walked share out the sites in them.** -/
theorem functions_share_sites (t : Tree) (n : Node) (hr : t.root = some n) (hn : n.isWalkable = true) :
    t.IsSharedOut where
  once f hf := by
    rw [Site.scored_eq_own _ _ (isWalkable_of_holds hr hn hf.1)]
    exact f.own_nodup
  apart f g hf hg hne v hvf hvg := by
    have hsf := ((mem_scored_iff hr hn hf).1 hvf).2.2
    have hsg := ((mem_scored_iff hr hn hg).1 hvg).2.2
    exact hne (Option.some.inj (hsf.symm.trans hsg))
  covered v := by
    constructor
    · rintro ⟨f, hf, hv⟩
      obtain ⟨hv, hvn, hs⟩ := (mem_scored_iff hr hn hf).1 hv
      exact ⟨hv, hvn, f, List.mem_of_find?_eq_some hs, hf.2⟩
    · rintro ⟨hv, hvn, a, ha, haf⟩
      exact exists_mem_scored hr hn hv hvn ha haf
  nearest f v hf hv := ((mem_scored_iff hr hn hf).1 hv).2.2
  recorded := exists_metrics hr hn

theorem functions_share_sites_summand :
    Site.summand.isWalkable = true ∧ IsSharedOut ⟨.ofString "f", some Site.summand⟩ :=
  ⟨by decide, functions_share_sites _ Site.summand rfl (by decide)⟩

end Tree
end Cognitive
