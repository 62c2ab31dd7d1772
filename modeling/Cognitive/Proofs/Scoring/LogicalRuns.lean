import Cognitive.Proofs.Scoring.Entered
import Cognitive.Proofs.Scoring.Shares
import Cognitive.Proofs.Tree.Parentheses
/-!
# Runs of one logical operator

Two logical expressions are linked when one is the parent of the other, parentheses looked through, and both use the
same operator (`Site.Continues`).  A run is what links hold together: a component of the graph of the logical
expressions that a function owns (`Site.runGraph`).  Each expression continues one other at most, and that one stands
higher up, so every run has one expression that continues none (`card_components_eq_card_ends`).  The walk charges just
those, and hence one point for each run (`Site.logical_points_eq_runs`).  A link never leads out of a function, because
the parentheses that it looks through end at the function at the latest.
-/
namespace Cognitive

/-! ## Components along a relation that leads upwards -/

section Upward

variable {V : Type} {R : V → V → Prop} (unique : Relator.RightUnique R) {rank : V → Nat}
  (upward : ∀ u v, R u v → rank v < rank u)

include unique in
/-- Whatever links hold together is led to one place by the relation. -/
theorem join_of_reachable {u v : V} (h : (SimpleGraph.fromRel R).Reachable u v) :
    Relation.Join (Relation.ReflTransGen R) u v := by
  rw [SimpleGraph.reachable_iff_reflTransGen] at h
  induction h with
  | refl => exact ⟨u, .refl, .refl⟩
  | @tail b c _ hbc ih =>
    obtain ⟨w, huw, hbw⟩ := ih
    rcases (SimpleGraph.fromRel_adj R b c).1 hbc with ⟨-, hR | hR⟩
    · -- the step from the one to the other is the only one from there
      rcases Relation.ReflTransGen.cases_head hbw with rfl | ⟨d, hbd, hdw⟩
      · exact ⟨c, huw.tail hR, .refl⟩
      · exact ⟨w, huw, unique hbd hR ▸ hdw⟩
    · exact ⟨w, huw, hbw.head hR⟩

/-- An end: a place that the relation does not lead on from. -/
abbrev End (R : V → V → Prop) : Type := {v : V // ∀ w, ¬ R v w}

theorem eq_of_reflTransGen_end {v w : V} (hv : ∀ w, ¬ R v w) (h : Relation.ReflTransGen R v w) : w = v := by
  rcases Relation.ReflTransGen.cases_head h with h | ⟨d, hvd, -⟩
  · exact h.symm
  · exact absurd hvd (hv d)

include upward in
theorem exists_reachable_end (v : V) : ∃ e : End R, (SimpleGraph.fromRel R).Reachable v e.1 := by
  induction hn : rank v using Nat.strong_induction_on generalizing v with
  | _ n ih =>
    by_cases h : ∃ w, R v w
    · obtain ⟨w, hw⟩ := h
      obtain ⟨e, he⟩ := ih (rank w) (hn ▸ upward v w hw) w rfl
      have hne : v ≠ w := fun heq => absurd (upward v w hw) (by rw [heq]; exact Nat.lt_irrefl _)
      have hadj : (SimpleGraph.fromRel R).Adj v w := (SimpleGraph.fromRel_adj R v w).2 ⟨hne, .inl hw⟩
      exact ⟨e, hadj.reachable.trans he⟩
    · exact ⟨⟨v, fun w hw => h ⟨w, hw⟩⟩, .rfl⟩

include unique upward in
/-- **There are as many components as ends**, where each place is led on to one other at most, higher up. -/
theorem card_components_eq_card_ends :
    Nat.card (SimpleGraph.fromRel R).ConnectedComponent = Nat.card (End R) := by
  refine (Nat.card_congr (Equiv.ofBijective (fun e : End R => (SimpleGraph.fromRel R).connectedComponentMk e.1)
    ⟨fun a b h => ?_, fun c => ?_⟩)).symm
  · obtain ⟨w, ha, hb⟩ := join_of_reachable unique (SimpleGraph.ConnectedComponent.exact h)
    exact Subtype.ext ((eq_of_reflTransGen_end a.2 ha).symm.trans (eq_of_reflTransGen_end b.2 hb))
  · induction c using SimpleGraph.ConnectedComponent.ind with
    | _ v =>
      obtain ⟨e, he⟩ := exists_reachable_end upward v
      exact ⟨e, SimpleGraph.ConnectedComponent.sound he.symm⟩

end Upward

theorem card_mem_of_nodup {α : Type} {l : List α} (h : l.Nodup) : Nat.card {a // a ∈ l} = l.length := by
  classical
  rw [← Nat.card_congr (h.getEquiv l), Nat.card_fin]

namespace Site

/-! ## The parent of an expression -/

theorem beyondParentheses_eq_find? : ∀ (up : List Node) (address : List Nat),
    beyondParentheses up address = (ancestorsFrom up address).find? fun a => !a.node.isParenthesized
  | [], _ => rfl
  | n :: rest, address => by
    rw [beyondParentheses, ancestorsFrom, List.find?_cons]
    cases n.isParenthesized
    · rfl
    · exact beyondParentheses_eq_find? rest address.tail

theorem expressionParent?_eq (v : Site) : v.expressionParent? = v.ancestors.find? fun a => !a.node.isParenthesized :=
  beyondParentheses_eq_find? v.up v.address

theorem length_up_of_mem_ancestorsFrom : ∀ {up : List Node} {address : List Nat} {a : Site},
    a ∈ ancestorsFrom up address → a.up.length < up.length
  | _ :: rest, _, a, h => by
    rcases List.mem_cons.1 h with rfl | h
    · exact Nat.lt_succ_self _
    · exact (length_up_of_mem_ancestorsFrom h).trans (Nat.lt_succ_self _)

/-- The second is the parent of the first, parentheses looked through, and uses the same operator. -/
def Continues (u v : Site) : Prop :=
  u.expressionParent? = some v ∧ u.node.logicalOperator? = v.node.logicalOperator?

theorem continuesRun_iff {u : Site} :
    u.continuesRun = true ↔ ∃ v, u.Continues v ∧ v.node.kind = .logical := by
  unfold continuesRun Continues
  cases u.expressionParent? with
  | none => simp
  | some p =>
    simp only [Bool.and_eq_true, beq_iff_eq, Option.some.injEq]
    constructor
    · rintro ⟨hk, hop⟩
      exact ⟨p, ⟨rfl, hop.symm⟩, hk⟩
    · rintro ⟨v, ⟨rfl, hop⟩, hk⟩
      exact ⟨hk, hop.symm⟩

/-! ## Links and the functions around them -/

variable {f u v : Site}

theorem not_isParenthesized_of_isFunctionLike (hf : f.node.isFunctionLike = true) :
    f.node.isParenthesized = false := by
  by_contra h
  rw [Bool.not_eq_false] at h
  rw [Node.isFunctionLike_of_isParenthesized h] at hf
  cases hf

/-- A logical expression is no function. -/
theorem ne_of_logical (hf : f.node.isFunctionLike = true) (hv : v.node.kind = .logical) : v ≠ f := by
  rintro rfl
  rw [Node.isFunctionLike_of_kind hv rfl] at hf
  cases hf

theorem mem_own_iff_between (hv : v ∈ f.below) :
    v ∈ f.own ↔ v.node.isFunctionLike = false ∧ ∀ a ∈ f.between v, a.node.isFunctionLike = false := by
  rw [own, List.mem_filter, owns, Bool.and_eq_true, List.all_eq_true]
  simp [hv]

/-- Who owns a site owns what stands between. -/
theorem mem_own_of_between (hv : v ∈ f.own) (hu : u ∈ f.between v) : u ∈ f.own := by
  have hvf := (List.mem_filter.1 hv).1
  obtain ⟨huf, hvu⟩ := (mem_between_iff hvf).1 hu
  have hb := ((mem_own_iff_between hvf).1 hv).2
  rw [between_split huf hvu] at hb
  exact (mem_own_iff_between huf).2 ⟨hb u (by simp), fun a ha => hb a (by simp [ha])⟩

/-- **The parent of an expression that a function owns is one that it owns, or is the function.** -/
theorem expressionParent_of_mem_own (hf : f.node.isFunctionLike = true) (hu : u ∈ f.own)
    (h : u.expressionParent? = some v) : v ∈ f.own ∨ v = f := by
  rw [expressionParent?_eq, ancestors_eq_between (List.mem_filter.1 hu).1, List.find?_append] at h
  cases hb : (f.between u).find? fun a => !a.node.isParenthesized with
  | some a =>
    rw [hb, Option.some_or, Option.some.injEq] at h
    exact .inl (h ▸ mem_own_of_between hu (List.mem_of_find?_eq_some hb))
  | none =>
    -- the way up does not go on beyond the function, which is no pair of parentheses
    rw [hb, Option.none_or, List.find?_cons, not_isParenthesized_of_isFunctionLike hf] at h
    exact .inr (Option.some.inj h).symm

/-- **An expression belongs to the function that its parent belongs to**, unless it is a function. -/
theorem mem_own_of_expressionParent (hv : v ∈ f.own) (hu : u ∈ v.below) (huf : u.node.isFunctionLike = false)
    (h : u.expressionParent? = some v) : u ∈ f.own := by
  have hvf := (List.mem_filter.1 hv).1
  obtain ⟨hvn, hvb⟩ := (mem_own_iff_between hvf).1 hv
  have hparens : ∀ a ∈ v.between u, a.node.isParenthesized = true := by
    rw [expressionParent?_eq, ancestors_eq_between hu, List.find?_append] at h
    cases hb : (v.between u).find? fun a => !a.node.isParenthesized with
    | none => exact fun a ha => by simpa using List.find?_eq_none.1 hb a ha
    | some a =>
      rw [hb, Option.some_or, Option.some.injEq] at h
      exact absurd (congrArg address h) (address_ne_of_mem_between (List.mem_of_find?_eq_some hb))
  refine (mem_own_iff_between (mem_below_trans hvf hu)).2 ⟨huf, fun a ha => ?_⟩
  rw [between_split hvf hu, List.mem_append, List.mem_cons] at ha
  rcases ha with ha | rfl | ha
  · exact Node.isFunctionLike_of_isParenthesized (hparens a ha)
  · exact hvn
  · exact hvb a ha

/-- A site of a tree lies below each of its ancestors. -/
theorem mem_below_of_mem_ancestors {t : Tree} (hv : t.Holds v) (ha : u ∈ v.ancestors) : v ∈ u.below := by
  obtain ⟨n, hr, -⟩ := id hv
  rw [Tree.holds_iff hr, List.mem_cons] at hv
  rcases hv with rfl | hv
  · cases ha
  · rw [ancestors_eq_between hv, ancestors_root, List.mem_append, List.mem_singleton] at ha
    rcases ha with ha | rfl
    · exact ((mem_between_iff hv).1 ha).2
    · exact hv

/-- **A link does not lead across the boundary of a function.** -/
theorem mem_own_iff_of_continues {t : Tree} (hf : f.node.isFunctionLike = true) (ht : t.Holds u)
    (hu : u.node.kind = .logical) (hv : v.node.kind = .logical) (h : u.Continues v) : u ∈ f.own ↔ v ∈ f.own := by
  constructor
  · intro hown
    exact (expressionParent_of_mem_own hf hown h.1).resolve_right (ne_of_logical hf hv)
  · intro hown
    have hmem : v ∈ u.ancestors := List.mem_of_find?_eq_some ((expressionParent?_eq u).symm.trans h.1)
    exact mem_own_of_expressionParent hown (mem_below_of_mem_ancestors ht hmem) (Node.isFunctionLike_of_kind hu rfl)
      h.1

/-! ## Runs -/

/-- The logical expressions that a site owns. -/
abbrev Expression (f : Site) : Type := {v : Site // v ∈ f.own ∧ v.node.kind = .logical}

/-- The links among the logical expressions that a site owns.  Its connected components are the runs. -/
def runGraph (f : Site) : SimpleGraph f.Expression := SimpleGraph.fromRel fun u v => u.1.Continues v.1

def runHeads (f : Site) : List Site := f.own.filter fun v => v.node.kind == .logical && !v.continuesRun

theorem runHeads_nodup (f : Site) : f.runHeads.Nodup := f.own_nodup.filter _

theorem mem_runHeads : v ∈ f.runHeads ↔ (v ∈ f.own ∧ v.node.kind = .logical) ∧ v.continuesRun = false := by
  simp [runHeads, and_assoc]

/-- An expression that continues some run continues one among those that the function owns. -/
theorem continuesRun_iff_of_expression (hf : f.node.isFunctionLike = true) (u : f.Expression) :
    u.1.continuesRun = true ↔ ∃ v : f.Expression, u.1.Continues v.1 := by
  rw [continuesRun_iff]
  constructor
  · rintro ⟨v, h, hv⟩
    exact ⟨⟨v, (expressionParent_of_mem_own hf u.2.1 h.1).resolve_right (ne_of_logical hf hv), hv⟩, h⟩
  · rintro ⟨v, h⟩
    exact ⟨v.1, h, v.2.2⟩

/-- **There are as many runs as expressions that continue none.** -/
theorem card_runs (hf : f.node.isFunctionLike = true) :
    Nat.card f.runGraph.ConnectedComponent = f.runHeads.length := by
  have unique : Relator.RightUnique fun u v : f.Expression => u.1.Continues v.1 := fun u v w hv hw =>
    Subtype.ext (Option.some.inj (hv.1.symm.trans hw.1))
  have upward : ∀ u v : f.Expression, u.1.Continues v.1 → v.1.up.length < u.1.up.length := fun u v h =>
    length_up_of_mem_ancestorsFrom (List.mem_of_find?_eq_some ((expressionParent?_eq u.1).symm.trans h.1))
  have heads : End (fun u v : f.Expression => u.1.Continues v.1) ≃ {v // v ∈ f.runHeads} :=
    { toFun := fun e => ⟨e.1.1, mem_runHeads.2 ⟨e.1.2, by
        rw [← Bool.not_eq_true, continuesRun_iff_of_expression hf e.1]
        exact fun ⟨w, hw⟩ => e.2 w hw⟩⟩
      invFun := fun v => ⟨⟨v.1, (mem_runHeads.1 v.2).1⟩, fun w hw => by
        have := (continuesRun_iff_of_expression hf ⟨v.1, (mem_runHeads.1 v.2).1⟩).2 ⟨w, hw⟩
        rw [(mem_runHeads.1 v.2).2] at this
        cases this⟩
      left_inv := fun e => rfl
      right_inv := fun v => rfl }
  rw [runGraph, card_components_eq_card_ends unique upward, Nat.card_congr heads,
    card_mem_of_nodup f.runHeads_nodup]

end Site

/-- The points that a walk adds for the nodes of some kind. -/
def Walk.pointsFor (src : Source) (name : Option String) (w : Walk) (k : Kind) : Int :=
  Site.cost src name ((w.entries src name).filter fun v => v.1.node.kind == k)

namespace Site

/-- A list of logical expressions costs one for each that continues no run, whatever the nesting. -/
theorem cost_logical (src : Source) (name : Option String) (nesting : Site → Int) : ∀ l : List Site,
    cost src name ((l.map fun v => (v, nesting v)).filter fun v => v.1.node.kind == .logical) =
      (l.filter fun v => v.node.kind == .logical && !v.continuesRun).length
  | [] => rfl
  | v :: l => by
    have ih := cost_logical src name nesting l
    rw [List.map_cons, List.filter_cons, List.filter_cons]
    cases hk : v.node.kind == .logical with
    | false => simpa [hk] using ih
    | true =>
      have hkind : v.node.kind = .logical := by simpa using hk
      simp only [if_true, cost_cons, ih, effect, hkind, Bool.true_and]
      cases v.continuesRun with
      | true => simp [pointIf]
      | false =>
        simp only [pointIf, Bool.not_false, if_true, List.length_cons]
        omega

/-- **A function is charged one point for each run of a logical operator that it owns, and no run leads out of it.** -/
theorem logical_points_eq_runs (src : Source) (name : Option String) {f : Site} (hf : f.node.isFunctionLike = true)
    {nesting p : Int} (hs : f.score src nesting name = .ok p) :
    (Walk.start f nesting).pointsFor src name .logical = Nat.card f.runGraph.ConnectedComponent ∧
      ∀ t : Tree, ∀ u v, t.Holds u → u.node.kind = .logical → v.node.kind = .logical → u.Continues v →
        (u ∈ f.own ↔ v ∈ f.own) := by
  refine ⟨?_, fun t u v ht hu hv h => mem_own_iff_of_continues hf ht hu hv h⟩
  rw [Walk.pointsFor, (entries_of_score hs).1, cost_logical src name, card_runs hf]
  rfl

/-- An expression of two operands. -/
def binary (operator : String) (left right : Node) : Node :=
  .plain "binary_expression" none [left, .plain operator (some "operator") [], right]

/-- A function with a run of two, one of them in parentheses, under another operator, and a function of its own. -/
def mixture : Node :=
  let operand : Node := .plain "identifier" none []
  let run := binary "&&" operand (.plain "parenthesized_expression" none [binary "&&" operand operand])
  .plain "arrow_function" none [binary "||" run (.plain "arrow_function" none [binary "||" operand operand])]

theorem logical_points_eq_runs_mixture :
    (root mixture).node.isFunctionLike = true ∧ (root mixture).score (.ofString "f") 0 none = .ok 2 ∧
      Nat.card (root mixture).runGraph.ConnectedComponent = 2 := by
  have hs : (root mixture).score (.ofString "f") 0 none = .ok 2 :=
    (score_eq_own_cost (.ofString "f") (root mixture) 0 none (by decide)).trans (congrArg Except.ok (by decide +kernel))
  have hpoints : (Walk.start (root mixture) 0).pointsFor (.ofString "f") none .logical = 2 := by decide +kernel
  have hruns := (logical_points_eq_runs (.ofString "f") none (f := root mixture) (by decide) hs).1
  exact ⟨by decide, hs, by exact_mod_cast hruns.symm.trans hpoints⟩

end Site
end Cognitive
