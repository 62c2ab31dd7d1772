import Cognitive.Proofs.Scoring.Run
/-!
# The score as a sum

The score of a site is a sum over the sites that it owns: those below it that are no functions and stand in no function
below it.  Each of them costs what the rules charge for it (`Site.charges`), at the nesting that the sites between open
(`Site.levelsTo`).  Neither the order of the walk nor the levels it opens and closes show in the sum (`score_eq_sum`).
-/
namespace Cognitive
namespace Site

/-! ## What a node costs, rule by rule -/

/-- The rules of the costs: whether each applies to a site, and the points that it charges at some nesting. -/
def charges (src : Source) (name : Option String) (v : Site) (nesting : Int) : List (Bool × Int) :=
  let k := v.node.kind
  [(k.isStructural || (k == .conditional && !v.isElseIf), 1 + nesting),
   (k == .conditional && v.isElseIf, 1 + (nesting - 1)),
   (k == .conditional && v.hasPlainElse, 1),
   (k == .switchCase, 1),
   (k == .logical && !v.continuesRun, 1),
   (k == .call && v.callsName src name, 1),
   ((k == .breakJump || k == .continueJump) && (v.node.child? "label").isSome, 1)]

/-- What a site costs at some nesting: the sum of the charges that apply. -/
def increment (src : Source) (name : Option String) (v : Site) (nesting : Int) : Int :=
  (((v.charges src name nesting).filter (·.1)).map (·.2)).sum

/-- **The points of the walk's effect are the charges that apply.** -/
theorem effect_points (src : Source) (name : Option String) (v : Site) (nesting : Int) :
    (v.effect src name nesting).points = v.increment src name nesting := by
  unfold effect increment charges
  cases v.node.kind with
  | conditional => cases v.isElseIf <;> cases v.hasPlainElse <;> simp [Kind.isStructural, pointIf]
  | logical => cases v.continuesRun <;> simp [Kind.isStructural, pointIf]
  | call => cases v.callsName src name <;> simp [Kind.isStructural, pointIf]
  | breakJump => cases (v.node.child? "label").isSome <;> simp [Kind.isStructural, pointIf]
  | continueJump => cases (v.node.child? "label").isSome <;> simp [Kind.isStructural, pointIf]
  | _ => simp [Kind.isStructural]

/-! ## The sites that a site owns -/

/-- The lower site is no function, and no function stands between it and the upper one. -/
def owns (f v : Site) : Bool := !v.node.isFunctionLike && (f.between v).all fun a => !a.node.isFunctionLike

def own (f : Site) : List Site := f.below.filter f.owns

/-- How many of the sites between two open a level of nesting. -/
def levelsTo (f v : Site) : Nat := (f.between v).countP opensLevel

theorem levelsTo_child {f s c : Site} (hs : s ∈ f.below) (hc : c ∈ s.children) :
    (f.levelsTo c : Int) = f.levelsTo s + pointIf s.opensLevel := by
  rw [levelsTo, between_child hs hc, List.countP_cons]
  cases s.opensLevel <;> simp [pointIf, levelsTo]

theorem owns_eq_false {f s v : Site} (hs : s ∈ f.below) (hf : s.node.isFunctionLike = true)
    (hv : v ∈ s :: s.below) : f.owns v = false := by
  rw [List.mem_cons] at hv
  obtain rfl | hv := hv
  · simp [owns, hf]
  · rw [owns, between_split hs hv]
    simp [hf]

/-- The visits at or below a site are those that a site above owns, as long as no function stands between. -/
theorem visits_eq_own {f s : Site} (hs : s ∈ f.below) (hb : ∀ a ∈ f.between s, a.node.isFunctionLike = false)
    (nesting : Int) :
    s.visits (nesting + f.levelsTo s) =
      ((s :: s.below).filter f.owns).map fun v => (v, nesting + (f.levelsTo v : Int)) := by
  induction s using children_induction with
  | step s ih =>
    rw [visits_eq]
    cases hf : s.node.isFunctionLike with
    | true =>
      rw [List.filter_eq_nil_iff.2 fun v hv => by simp [owns_eq_false hs hf hv]]
      rfl
    | false =>
      have hown : f.owns s = true := by
        rw [owns, hf, Bool.not_false, Bool.true_and, List.all_eq_true]
        exact fun a ha => by rw [hb a ha]; rfl
      rw [List.filter_cons_of_pos hown, List.map_cons, below_eq, List.filter_flatMap, List.map_flatMap,
        if_neg Bool.false_ne_true]
      congr 1
      refine List.flatMap_congr fun c hc => ?_
      rw [Int.add_assoc, ← levelsTo_child hs hc]
      refine ih c hc (mem_below_child hs hc) fun a ha => ?_
      rw [between_child hs hc, List.mem_cons] at ha
      obtain rfl | ha := ha
      · exact hf
      · exact hb a ha

/-- **The visits to the children of a site are the sites it owns**, each at the nesting that the sites between open. -/
theorem visits_children (f : Site) (nesting : Int) :
    (f.children.flatMap fun c => c.visits nesting) = f.own.map fun v => (v, nesting + (f.levelsTo v : Int)) := by
  rw [own, below_eq, List.filter_flatMap, List.map_flatMap]
  refine List.flatMap_congr fun c hc => ?_
  have hb := between_child_self hc
  have h := visits_eq_own (mem_below_of_mem_children hc) (by simp [hb]) nesting
  rwa [levelsTo, hb, List.countP_nil, Int.natCast_zero, Int.add_zero] at h

theorem score_eq_own_cost (src : Source) (f : Site) (nesting : Int) (name : Option String)
    (hf : f.node.isWalkable = true) :
    f.score src nesting name = .ok (cost src name (f.own.map fun v => (v, nesting + (f.levelsTo v : Int)))) := by
  rw [score_eq_cost src f nesting name hf, visits_children]

/-- **The score of a site is the sum over the sites it owns of what each costs**, at the nesting that is given and the
levels that the sites between open. -/
theorem score_eq_sum (src : Source) (f : Site) (nesting : Int) (name : Option String)
    (hf : f.node.isWalkable = true) :
    f.score src nesting name =
      .ok (f.own.map fun v => v.increment src name (nesting + (f.levelsTo v : Int))).sum := by
  rw [score_eq_own_cost src f nesting name hf, cost, List.map_map]
  simp only [Function.comp_def, effect_points]

/-- A function that calls itself, with a loop that a labelled jump leaves in a conditional, an else-if with an else, and
a function of its own. -/
def summand : Node :=
  .plain "function_declaration" none
    [.plain "if_statement" none
      [.plain "for_statement" none [.plain "break_statement" none [.plain "statement_identifier" (some "label") []]],
       .plain "else_clause" (some "alternative")
        [.plain "if_statement" none
          [.plain "else_clause" (some "alternative") [.plain "statement_block" none []]]]],
     .plain "call_expression" none
      [.plain "identifier" (some "function") [], .plain "arguments" (some "arguments") []],
     .plain "arrow_function" none [.plain "while_statement" none []]]

theorem score_eq_sum_summand :
    summand.isWalkable = true ∧ (Site.root summand).score (.ofString "f") 1 (some "f") = .ok 10 :=
  ⟨by decide, (score_eq_sum (.ofString "f") (.root summand) 1 (some "f") (by decide)).trans
    (congrArg Except.ok (by decide +kernel))⟩

end Site
end Cognitive
