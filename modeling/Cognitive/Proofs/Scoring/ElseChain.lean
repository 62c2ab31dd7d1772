import Cognitive.Proofs.Scoring.Entered
/-!
# What chains of conditionals cost

In a chain every conditional but the first is all that the else before it holds, comments apart (`Site.IsElseChain`).
Each link lies inside the one before, and yet only the first opens a level: the links after it stand one level deeper
than it, all at the same nesting (`Site.IsElseChain.levelsTo_eq`), where the rule for the branch of an else takes that
level back.  So the links cost the same, and the chain as much as its length (`Site.else_chain_costs_evenly`).  Whether
a link has another conditional for its else is found by looking down, whether it is one by looking up; the two agree.
-/
namespace Cognitive
namespace Site

/-- The named children that are no plain comments. -/
def statements (clause : Site) : List Site :=
  clause.children.filter fun c => c.node.label.named && c.node.type != "comment"

/-- The else clause of a conditional holds one statement, comments apart. -/
structure HasElse (a clause b : Site) : Prop where
  alternative : a.child? "alternative" = some clause
  isClause : clause.node.type = "else_clause"
  only : clause.statements = [b]

/-- **Chains of conditionals**, each after the first all that the else of the one before holds.  Such a chain ends in a
conditional without an alternative, or else in one whose else holds a single statement that is no conditional. -/
inductive IsElseChain : List Site → Bool → Prop where
  | withoutElse {a : Site} (ha : a.node.kind = .conditional) (hn : a.child? "alternative" = none) : IsElseChain [a] false
  | withElse {a clause b : Site} (ha : a.node.kind = .conditional) (he : a.HasElse clause b)
      (hb : b.node.kind ≠ .conditional) : IsElseChain [a] true
  | elseIf {a clause b : Site} {rest : List Site} {ends : Bool} (ha : a.node.kind = .conditional)
      (he : a.HasElse clause b) (hr : IsElseChain (b :: rest) ends) : IsElseChain (a :: b :: rest) ends

/-! ## One link and the next -/

namespace HasElse

variable {a clause b : Site} (h : a.HasElse clause b)
include h

theorem clause_mem : clause ∈ a.children := List.mem_of_find?_eq_some h.alternative

theorem branch_mem : b ∈ clause.children := List.mem_of_mem_filter (h.only ▸ List.mem_singleton_self b)

theorem elseBranch?_eq : a.elseBranch? = some b := by
  have hfirst : clause.children.find? (fun c => c.node.label.named && c.node.type != "comment") = some b := by
    rw [← List.head?_filter]
    exact congrArg List.head? h.only
  rw [elseBranch?, h.alternative]
  simp only [if_pos h.isClause, hfirst]

theorem clause_kind : clause.node.kind = .other := by
  rw [Node.kind, h.isClause]
  cases clause.node.label.named <;> rfl

/-- What an else holds is the branch of an else, as its own rule sees it. -/
theorem isElseIf_branch (ha : a.node.kind = .conditional) : b.isElseIf = true := by
  obtain ⟨i, n, -, rfl⟩ := mem_children.1 h.branch_mem
  obtain ⟨j, m, -, hc⟩ := mem_children.1 h.clause_mem
  have hup : clause.up = a.node :: a.up := congrArg Site.up hc
  simp [isElseIf, hup, h.isClause, ha]

theorem below : clause ∈ a.below ∧ b ∈ a.below :=
  have hc := mem_below_of_mem_children h.clause_mem
  ⟨hc, mem_below_child hc h.branch_mem⟩

theorem between_eq {f : Site} (ha : a ∈ f.below) : f.between b = clause :: a :: f.between a := by
  rw [between_child (mem_below_child ha h.clause_mem) h.branch_mem, between_child ha h.clause_mem]

theorem levelsTo_eq {f : Site} (ha : a ∈ f.below) : (f.levelsTo b : Int) = f.levelsTo a + pointIf a.opensLevel := by
  have hclause : clause.opensLevel = false := by simp [opensLevel, h.clause_kind]
  rw [levelsTo_child (mem_below_child ha h.clause_mem) h.branch_mem, levelsTo_child ha h.clause_mem, hclause]
  exact Int.add_zero _

/-- Who owns a conditional owns the branch of its else, unless that is a function. -/
theorem mem_own {f : Site} (ha : a ∈ f.own) (hb : b.node.isFunctionLike = false) : b ∈ f.own := by
  obtain ⟨hbelow, howns⟩ := List.mem_filter.1 ha
  rw [owns, Bool.and_eq_true] at howns
  have hclause : clause.node.isFunctionLike = false := Node.isFunctionLike_of_kind h.clause_kind rfl
  refine List.mem_filter.2 ⟨mem_below_trans hbelow h.below.2, ?_⟩
  rw [owns, h.between_eq hbelow, List.all_cons, List.all_cons, howns.1, howns.2, hclause, hb]
  rfl

end HasElse

/-! ## Along a chain -/

theorem opensLevel_of_isElseIf {a : Site} (ha : a.node.kind = .conditional) (h : a.isElseIf = true) :
    a.opensLevel = false := by
  simp [opensLevel, ha, h]

namespace IsElseChain

variable {f a : Site} {rest : List Site} {ends : Bool}

theorem kind_first (h : IsElseChain (a :: rest) ends) : a.node.kind = .conditional := by
  cases h <;> assumption

/-- **The links of a chain are owned together**, and those after the first stand at one nesting: that of the first,
and the level that it opens. -/
theorem levelsTo_eq (h : IsElseChain (a :: rest) ends) (ha : a ∈ f.own) :
    ∀ i ∈ rest, i ∈ f.own ∧ i.opensLevel = false ∧ (f.levelsTo i : Int) = f.levelsTo a + pointIf a.opensLevel := by
  induction rest generalizing a with
  | nil => exact fun i hi => nomatch hi
  | cons b rest ih =>
    cases h with
    | elseIf hk he hr =>
      have hb : b ∈ f.own := he.mem_own ha (Node.isFunctionLike_of_kind hr.kind_first rfl)
      have hopens := opensLevel_of_isElseIf hr.kind_first (he.isElseIf_branch hk)
      have hlevels := he.levelsTo_eq (List.mem_filter.1 ha).1
      intro i hi
      rcases List.mem_cons.1 hi with rfl | hi
      · exact ⟨hb, hopens, hlevels⟩
      · obtain ⟨hown, hclosed, hi⟩ := ih hr hb i hi
        rw [hopens, hlevels] at hi
        exact ⟨hown, hclosed, hi.trans (Int.add_zero _)⟩

/-- The points of a conditional, but for its else, at the nesting where it costs as much as the first of its chain. -/
theorem points_eq (src : Source) (name : Option String) (ha : a.node.kind = .conditional) (m : Int) :
    (a.effect src name (if a.isElseIf then m + 1 else m)).points = 1 + m + pointIf a.hasPlainElse := by
  rw [effect, ha]
  cases a.isElseIf with
  | true => simp
  | false => simp

/-- **The links of a chain cost one more than the nesting of the first, each of them**, and the last one point more if
it has an else. -/
theorem sum_points (src : Source) (name : Option String) (h : IsElseChain (a :: rest) ends) (m : Int) :
    (a.effect src name (if a.isElseIf then m + 1 else m)).points +
        (rest.map fun i => (i.effect src name (m + 1)).points).sum =
      (rest.length + 1) * (1 + m) + pointIf ends := by
  induction rest generalizing a with
  | nil =>
    rw [points_eq src name h.kind_first]
    have hplain : a.hasPlainElse = ends := by
      cases h with
      | withoutElse _ hn => simp [hasPlainElse, elseBranch?, hn]
      | withElse _ he hb => simp [hasPlainElse, he.elseBranch?_eq, hb]
    rw [hplain]
    simp
  | cons b rest ih =>
    cases h with
    | elseIf hk he hr =>
      have hplain : a.hasPlainElse = false := by simp [hasPlainElse, he.elseBranch?_eq, hr.kind_first]
      have hnext := ih hr
      rw [if_pos (he.isElseIf_branch hk)] at hnext
      rw [points_eq src name hk, hplain, List.map_cons, List.sum_cons, hnext, List.length_cons]
      push_cast [pointIf]
      ring

end IsElseChain

/-- **A chain of conditionals costs as much as its length.**  The links after the first are entered one level deeper
than the first; together the links cost one more than the nesting of the first for each, and a point for an else at the
end.  Whatever else lies in a link is entered at that one level and those that open on the way to it. -/
theorem else_chain_costs_evenly (src : Source) (name : Option String) {f : Site} {nesting m p : Int}
    (hs : f.score src nesting name = .ok p) {a : Site} {rest : List Site} {ends : Bool}
    (hc : IsElseChain (a :: rest) ends) (ha : a.isElseIf = false)
    (hm : (a, m) ∈ (Walk.start f nesting).entries src name) :
    (∀ i ∈ rest, ∀ n, (i, n) ∈ (Walk.start f nesting).entries src name ↔ n = m + 1) ∧
      (((a, m) :: rest.map fun i => (i, m + 1)).map fun v => (v.1.effect src name v.2).points).sum =
        (rest.length + 1) * (1 + m) + pointIf ends ∧
      ∀ i ∈ a :: rest, ∀ v ∈ i.below, v ∈ f.own →
        ∀ n, (v, n) ∈ (Walk.start f nesting).entries src name ↔ n = m + 1 + (i.levelsTo v : Int) := by
  obtain ⟨hown, rfl⟩ := (mem_entries_iff hs).1 hm
  have hopens : a.opensLevel = true := by simp [opensLevel, hc.kind_first, ha]
  have hlinks := hc.levelsTo_eq hown
  rw [hopens] at hlinks
  refine ⟨fun i hi n => ?_, ?_, fun i hi v hv hvown n => ?_⟩
  · obtain ⟨hi, -, hlevels⟩ := hlinks i hi
    rw [mem_entries_iff hs, hlevels, and_iff_right hi, Int.add_assoc]
    rfl
  · have hsum := hc.sum_points src name (nesting + f.levelsTo a)
    rw [if_neg (by rw [ha]; exact Bool.false_ne_true)] at hsum
    rw [List.map_cons, List.sum_cons, List.map_map]
    exact hsum
  · -- the levels from the function on are those down to the link, that of the link itself, and those inside it
    have hinside : i ∈ f.below ∧ (f.levelsTo i : Int) + pointIf i.opensLevel = f.levelsTo a + 1 := by
      rcases List.mem_cons.1 hi with rfl | hi
      · exact ⟨(List.mem_filter.1 hown).1, by rw [hopens]; rfl⟩
      · obtain ⟨hi, hclosed, hlevels⟩ := hlinks i hi
        exact ⟨(List.mem_filter.1 hi).1, by rw [hclosed, hlevels]; rfl⟩
    have hsplit : (f.levelsTo v : Int) = i.levelsTo v + (f.levelsTo i + pointIf i.opensLevel) := by
      rw [levelsTo, between_split hinside.1 hv, List.countP_append, List.countP_cons]
      cases i.opensLevel <;> simp [levelsTo, pointIf]
    rw [mem_entries_iff hs, and_iff_right hvown, hsplit, hinside.2]
    constructor <;> intro h <;> omega

/-! ## A chain of three -/

/-- A conditional with an else that holds a block. -/
def lastRung : Node :=
  .plain "if_statement" none [.plain "else_clause" (some "alternative") [.plain "statement_block" none []]]

/-- A conditional with a loop inside, and the last one for its else. -/
def middleRung : Node :=
  .plain "if_statement" none [.plain "for_statement" none [], .plain "else_clause" (some "alternative") [lastRung]]

/-- A function with a loop around a chain of three conditionals, the first with a comment in its else. -/
def ladder : Node :=
  .plain "function_declaration" none
    [.plain "while_statement" none
      [.plain "if_statement" none
        [.plain "else_clause" (some "alternative") [.plain "comment" none [], middleRung]]]]

/-- The child of a site at some position. -/
def down (s : Site) (i : Nat) : Site := s.children[i]?.getD s

/-- The conditionals of the chain. -/
def rungs : Site × Site × Site :=
  let first := ((root ladder).down 0).down 0
  let middle := (first.down 0).down 1
  (first, middle, (middle.down 1).down 0)

theorem isElseChain_rungs : IsElseChain [rungs.1, rungs.2.1, rungs.2.2] true := by
  have hfirst : rungs.1.HasElse (rungs.1.down 0) rungs.2.1 := ⟨rfl, rfl, rfl⟩
  have hmiddle : rungs.2.1.HasElse (rungs.2.1.down 1) rungs.2.2 := ⟨rfl, rfl, rfl⟩
  have hlast : rungs.2.2.HasElse (rungs.2.2.down 0) ((rungs.2.2.down 0).down 0) := ⟨rfl, rfl, rfl⟩
  exact .elseIf (by decide) hfirst (.elseIf (by decide) hmiddle (.withElse (by decide) hlast (by decide)))

theorem else_chain_costs_evenly_ladder :
    (root ladder).score (.ofString "f") 0 none = .ok 11 ∧ rungs.1.isElseIf = false ∧
      (rungs.1, 1) ∈ (Walk.start (root ladder) 0).entries (.ofString "f") none ∧
      (rungs.2.2, 2) ∈ (Walk.start (root ladder) 0).entries (.ofString "f") none ∧
      ([(rungs.1, (1 : Int)), (rungs.2.1, 2), (rungs.2.2, 2)].map
        fun v => (v.1.effect (.ofString "f") none v.2).points).sum = 7 := by
  have hs : (root ladder).score (.ofString "f") 0 none = .ok 11 :=
    (score_eq_own_cost (.ofString "f") (root ladder) 0 none (by decide)).trans (congrArg Except.ok (by decide +kernel))
  have hbelow : rungs.1 ∈ (root ladder).below :=
    mem_below_child (mem_below_of_mem_children (List.mem_of_getElem? (i := 0) rfl))
      (List.mem_of_getElem? (i := 0) rfl)
  have hm : (rungs.1, 1) ∈ (Walk.start (root ladder) 0).entries (.ofString "f") none :=
    (mem_entries_iff hs).2 ⟨List.mem_filter.2 ⟨hbelow, by decide⟩, by decide⟩
  obtain ⟨hlinks, hsum, -⟩ := else_chain_costs_evenly (.ofString "f") none hs isElseChain_rungs (by decide) hm
  exact ⟨hs, by decide, hm, (hlinks rungs.2.2 (by simp) 2).2 rfl, hsum⟩

end Site
end Cognitive
