import Cognitive.Proofs.Outcome
import Cognitive.Proofs.Scoring.Records
import Cognitive.Proofs.Scoring.Sum
import Cognitive.Proofs.Tree.Comments
/-!
# What comments do to the metrics

Comments change nothing of the metrics but for one thing.  The branch of an else is looked for behind comments of one
type only, so that a comment of the other type counts as the branch, and a conditional behind it, or nothing, as an
else with a branch of its own (`Node.hidesElse`).  Each such conditional costs its function one point more
(`Tree.metrics_of_annotates`); where no comment hides an else, the metrics stay what they were
(`Tree.metrics_eq_of_annotates`).

The sites of a tree are set beside those of the tree without its comments, with all their ancestors (`Site.Strips`).
-/
namespace Cognitive

open Node

/-! ## The branch of an else -/

/-- A comment counts as the branch of a conditional's else, in front of another conditional or of nothing. -/
def Node.hidesElse (n : Node) : Bool :=
  n.kind == .conditional &&
    match Site.branchOf (n.child? "alternative"), Site.branchOf (n.bare.child? "alternative") with
    | some c, some branch => c.isComment && branch.kind == .conditional
    | some c, none => c.isComment
    | none, _ => false

theorem find?_filter_of_find? {α : Type} {p q : α → Bool} {l : List α} {a : α} (h : l.find? p = some a)
    (ha : q a = true) : (l.filter q).find? p = some a := by
  obtain ⟨hp, before, after, rfl, hbefore⟩ := List.find?_eq_some_iff_append.1 h
  rw [List.filter_append, List.filter_cons_of_pos ha, List.find?_append, List.find?_cons_of_pos hp]
  have hnone : (before.filter q).find? p = none :=
    List.find?_eq_none.2 fun b hb => by simpa using hbefore b (List.mem_filter.1 hb).1
  rw [hnone, Option.none_or]

/-- The branch of an else is found again without the comments, unless a comment counts as the branch. -/
theorem branchOf_bare {clause : Option Node} (hfield : ∀ c, clause = some c → c.isComment = false) :
    Site.branchOf (clause.map bare) = (Site.branchOf clause).map bare ∨
      ∃ c, Site.branchOf clause = some c ∧ c.isComment = true := by
  cases clause with
  | none => exact .inl rfl
  | some clause =>
    rw [Option.map_some, Site.branchOf, Site.branchOf, Option.bind_some, Option.bind_some, type_bare]
    by_cases helse : clause.type = "else_clause"
    · rw [if_pos helse, if_pos helse]
      have hpred : (fun c : Node => c.label.named && c.type != "comment") ∘ bare =
          fun c : Node => c.label.named && c.type != "comment" :=
        funext fun c => by rw [Function.comp_apply, label_bare, type_bare]
      rw [children_bare, List.find?_map, hpred]
      cases h : clause.children.find? fun c => c.label.named && c.type != "comment" with
      | none =>
        refine .inl ?_
        have hnone := List.find?_eq_none.1 h
        rw [List.find?_eq_none.2 fun c hc => hnone c (List.mem_filter.1 hc).1]
      | some c =>
        cases hc : c.isComment with
        | true => exact .inr ⟨c, rfl, hc⟩
        | false =>
          refine .inl ?_
          rw [find?_filter_of_find? h (by rw [hc]; rfl)]
    · rw [if_neg helse, if_neg helse]
      exact .inl rfl

/-! ## Sites without their comments -/

namespace Site

/-- The second site is the first with the comments left out, below it and below its ancestors. -/
structure Strips (s b : Site) : Prop where
  node : b.node = s.node.bare
  up : b.up = s.up.map bare

namespace Strips

variable {s b : Site} (h : s.Strips b)
include h

theorem kind_eq : b.node.kind = s.node.kind := by rw [h.node, kind_bare]

theorem isFunctionLike_eq : b.node.isFunctionLike = s.node.isFunctionLike := by rw [h.node, isFunctionLike_bare]

theorem child? (field : String) : b.node.child? field = (s.node.child? field).map bare := by
  rw [h.node, child?_bare]

theorem find?_up : (b.up.find? fun n => !n.isParenthesized) = (s.up.find? fun n => !n.isParenthesized).map bare := by
  have hpred : (fun n : Node => !n.isParenthesized) ∘ bare = fun n : Node => !n.isParenthesized :=
    funext fun n => by rw [Function.comp_apply, isParenthesized_bare]
  rw [h.up, List.find?_map, hpred]

theorem baseNesting_eq : b.baseNesting = s.baseNesting := by
  unfold baseNesting
  rw [h.up, List.countP_map]
  exact List.countP_congr fun n _ => by rw [Function.comp_apply, kind_bare]

theorem isElseIf_eq : b.isElseIf = s.isElseIf := by
  unfold isElseIf
  rw [h.up]
  cases s.up with
  | nil => rfl
  | cons clause up =>
    cases up with
    | nil => rfl
    | cons outer up => simp only [List.map_cons, type_bare, kind_bare]

theorem continuesRun_eq : b.continuesRun = s.continuesRun := by
  rw [Site.continuesRun_eq, Site.continuesRun_eq, h.find?_up, h.node, logicalOperator?_bare]
  cases s.up.find? fun n => !n.isParenthesized with
  | none => rfl
  | some p => simp only [Option.map_some, kind_bare, logicalOperator?_bare]

theorem callsName_eq (src : Source) (name : Option String) : b.callsName src name = s.callsName src name := by
  have hchain : b.node.children.all (fun c => c.type != "optional_chain") =
      s.node.children.all fun c => c.type != "optional_chain" := by
    rw [h.node]
    refine all_children_bare (fun c => by rw [type_bare]) (fun c hc => ?_) s.node
    rw [bne, type_beq_of_isComment hc (by decide)]
    rfl
  have hcallee : b.plainCallee?.map (Node.text src) = s.plainCallee?.map (Node.text src) := by
    unfold plainCallee?
    rw [hchain, h.child? "function", h.child? "arguments"]
    cases s.node.child? "function" with
    | none => rfl
    | some callee =>
      cases s.node.child? "arguments" with
      | none => rfl
      | some arguments =>
        simp only [Option.map_some, type_bare]
        split
        · rw [Option.map_some, Option.map_some, text_bare]
        · rfl
  unfold callsName
  cases name with
  | none => rfl
  | some called =>
    generalize b.plainCallee? = callee, s.plainCallee? = callee' at hcallee
    cases callee <;> cases callee' <;> simp_all

theorem opensLevel_eq : b.opensLevel = s.opensLevel := by
  rw [opensLevel, opensLevel, h.kind_eq, h.isElseIf_eq]

/-- An else without a plain branch seems to have one where a comment hides it, and only there. -/
theorem pointIf_hasPlainElse (hk : s.node.kind = .conditional) :
    pointIf s.hasPlainElse = pointIf b.hasPlainElse + pointIf s.node.hidesElse := by
  have hfield : ∀ c, s.node.child? "alternative" = some c → c.isComment = false := fun c hc => isComment_of_child? hc
  rw [hasPlainElse_eq, hasPlainElse_eq, hidesElse, hk, h.child?, child?_bare, beq_self_eq_true, Bool.true_and]
  rcases branchOf_bare hfield with hbare | ⟨c, hbranch, hc⟩
  · rw [hbare]
    cases hbranch : branchOf (s.node.child? "alternative") with
    | none => rfl
    | some branch =>
      cases hc : branch.isComment with
      | false => simp [hc, pointIf]
      | true =>
        have hother : branch.kind = .other := kind_of_isComment hc
        simp [hc, hother, pointIf]
  · rw [hbranch]
    have hother : c.kind = .other := kind_of_isComment hc
    cases branchOf ((s.node.child? "alternative").map bare) with
    | none => simp [hc, hother, pointIf]
    | some branch =>
      by_cases hcond : branch.kind = .conditional
      · simp [hc, hother, hcond, pointIf]
      · simp [hc, hother, hcond, pointIf]

/-- A hidden else costs one point more, and nothing else changes what a site costs. -/
theorem points_eq (src : Source) (name : Option String) (nesting : Int) :
    (s.effect src name nesting).points = (b.effect src name nesting).points + pointIf s.node.hidesElse := by
  have hlabel : (b.node.child? "label").isSome = (s.node.child? "label").isSome := by
    rw [h.child?, Option.isSome_map]
  have hhides : s.node.kind ≠ .conditional → pointIf s.node.hidesElse = 0 := by
    intro hk
    rw [hidesElse, beq_eq_false_iff_ne.2 hk, Bool.false_and]
    rfl
  unfold effect
  rw [h.kind_eq, h.isElseIf_eq, h.continuesRun_eq, h.callsName_eq, hlabel]
  cases hk : s.node.kind with
  | conditional =>
    have helse := h.pointIf_hasPlainElse hk
    cases s.isElseIf with
    | true => simp only [if_true]; omega
    | false => simp only [Bool.false_eq_true, if_false]; omega
  | _ => rw [hhides (by rw [hk]; simp), Int.add_zero]

end Strips

/-- The children of the second site are those of the first that are no comments. -/
theorem Strips.children {s b : Site} (h : s.Strips b) :
    List.Forall₂ Strips (s.children.filter fun c => !c.node.isComment) b.children := by
  have hnodes : (s.children.filter fun c => !c.node.isComment).map (fun c => c.node.bare) =
      b.children.map fun c => c.node := by
    have hfilter : (s.children.filter fun c => !c.node.isComment).map (·.node) =
        s.node.children.filter fun c => !c.isComment := by
      rw [← map_node_children, List.filter_map]
      rfl
    rw [map_node_children, h.node, children_bare, ← hfilter, List.map_map]
    rfl
  rw [← List.forall₂_eq_eq_eq, List.forall₂_map_left_iff, List.forall₂_map_right_iff] at hnodes
  have hup : ∀ c ∈ s.children.filter fun c => !c.node.isComment, c.up = s.node :: s.up := by
    intro c hc
    obtain ⟨i, n, -, rfl⟩ := mem_children.1 (List.mem_filter.1 hc).1
    rfl
  have hup' : ∀ c ∈ b.children, c.up = b.node :: b.up := by
    intro c hc
    obtain ⟨i, n, -, rfl⟩ := mem_children.1 hc
    rfl
  have hright := (List.forall₂_and_left _ _).2 ⟨hup', hnodes.flip⟩
  have hboth := (List.forall₂_and_left _ _).2 ⟨hup, hright.flip⟩
  refine hboth.imp fun c c' ⟨hc, hc', hnode⟩ => ⟨hnode.symm, ?_⟩
  rw [hc, hc', h.node, h.up, List.map_cons]

/-! ## Costs -/

/-- How many of the sites that a site owns are conditionals whose else a comment hides. -/
def hiddenElses (f : Site) : Nat := f.own.countP fun v => v.node.hidesElse

section

variable (src : Source) (name : Option String)

/-- What some visits cost, without the points for hidden elses. -/
def plainCost (visits : List (Site × Int)) : Int :=
  cost src name visits - (visits.countP fun v => v.1.node.hidesElse : Nat)

theorem plainCost_cons (v : Site × Int) (visits : List (Site × Int)) : plainCost src name (v :: visits) =
    (v.1.effect src name v.2).points - pointIf v.1.node.hidesElse + plainCost src name visits := by
  rw [plainCost, plainCost, cost_cons, List.countP_cons]
  cases v.1.node.hidesElse <;> simp [pointIf] <;> omega

theorem plainCost_flatMap (sites : List Site) (visits : Site → List (Site × Int)) :
    plainCost src name (sites.flatMap visits) = (sites.map fun c => plainCost src name (visits c)).sum := by
  induction sites with
  | nil => rfl
  | cons c sites ih =>
    rw [List.map_cons, List.sum_cons, ← ih, List.flatMap_cons, plainCost, plainCost, plainCost, cost_append,
      List.countP_append]
    omega

theorem sum_map_filter {α : Type} {p : α → Bool} {f : α → Int} : ∀ {l : List α},
    (∀ a ∈ l, p a = false → f a = 0) → ((l.filter p).map f).sum = (l.map f).sum
  | [], _ => rfl
  | a :: l, h => by
    have ih := sum_map_filter (l := l) fun b hb => h b (List.mem_cons_of_mem a hb)
    rw [List.filter_cons, List.map_cons, List.sum_cons, ← ih]
    cases ha : p a with
    | true => rw [if_pos rfl, List.map_cons, List.sum_cons]
    | false => rw [if_neg Bool.false_ne_true, h a List.mem_cons_self ha, Int.zero_add]

theorem plainCost_visits_of_isComment {c : Site} (hc : c.node.isComment = true) (nesting : Int) :
    plainCost src name (c.visits nesting) = 0 := by
  induction c using Site.children_induction generalizing nesting with
  | step c ih =>
    have hk := kind_of_isComment hc
    have hpoints : (c.effect src name nesting).points = 0 := by rw [effect, hk]
    have hhides : c.node.hidesElse = false := by rw [hidesElse, hk]; rfl
    have hchildren :
        (c.children.map fun d => plainCost src name (d.visits (nesting + pointIf c.opensLevel))).sum = 0 := by
      refine List.sum_eq_zero fun x hx => ?_
      obtain ⟨d, hd, rfl⟩ := List.mem_map.1 hx
      exact ih d hd (((isComment_iff c.node).1 hc).2 d.node (node_mem_of_mem_children hd)) _
    rw [visits_eq, isFunctionLike_of_isComment hc, if_neg Bool.false_ne_true, plainCost_cons, plainCost_flatMap,
      hpoints, hhides, hchildren]
    rfl

theorem Strips.plainCost_children {s b : Site} (h : s.Strips b) (nesting : Int)
    (ih : ∀ c ∈ s.children, ∀ c', c.Strips c' →
      plainCost src name (c.visits nesting) = cost src name (c'.visits nesting)) :
    plainCost src name (s.children.flatMap fun c => c.visits nesting) =
      cost src name (b.children.flatMap fun c => c.visits nesting) := by
  rw [plainCost_flatMap, cost_flatMap, ← sum_map_filter (p := fun c => !c.node.isComment) fun c _ hc =>
    plainCost_visits_of_isComment src name (by simpa using hc) _]
  have hmem : ∀ c ∈ s.children.filter (fun c => !c.node.isComment), c ∈ s.children := fun c hc =>
    (List.mem_filter.1 hc).1
  have hboth := (List.forall₂_and_left _ _).2 ⟨hmem, h.children⟩
  exact congrArg List.sum (map_eq_map_of_forall₂ (hboth.imp fun c c' ⟨hm, hc⟩ => ih c hm c' hc))

/-- **A site costs what it costs without comments**, and a point for each else that a comment hides. -/
theorem Strips.plainCost_visits_eq {s b : Site} (h : s.Strips b) (nesting : Int) :
    plainCost src name (s.visits nesting) = cost src name (b.visits nesting) := by
  induction s using Site.children_induction generalizing b nesting with
  | step s ih =>
    rw [visits_eq, visits_eq, h.isFunctionLike_eq]
    cases s.node.isFunctionLike with
    | true => rfl
    | false =>
      have hchildren := h.plainCost_children src name (nesting + pointIf s.opensLevel) fun c hc c' hc' => ih c hc hc' _
      rw [if_neg Bool.false_ne_true, if_neg Bool.false_ne_true, plainCost_cons, cost_cons, h.points_eq, h.opensLevel_eq,
        hchildren, Int.add_sub_cancel]

theorem Strips.score_eq {s b : Site} (h : s.Strips b) (hs : s.node.isWalkable = true) (nesting : Int) :
    s.score src nesting name = (b.score src nesting name).map (· + (s.hiddenElses : Int)) := by
  have hb : b.node.isWalkable = true := by rw [h.node, isWalkable_bare, hs]
  have hcount :
      (s.children.flatMap fun c => c.visits nesting).countP (fun v => v.1.node.hidesElse) = s.hiddenElses := by
    rw [visits_children, List.countP_map, hiddenElses]
    rfl
  have hchildren := h.plainCost_children src name nesting fun c _ c' hc' => hc'.plainCost_visits_eq src name nesting
  rw [plainCost, hcount] at hchildren
  rw [score_eq_cost src s nesting name hs, score_eq_cost src b nesting name hb, ← hchildren, Except.map,
    Int.sub_add_cancel]

end

/-! ## Records -/

theorem identifierText?_bare (src : Source) (o : Option Node) :
    identifierText? src (o.map bare) = identifierText? src o := by
  cases o with
  | none => rfl
  | some n => simp only [Option.map_some, identifierText?, kind_bare, text_bare]

variable {s b : Site} (src : Source)

theorem Strips.displayName_eq (h : s.Strips b) : b.displayName src = s.displayName src := by
  have hmethod : boundName?.methodKey? src b = boundName?.methodKey? src s := by
    rw [boundName?.methodKey?, boundName?.methodKey?, h.kind_eq, h.child?, identifierText?_bare]
  have hbound : b.boundName? src = s.boundName? src := by
    rw [boundName?_eq_of_expressionParent, boundName?_eq_of_expressionParent, h.find?_up, hmethod]
    cases s.up.find? fun n => !n.isParenthesized with
    | none => rfl
    | some p => simp only [Option.map_some, kind_bare, child?_bare, identifierText?_bare]
  have hname : b.name? src = s.name? src := by
    unfold name?
    rw [h.kind_eq, h.child?, hbound]
    cases s.node.child? "name" with
    | none => rfl
    | some own => cases s.node.kind <;> simp only [Option.map_some, text_bare]
  rw [displayName, displayName, hname]

end Site

/-- The record with some points more. -/
def FunctionRecord.raised (r : FunctionRecord) (points : Int) : FunctionRecord :=
  { r with complexity := r.complexity + points }

namespace Site

variable {s b : Site} (src : Source)

/-- **A function has the record that it has without comments**, with a point more for each else that a comment hides. -/
theorem Strips.record_eq (h : s.Strips b) (hs : s.node.isWalkable = true) :
    s.record src = (b.record src).map (·.raised (s.hiddenElses : Int)) := by
  have hlabel : b.node.label = s.node.label := by rw [h.node, label_bare]
  have hscore := h.score_eq src (some (s.displayName src)) hs s.baseNesting
  rw [record, record, h.displayName_eq src, h.baseNesting_eq, hscore]
  unfold rangeText startPoint? stopPoint?
  rw [hlabel]
  cases b.score src s.baseNesting (some (s.displayName src)) <;> rfl

theorem functions_of_isComment {c : Site} (hc : c.node.isComment = true) : c.functions = [] := by
  induction c using Site.children_induction with
  | step c ih =>
    rw [functions_eq, isFunctionLike_of_isComment hc, if_neg Bool.false_ne_true, List.nil_append,
      List.flatMap_eq_nil_iff]
    exact fun d hd => ih d hd (((isComment_iff c.node).1 hc).2 d.node (node_mem_of_mem_children hd))

theorem flatMap_filter {α β : Type} {p : α → Bool} {f : α → List β} : ∀ {l : List α},
    (∀ a ∈ l, p a = false → f a = []) → (l.filter p).flatMap f = l.flatMap f
  | [], _ => rfl
  | a :: l, h => by
    have ih := flatMap_filter (l := l) fun b hb => h b (List.mem_cons_of_mem a hb)
    rw [List.filter_cons, List.flatMap_cons, ← ih]
    cases ha : p a with
    | true => rw [if_pos rfl, List.flatMap_cons]
    | false => rw [if_neg Bool.false_ne_true, h a List.mem_cons_self ha, List.nil_append]

/-- **The functions are the same, in the same order**, with and without comments. -/
theorem Strips.functions (h : s.Strips b) : List.Forall₂ Strips s.functions b.functions := by
  induction s using Site.children_induction generalizing b with
  | step s ih =>
    rw [functions_eq, functions_eq, h.isFunctionLike_eq,
      ← flatMap_filter (p := fun c => !c.node.isComment) fun c _ hc => functions_of_isComment (by simpa using hc)]
    refine List.rel_append ?_ ?_
    · cases s.node.isFunctionLike with
      | true => exact .cons h .nil
      | false => exact .nil
    · have hmem : ∀ c ∈ s.children.filter (fun c => !c.node.isComment), c ∈ s.children := fun c hc =>
        (List.mem_filter.1 hc).1
      exact List.rel_flatMap ((List.forall₂_and_left _ _).2 ⟨hmem, h.children⟩) fun c c' ⟨hm, hc⟩ => ih c hm hc

theorem strips_root (n : Node) : (root n).Strips (root n.bare) := ⟨rfl, rfl⟩

end Site

/-! ## Metrics -/

/-- The metrics with some points more for each function. -/
def FileMetrics.raised (m : FileMetrics) (points : List Int) : FileMetrics :=
  { m with functions := List.zipWith FunctionRecord.raised m.functions points }

theorem FunctionRecord.raised_raised (r : FunctionRecord) (a b : Int) : (r.raised a).raised (b - a) = r.raised b := by
  have hsum : r.complexity + a + (b - a) = r.complexity + b := by omega
  unfold raised
  rw [hsum]

theorem FileMetrics.raised_raised (m : FileMetrics) {a b : List Int} (h : a.length = b.length) :
    (m.raised a).raised (List.zipWith (· - ·) b a) = m.raised b := by
  have hall : ∀ (rs : List FunctionRecord) (a b : List Int), a.length = b.length →
      List.zipWith FunctionRecord.raised (List.zipWith FunctionRecord.raised rs a) (List.zipWith (· - ·) b a) =
        List.zipWith FunctionRecord.raised rs b := by
    intro rs
    induction rs with
    | nil => exact fun _ _ _ => rfl
    | cons r rs ih =>
      intro a b hab
      cases a with
      | nil =>
        rw [List.eq_nil_of_length_eq_zero hab.symm]
        rfl
      | cons x a =>
        obtain ⟨y, b, rfl⟩ := List.exists_cons_of_length_eq_add_one hab.symm
        simp only [List.zipWith_cons_cons, FunctionRecord.raised_raised, ih a b (by simpa using hab)]
  unfold raised
  rw [hall m.functions a b h]

namespace Tree

variable {src : Source}

/-- The elses that comments hide in a tree, function by function. -/
def hiddenElses (n : Node) : List Int := (Site.root n).functions.map fun f => (f.hiddenElses : Int)

theorem length_hiddenElses (n : Node) : (hiddenElses n).length = (Site.root n.bare).functions.length := by
  rw [hiddenElses, List.length_map, (Site.strips_root n).functions.length_eq]

theorem records_bare (n : Node) : records ⟨src, some n⟩ =
    (records ⟨src, some n.bare⟩).map fun rs => List.zipWith FunctionRecord.raised rs (hiddenElses n) := by
  cases hn : n.isWalkable with
  | false => rw [records_eq_error hn, records_eq_error (by rw [isWalkable_bare, hn]), Except.map]
  | true =>
    have hb : n.bare.isWalkable = true := by rw [isWalkable_bare, hn]
    have hwalkable : ∀ f ∈ (Site.root n).functions, f.node.isWalkable = true := fun f hf =>
      Site.isWalkable_of_mem_functions hn hf
    have hboth := (List.forall₂_and_left _ _).2 ⟨hwalkable, (Site.strips_root n).functions⟩
    rw [records_eq hn, records_eq hb, hiddenElses]
    exact Outcome.mapM_eq_map_zipWith (hboth.imp fun f f' ⟨hf, hs⟩ => hs.record_eq src hf)

theorem metrics_bare (n : Node) (source : Script) (path : String) : metrics ⟨src, some n⟩ source path =
    (metrics ⟨src, some n.bare⟩ source path).map (·.raised (hiddenElses n)) := by
  rw [metrics, metrics, records_bare n]
  cases source.encode with
  | error e => rfl
  | ok text => cases records ⟨src, some n.bare⟩ <;> rfl

/-- **Where comments hide the same elses, they do not change the metrics.** -/
theorem metrics_eq_of_annotates {n n' : Node} (h : Relation.ReflTransGen Annotates n n')
    (hhidden : hiddenElses n' = hiddenElses n) (source : Script) (path : String) :
    metrics ⟨src, some n'⟩ source path = metrics ⟨src, some n⟩ source path := by
  rw [metrics_bare n', metrics_bare n, bare_eq_of_annotates h, hhidden]

/-- **Comments change the metrics only by the elses that they hide**: wherever comments are put, and however many, all
stays the same but that a function's complexity is a point more for each conditional of its own whose else has come to
be hidden. -/
theorem metrics_of_annotates {n n' : Node} (h : Relation.ReflTransGen Annotates n n') (source : Script)
    (path : String) : metrics ⟨src, some n'⟩ source path = (metrics ⟨src, some n⟩ source path).map fun m =>
      m.raised (List.zipWith (· - ·) (hiddenElses n') (hiddenElses n)) := by
  have hlength : (hiddenElses n).length = (hiddenElses n').length := by
    rw [length_hiddenElses, length_hiddenElses, bare_eq_of_annotates h]
  rw [metrics_bare n', metrics_bare n, bare_eq_of_annotates h]
  cases metrics ⟨src, some n'.bare⟩ source path with
  | error r => rfl
  | ok m => simp only [Except.map, m.raised_raised hlength]

/-- A conditional with another one in its else, in a function; something may stand in front of each. -/
def chain (front : List Node) : Node :=
  .plain "function_declaration" none
    (front ++ [.plain "if_statement" none
      [.plain "else_clause" (some "alternative") (front ++ [.plain "if_statement" none []])]])

/-- A comment of the second type in front of both conditionals: the one in the else costs a point. -/
theorem metrics_of_annotates_chain :
    Relation.ReflTransGen Annotates (chain []) (chain [.plain "html_comment" none []]) ∧
      hiddenElses (chain []) = [0] ∧ hiddenElses (chain [.plain "html_comment" none []]) = [1] ∧
      metrics ⟨.ofString "f", some (chain [])⟩ "f" "f.js" = .ok ⟨1, 1, [⟨"anonymous", 1, 2, some 1, some 1⟩]⟩ ∧
      metrics ⟨.ofString "f", some (chain [.plain "html_comment" none []])⟩ "f" "f.js" =
        .ok ⟨1, 1, [⟨"anonymous", 1, 3, some 1, some 1⟩]⟩ := by
  have inside : Annotates (chain []) (.plain "function_declaration" none [.plain "if_statement" none
      [.plain "else_clause" (some "alternative") [.plain "html_comment" none [], .plain "if_statement" none []]]]) :=
    @Annotates.inner _ [] _ _ _ (@Annotates.inner _ [] _ _ _ (@Annotates.here _ _ [] _ rfl))
  have front : Annotates _ (chain [.plain "html_comment" none []]) :=
    @Annotates.here _ _ [] _ rfl
  have h := (Relation.ReflTransGen.single inside).tail front
  have hhidden : hiddenElses (chain []) = [0] ∧ hiddenElses (chain [.plain "html_comment" none []]) = [1] := by
    decide +kernel
  have hbefore : metrics ⟨.ofString "f", some (chain [])⟩ "f" "f.js" =
      .ok ⟨1, 1, [⟨"anonymous", 1, 2, some 1, some 1⟩]⟩ := by
    decide +kernel
  refine ⟨h, hhidden.1, hhidden.2, hbefore, ?_⟩
  rw [metrics_of_annotates h, hbefore, hhidden.1, hhidden.2]
  rfl

end Tree
end Cognitive
