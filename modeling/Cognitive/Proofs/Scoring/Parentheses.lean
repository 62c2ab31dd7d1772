import Cognitive.Proofs.Outcome
import Cognitive.Proofs.Scoring.Lockstep
import Cognitive.Proofs.Scoring.Records
import Cognitive.Proofs.Tree.Parentheses
/-!
# Parentheses do not change the metrics

A tree and the same tree with one more pair of parentheses around an expression have the same metrics
(`Tree.metrics_parenthesizes`).  The sites of the two trees are set side by side with all their ancestors
(`LineagesMatch`): the second has the parentheses as a site and as an ancestor besides, directly above an expression.
Every rule that looks outward either looks through parentheses, or looks at the parent of a node that is no such
expression, or counts ancestors that parentheses are not among; the parentheses themselves cost nothing, open no level
and are no function.
-/
namespace Cognitive

open Node

/-- Two nodes with their ancestors, nearest first, match but for pairs of parentheses in the second list, each directly
above an expression. -/
inductive LineagesMatch : List Node → List Node → Prop where
  | nil : LineagesMatch [] []
  | plain {n n' : Node} {up up' : List Node} (h : n.Matches n') (hup : LineagesMatch up up') :
      LineagesMatch (n :: up) (n' :: up')
  | enclosed {n n' p : Node} {up up' : List Node} (hn : n.kind.isEnclosable = true) (h : n.Matches n')
      (hp : p.isParenthesized = true) (hup : LineagesMatch up up') : LineagesMatch (n :: up) (n' :: p :: up')

namespace LineagesMatch

theorem of_cons {n n' : Node} {up up' : List Node} (h : LineagesMatch (n :: up) (n' :: up')) : n.Matches n' ∧
    (LineagesMatch up up' ∨ (n.kind.isEnclosable = true ∧
      ∃ p rest, up' = p :: rest ∧ p.isParenthesized = true ∧ LineagesMatch up rest)) := by
  cases h with
  | plain h hup => exact ⟨h, .inl hup⟩
  | enclosed hn h hp hup => exact ⟨h, .inr ⟨hn, _, _, rfl, hp, hup⟩⟩

variable {up up' : List Node} (h : LineagesMatch up up')
include h

/-- Looking through parentheses finds nodes that match. -/
theorem find? : Option.Rel Matches (up.find? fun n => !n.isParenthesized) (up'.find? fun n => !n.isParenthesized) := by
  induction h with
  | nil => exact .none
  | @plain n n' up up' h _ ih =>
    rw [List.find?_cons, List.find?_cons, h.isParenthesized_eq]
    cases n'.isParenthesized with
    | true => exact ih
    | false => exact .some h
  | @enclosed n n' p up up' _ h hp _ ih =>
    rw [List.find?_cons, List.find?_cons, h.isParenthesized_eq]
    cases n'.isParenthesized with
    | true =>
      rw [List.find?_cons, hp]
      exact ih
    | false => exact .some h

/-- Parentheses deepen nothing. -/
theorem countP_deepens : up.countP (fun n => n.kind.deepens) = up'.countP fun n => n.kind.deepens := by
  induction h with
  | nil => rfl
  | plain h _ ih => rw [List.countP_cons, List.countP_cons, h.kind_eq, ih]
  | enclosed _ h hp _ ih =>
    rw [List.countP_cons, List.countP_cons, List.countP_cons, h.kind_eq, ih, kind_of_isParenthesized hp]
    rfl

end LineagesMatch

namespace Site

def Matches (s s' : Site) : Prop := LineagesMatch (s.node :: s.up) (s'.node :: s'.up)

/-- The sites match, or the second is a pair of parentheses that holds a site which the first matches. -/
def Alike (s s' : Site) : Prop :=
  s.Matches s' ∨ ∃ c, s'.children = [c] ∧ s'.node.isParenthesized = true ∧ s.Matches c

namespace Matches

variable {s s' : Site} (h : s.Matches s')
include h

theorem node : s.node.Matches s'.node := (LineagesMatch.of_cons h).1

theorem up_cases : LineagesMatch s.up s'.up ∨ (s.node.kind.isEnclosable = true ∧
    ∃ p up', s'.up = p :: up' ∧ p.isParenthesized = true ∧ LineagesMatch s.up up') := (LineagesMatch.of_cons h).2

theorem find?_up : Option.Rel Node.Matches (s.up.find? fun n => !n.isParenthesized)
    (s'.up.find? fun n => !n.isParenthesized) := by
  rcases h.up_cases with hup | ⟨-, p, up', hs, hp, hup⟩
  · exact hup.find?
  · rw [hs, List.find?_cons, hp]
    exact hup.find?

theorem baseNesting_eq : s.baseNesting = s'.baseNesting := by
  unfold baseNesting
  rcases h.up_cases with hup | ⟨-, p, up', hs, hp, hup⟩
  · exact hup.countP_deepens
  · rw [hs, List.countP_cons, kind_of_isParenthesized hp, hup.countP_deepens]
    rfl

/-- Only an expression has new parentheses above it, and neither it nor what is directly in it is the conditional of an
else. -/
theorem isElseIf_eq (hk : s.node.kind.isEnclosable = false) : s.isElseIf = s'.isElseIf := by
  rcases h.up_cases with hup | ⟨hn, -⟩
  · unfold isElseIf
    generalize s.up = up, s'.up = up' at hup
    cases hup with
    | nil => rfl
    | plain hclause hup =>
      cases hup with
      | nil => rfl
      | plain houter _ => simp only [hclause.type_eq, houter.kind_eq]
      | enclosed _ houter _ _ => simp only [hclause.type_eq, houter.kind_eq]
    | @enclosed n n' p up up' hn hclause _ _ =>
      have hne : (n.type == "else_clause") = false :=
        beq_eq_false_iff_ne.2 (type_ne_of_isEnclosable hn (by decide))
      have hne' : (n'.type == "else_clause") = false := hclause.type_eq ▸ hne
      cases up with
      | nil => simp only [hne', Bool.false_and]
      | cons _ _ => simp only [hne, hne', Bool.false_and]
  · rw [hk] at hn
    cases hn

theorem continuesRun_eq : s.continuesRun = s'.continuesRun := by
  have hup := h.find?_up
  rw [Site.continuesRun_eq, Site.continuesRun_eq, h.node.logicalOperator?_eq]
  generalize (s.up.find? fun n => !n.isParenthesized) = parent, (s'.up.find? fun n => !n.isParenthesized) = parent'
    at hup
  cases hup with
  | none => rfl
  | some hp => simp only [hp.kind_eq, hp.logicalOperator?_eq]

theorem hasPlainElse_eq : s.hasPlainElse = s'.hasPlainElse := by
  have hc := h.node.child? "alternative"
  rw [Site.hasPlainElse_eq, Site.hasPlainElse_eq]
  generalize s.node.child? "alternative" = clause, s'.node.child? "alternative" = clause' at hc
  have hb : Option.Rel Node.Alike (branchOf clause) (branchOf clause') := by
    cases hc with
    | none => exact .none
    | @some a b hab =>
      have helse := hab.type_eq_iff (by decide : isApart "else_clause" = true)
      rw [branchOf, branchOf, Option.bind_some, Option.bind_some]
      by_cases ha : a.type = "else_clause"
      · rw [if_pos ha, if_pos (helse.1 ha)]
        rcases hab.cases with ⟨-, hm⟩ | ⟨hn, -⟩
        · exact rel_find? (fun c c' hc => by
            rw [hc.named_eq, bne, bne, hc.type_beq (by decide : isApart "comment" = true)]) hm.children
        · exact absurd ha (type_ne_of_isEnclosable hn (by decide))
      · rw [if_neg ha, if_neg fun hb => ha (helse.2 hb)]
        exact .some hab
  generalize branchOf clause = branch, branchOf clause' = branch' at hb
  cases hb with
  | none => rfl
  | some hab => simp only [bne, hab.kind_beq (rfl : Kind.isEnclosable .conditional = false) (by decide)]

theorem plainCallee? (src : Source) :
    Option.Rel (fun a b => a.text src = b.text src) s.plainCallee? s'.plainCallee? := by
  have hcallee := h.node.child? "function"
  have harguments := h.node.child? "arguments"
  have hchain : s.node.children.all (fun c => c.type != "optional_chain") =
      s'.node.children.all fun c => c.type != "optional_chain" :=
    all_eq_of_rel (fun a b hab => by rw [bne, bne, hab.type_beq (by decide : isApart "optional_chain" = true)])
      h.node.children
  unfold Site.plainCallee?
  rw [hchain]
  generalize s.node.child? "function" = callee, s'.node.child? "function" = callee' at hcallee
  generalize s.node.child? "arguments" = arguments, s'.node.child? "arguments" = arguments' at harguments
  cases hcallee with
  | none => exact .none
  | some hab =>
    cases harguments with
    | none => exact .none
    | some hcd =>
      simp only [hab.type_eq_iff (by decide : isApart "identifier" = true),
        hcd.type_eq_iff (by decide : isApart "arguments" = true)]
      split
      · exact .some (hab.text_eq src)
      · exact .none

theorem callsName_eq (src : Source) (name : Option String) : s.callsName src name = s'.callsName src name := by
  have hc := h.plainCallee? src
  unfold callsName
  generalize s.plainCallee? = callee, s'.plainCallee? = callee' at hc
  cases name with
  | none => rfl
  | some called =>
    cases hc with
    | none => rfl
    | some hab => simp only [hab]

theorem effect_eq (src : Source) (name : Option String) (nesting : Int) :
    s.effect src name nesting = s'.effect src name nesting := by
  have hl : (s.node.child? "label").isSome = (s'.node.child? "label").isSome := by
    have hc := h.node.child? "label"
    generalize s.node.child? "label" = label, s'.node.child? "label" = label' at hc
    cases hc <;> rfl
  unfold effect
  rw [h.node.kind_eq, h.hasPlainElse_eq, h.continuesRun_eq, h.callsName_eq, hl]
  cases hk : s'.node.kind with
  | conditional =>
    have hc : s.node.kind.isEnclosable = false := by
      rw [h.node.kind_eq, hk]
      rfl
    rw [h.isElseIf_eq hc]
  | _ => rfl

end Matches

/-! ## The children of sites that match -/

theorem Matches.children {s s' : Site} (h : s.Matches s') : List.Forall₂ Alike s.children s'.children := by
  refine (children_rel h.node.children).imp ?_
  rintro c c' ⟨hc, hup, hup'⟩
  rcases hc.cases with ⟨-, hm⟩ | ⟨hn, missing, erroneous, hp⟩
  · left
    unfold Matches
    rw [hup, hup']
    exact .plain hm h
  · refine .inr ⟨⟨c.node.unfielded, c'.node :: c'.up, 0 :: c'.address⟩, ?_, ?_, ?_⟩
    · unfold Site.children
      rw [hp]
      rfl
    · rw [hp]
      rfl
    · unfold Matches
      rw [hup, hup']
      exact .enclosed hn c.node.matches_unfielded (by rw [hp]; rfl) h

/-- Where all sites that match agree, so do alike sites, when parentheses agree with what they hold. -/
theorem Alike.elim {motive : Site → Prop} {s s' : Site} (h : s.Alike s') (matching : ∀ c, s.Matches c → motive c)
    (holds : ∀ c, s'.children = [c] → s'.node.isParenthesized = true → motive c → motive s') : motive s' := by
  rcases h with h | ⟨c, hc, hp, h⟩
  · exact matching s' h
  · exact holds c hc hp (matching c h)

/-! ## Costs -/

section

variable (src : Source) (name : Option String)

/-- Parentheses cost what they hold costs. -/
theorem cost_visits_of_isParenthesized {s c : Site} (hc : s.children = [c]) (hp : s.node.isParenthesized = true)
    (nesting : Int) : cost src name (s.visits nesting) = cost src name (c.visits nesting) := by
  have hk := kind_of_isParenthesized hp
  have hpoints : (s.effect src name nesting).points = 0 := by
    rw [effect, hk]
  have hopened : pointIf s.opensLevel = 0 := by
    rw [opensLevel, hk]
    rfl
  rw [visits_eq, isFunctionLike_of_isParenthesized hp, if_neg Bool.false_ne_true, cost_cons, hpoints, hopened, hc,
    Int.add_zero, Int.zero_add, List.flatMap_singleton]

theorem Matches.cost_children {s s' : Site} (h : s.Matches s') (nesting : Int)
    (ih : ∀ c ∈ s.children, ∀ c', c.Matches c' →
      cost src name (c.visits nesting) = cost src name (c'.visits nesting)) :
    cost src name (s.children.flatMap fun c => c.visits nesting) =
      cost src name (s'.children.flatMap fun c => c.visits nesting) := by
  rw [cost_flatMap, cost_flatMap]
  refine congrArg List.sum (map_eq_map_of_forall₂ ?_)
  refine ((List.forall₂_and_left _ _).2 ⟨fun c hc => hc, h.children⟩).imp fun c c' hc => ?_
  refine hc.2.elim (ih c hc.1) fun d hd hp heq => ?_
  rw [heq, cost_visits_of_isParenthesized src name hd hp]

/-- **Sites that match cost the same**, with all below them. -/
theorem Matches.cost_visits_eq {s s' : Site} (h : s.Matches s') (nesting : Int) :
    cost src name (s.visits nesting) = cost src name (s'.visits nesting) := by
  induction s using children_induction generalizing s' nesting with
  | step s ih =>
    have heffect := h.effect_eq src name nesting
    have hopened : pointIf s.opensLevel = pointIf s'.opensLevel := by
      rw [← effect_opened src name s nesting, heffect, effect_opened]
    rw [visits_eq, visits_eq, h.node.isFunctionLike_eq]
    split
    · rfl
    · rw [cost_cons, cost_cons, heffect, hopened]
      exact congrArg _ (h.cost_children src name _ fun c hc c' h' => ih c hc h' _)

theorem Matches.score_eq {s s' : Site} (h : s.Matches s') (hs : s.node.isWalkable = true) (nesting : Int) :
    s.score src nesting name = s'.score src nesting name := by
  rw [score_eq_cost src s nesting name hs, score_eq_cost src s' nesting name (h.node.isWalkable_eq ▸ hs),
    h.cost_children src name nesting fun c _ c' h' => h'.cost_visits_eq src name nesting]

end

/-! ## Records -/

theorem identifierText?_eq (src : Source) {o o' : Option Node} (h : Option.Rel Node.Alike o o') :
    identifierText? src o = identifierText? src o' := by
  cases h with
  | none => rfl
  | @some a b hab =>
    have hk := hab.kind_beq (rfl : Kind.isEnclosable .identifier = false) (by decide)
    have hiff : a.kind = .identifier ↔ b.kind = .identifier := by
      rw [← beq_iff_eq, hk, beq_iff_eq]
    simp only [identifierText?, hiff, hab.text_eq src]

variable {s s' : Site} (src : Source)

namespace Matches

variable (h : s.Matches s')
include h

theorem boundName?_eq : s.boundName? src = s'.boundName? src := by
  have hmethod : boundName?.methodKey? src s = boundName?.methodKey? src s' := by
    rw [boundName?.methodKey?, boundName?.methodKey?, h.node.kind_eq, identifierText?_eq src (h.node.child? "name")]
  have hup := h.find?_up
  rw [boundName?_eq_of_expressionParent, boundName?_eq_of_expressionParent, hmethod]
  generalize (s.up.find? fun n => !n.isParenthesized) = parent, (s'.up.find? fun n => !n.isParenthesized) = parent'
    at hup
  cases hup with
  | none => rfl
  | some hp =>
    simp only [hp.kind_eq, identifierText?_eq src (hp.child? "name"), identifierText?_eq src (hp.child? "key")]

theorem displayName_eq : s.displayName src = s'.displayName src := by
  have hname : s.name? src = s'.name? src := by
    have hc := h.node.child? "name"
    unfold name?
    rw [h.node.kind_eq, h.boundName?_eq src]
    generalize s.node.child? "name" = own, s'.node.child? "name" = own' at hc
    cases hc with
    | none => rfl
    | some hab =>
      cases s'.node.kind with
      | function => exact congrArg some (hab.text_eq src)
      | _ => rfl
  rw [displayName, displayName, hname]

/-- **Functions that match have the same record.** -/
theorem record_eq (hs : s.node.isWalkable = true) : s.record src = s'.record src := by
  have htext : s.node.rangeText src = s'.node.rangeText src :=
    h.node.of_label (fun l => src.text l.start l.stop) fun _ => rfl
  have hstart : s.node.startPoint? src = s'.node.startPoint? src :=
    h.node.of_label (fun l => if l.startKnown then some (src.point l.start) else none) fun _ => rfl
  have hstop : s.node.stopPoint? src = s'.node.stopPoint? src :=
    h.node.of_label (fun l => if l.stopKnown then some (src.point l.stop) else none) fun _ => rfl
  rw [record, record, h.displayName_eq src, h.baseNesting_eq, h.score_eq src _ hs, htext, hstart, hstop]

end Matches

/-! ## The functions of a tree -/

theorem functions_of_isParenthesized {s c : Site} (hc : s.children = [c]) (hp : s.node.isParenthesized = true) :
    s.functions = c.functions := by
  rw [functions_eq, isFunctionLike_of_isParenthesized hp, hc, if_neg Bool.false_ne_true, List.nil_append,
    List.flatMap_singleton]

/-- **The functions below sites that match, match in order.** -/
theorem Matches.functions {s s' : Site} (h : s.Matches s') :
    List.Forall₂ Matches s.functions s'.functions := by
  induction s using children_induction generalizing s' with
  | step s ih =>
    rw [functions_eq, functions_eq, h.node.isFunctionLike_eq]
    refine List.rel_append ?_ ?_
    · split
      · exact .cons h .nil
      · exact .nil
    · refine List.rel_flatMap ((List.forall₂_and_left _ _).2 ⟨fun c hc => hc, h.children⟩) fun c c' hc => ?_
      refine hc.2.elim (fun d hd => ih c hc.1 hd) fun d hd hp hrel => ?_
      rw [functions_of_isParenthesized hd hp]
      exact hrel

end Site
namespace Tree

variable {src : Source}

theorem records_eq_of_matches {n n' : Node} (h : n.Matches n') : records ⟨src, some n⟩ = records ⟨src, some n'⟩ := by
  have hw := h.isWalkable_eq
  cases hn : n.isWalkable with
  | false => rw [records_eq_error hn, records_eq_error (hw ▸ hn)]
  | true =>
    rw [records_eq hn, records_eq (hw ▸ hn)]
    have hroots : (Site.root n).Matches (Site.root n') := .plain h .nil
    have hwalkable : ∀ f ∈ (Site.root n).functions, f.node.isWalkable = true := fun f hf =>
      Site.isWalkable_of_mem_functions hn hf
    refine Outcome.mapM_eq_mapM_of_forall₂ ?_
    exact ((List.forall₂_and_left _ _).2 ⟨hwalkable, hroots.functions⟩).imp fun f f' hf => hf.2.record_eq src hf.1

/-- **Parentheses around an expression do not change the metrics**, wherever below the root it stands. -/
theorem metrics_parenthesizes (l : Label) (before after : List Node) {n n' : Node} (h : n.Parenthesizes n')
    (source : Script) (path : String) : metrics ⟨src, some (.mk l (before ++ n :: after))⟩ source path =
      metrics ⟨src, some (.mk l (before ++ n' :: after))⟩ source path := by
  rw [metrics, metrics, records_eq_of_matches (matches_of_alike (.single h))]

/-- An expression on the left of the operator that it may have itself. -/
def leftOf (left : Node) : Node := .plain "binary_expression" none [left, .plain "&&" (some "operator") []]

def run : Node := .plain "binary_expression" (some "left") [.plain "&&" (some "operator") []]

/-- A function whose body is an expression. -/
def returning (body : Node) : Tree :=
  ⟨.ofString "f", some (.plain "function_declaration" none [.plain "identifier" (some "name") [], body])⟩

/-- A run of one operator costs one point, with or without parentheses in it. -/
theorem metrics_parenthesizes_run : (leftOf run).Parenthesizes (leftOf (run.parenthesized false false)) ∧
    (returning (leftOf run)).metrics "f" "f.js" = .ok ⟨1, 1, [⟨"f", 1, 1, some 1, some 1⟩]⟩ ∧
    (returning (leftOf (run.parenthesized false false))).metrics "f" "f.js" =
      .ok ⟨1, 1, [⟨"f", 1, 1, some 1, some 1⟩]⟩ := by
  have h : (leftOf run).Parenthesizes (leftOf (run.parenthesized false false)) :=
    @Parenthesizes.inner (leftOf run).label [] _ _ _ (.here false false rfl)
  have hrun : (returning (leftOf run)).metrics "f" "f.js" = .ok ⟨1, 1, [⟨"f", 1, 1, some 1, some 1⟩]⟩ := by
    decide +kernel
  exact ⟨h, hrun, (metrics_parenthesizes _ [.plain "identifier" (some "name") []] [] h "f" "f.js").symm.trans hrun⟩

end Tree
end Cognitive
