import Cognitive.Proofs.Scoring.Run
import Cognitive.Proofs.Tree.Region
/-!
# What a score depends on

A score reads the function's own region and nothing else (`Site.score_eq_of_ownRegion_eq`).  Two walks over equal
regions go in lockstep: they see sites that agree (`Site.Agrees`), under ancestors that agree as far up as the function
(`ContextsAgree`), and each step keeps that so (`Walk.step_agrees`).  No rule looks past the function, because none of
what the rules look for further up is a function, and none looks into a function inside.
-/
namespace Cognitive

section

variable {src src' : Source}

/-! ## Sites that agree -/

/-- Two lists of ancestors, nearest first, agree as far up as a function that each has at the same place. -/
inductive ContextsAgree (src src' : Source) : List Node → List Node → Prop where
  | function {n n' : Node} {up up' : List Node} (hn : n.isFunctionLike = true) (hn' : n'.isFunctionLike = true) :
      ContextsAgree src src' (n :: up) (n' :: up')
  | inside {n n' : Node} {up up' : List Node} (h : n.Agrees src src' n') (hn : n.isFunctionLike = false)
      (hup : ContextsAgree src src' up up') : ContextsAgree src src' (n :: up) (n' :: up')

namespace Site

/-- Two sites agree: their nodes do, and their ancestors as far up as a function. -/
structure Agrees (src src' : Source) (s s' : Site) : Prop where
  node : s.node.Agrees src src' s'.node
  up : ContextsAgree src src' s.up s'.up

theorem map_node_find? (s : Site) (p : Node → Bool) :
    (s.children.find? fun c => p c.node).map (·.node) = s.node.children.find? p := by
  rw [← map_node_children, List.find?_map]
  rfl

theorem map_node_beyondParentheses : ∀ (up : List Node) (address : List Nat),
    (beyondParentheses up address).map (·.node) = up.find? fun n => !n.isParenthesized
  | [], _ => rfl
  | n :: rest, address => by
    rw [beyondParentheses, List.find?_cons]
    cases n.isParenthesized
    · rfl
    · exact map_node_beyondParentheses rest address.tail

theorem continuesRun_eq (s : Site) :
    s.continuesRun = match s.up.find? fun n => !n.isParenthesized with
      | some p => p.kind == .logical && p.logicalOperator? == s.node.logicalOperator?
      | none => false := by
  rw [← map_node_beyondParentheses s.up s.address, continuesRun, expressionParent?]
  cases beyondParentheses s.up s.address <;> rfl

def branchOf (clause : Option Node) : Option Node :=
  clause.bind fun clause =>
    if clause.type = "else_clause" then clause.children.find? fun c => c.label.named && c.type != "comment"
    else some clause

theorem map_node_elseBranch? (s : Site) :
    s.elseBranch?.map (·.node) = branchOf (s.node.child? "alternative") := by
  have hc : (s.child? "alternative").map (·.node) = s.node.child? "alternative" :=
    map_node_find? s fun c => c.label.field == some "alternative"
  rw [← hc, elseBranch?]
  cases s.child? "alternative" with
  | none => rfl
  | some clause =>
    simp only [Option.map_some, branchOf, Option.bind_some]
    split
    · exact map_node_find? clause fun c => c.label.named && c.type != "comment"
    · rfl

theorem hasPlainElse_eq (s : Site) :
    s.hasPlainElse = match branchOf (s.node.child? "alternative") with
      | some branch => branch.kind != .conditional
      | none => false := by
  rw [← map_node_elseBranch?, hasPlainElse]
  cases s.elseBranch? <;> rfl

namespace Agrees

variable {src src' : Source} {s s' : Site} (h : s.Agrees src src' s')
include h

/-- Neither the function nor what is around it is an else or a conditional around a site inside. -/
theorem isElseIf_eq : s.isElseIf = s'.isElseIf := by
  obtain ⟨-, hup⟩ := h
  unfold isElseIf
  generalize s.up = up, s'.up = up' at hup
  cases hup with
  | @function n n' up up' hn hn' =>
    have hc := Node.type_beq_of_isFunctionLike hn "else_clause" rfl
    have hc' := Node.type_beq_of_isFunctionLike hn' "else_clause" rfl
    cases up <;> cases up' <;> simp [hc, hc']
  | inside hc _ hup =>
    cases hup with
    | function hn hn' =>
      simp [Node.kind_beq_of_isFunctionLike hn .conditional rfl, Node.kind_beq_of_isFunctionLike hn' .conditional rfl]
    | inside ho _ _ => simp [hc.type_eq, ho.kind_eq]

/-- A run of an operator ends at the function, which is no pair of parentheses and no logical expression. -/
theorem continuesRun_eq (hs : s.node.isFunctionLike = false) : s.continuesRun = s'.continuesRun := by
  obtain ⟨hnode, hup⟩ := h
  rw [Site.continuesRun_eq, Site.continuesRun_eq, hnode.logicalOperator?_eq hs]
  generalize s.up = up, s'.up = up' at hup
  induction hup with
  | function hn hn' =>
    have hp := Node.type_beq_of_isFunctionLike hn "parenthesized_expression" rfl
    have hp' := Node.type_beq_of_isFunctionLike hn' "parenthesized_expression" rfl
    have hk := Node.kind_beq_of_isFunctionLike hn .logical rfl
    have hk' := Node.kind_beq_of_isFunctionLike hn' .logical rfl
    simp [Node.isParenthesized, hp, hp', hk, hk']
  | @inside n n' up up' ho hon _ ih =>
    have hp : n.isParenthesized = n'.isParenthesized := by
      rw [Node.isParenthesized, Node.isParenthesized, ho.type_eq]
    rw [List.find?_cons, List.find?_cons, hp]
    cases n'.isParenthesized with
    | true => exact ih
    | false => simp only [Bool.not_false, ho.kind_eq, ho.logicalOperator?_eq hon]

variable (hs : s.node.isFunctionLike = false)
include hs

theorem hasPlainElse_eq : s.hasPlainElse = s'.hasPlainElse := by
  have hc := h.node.child? hs "alternative"
  rw [Site.hasPlainElse_eq, Site.hasPlainElse_eq]
  generalize s.node.child? "alternative" = clause, s'.node.child? "alternative" = clause' at hc
  have hb : Option.Rel (Node.Agrees src src') (branchOf clause) (branchOf clause') := by
    cases hc with
    | none => exact .none
    | @some a b hab =>
      rw [branchOf, branchOf, Option.bind_some, Option.bind_some, hab.type_eq]
      split
      · rename_i ht
        have hn : a.isFunctionLike = false := by
          rw [Node.isFunctionLike_eq, hab.type_eq, ht]
          exact Bool.and_false _
        exact Node.rel_find? (fun a b hab => by rw [hab.named_eq, hab.type_eq]) (hab.parts hn).2.2
      · exact .some hab
  generalize branchOf clause = branch, branchOf clause' = branch' at hb
  cases hb with
  | none => rfl
  | some hab => simp only [hab.kind_eq]

/-- The text is read of a plain name only, which is an identifier and so no function. -/
theorem plainCallee? : Option.Rel (fun a b => a.text src = b.text src') s.plainCallee? s'.plainCallee? := by
  have hcallee := h.node.child? hs "function"
  have harguments := h.node.child? hs "arguments"
  have hchain := Node.all_eq_of_rel (p := fun c => c.type != "optional_chain") (fun a b hab => by rw [hab.type_eq])
    (h.node.parts hs).2.2
  unfold Site.plainCallee?
  rw [hchain]
  generalize s.node.child? "function" = callee, s'.node.child? "function" = callee' at hcallee
  generalize s.node.child? "arguments" = arguments, s'.node.child? "arguments" = arguments' at harguments
  cases hcallee with
  | none => exact .none
  | @some a b hab =>
    cases harguments with
    | none => exact .none
    | some hcd =>
      simp only [hab.type_eq, hcd.type_eq]
      split
      · rename_i hplain
        have hi := hab.type_eq.trans hplain.1
        have hn : a.isFunctionLike = false := by
          rw [Node.isFunctionLike_eq, hi]
          exact Bool.and_false _
        exact .some ((hab.parts hn).1 hi)
      · exact .none

theorem callsName_eq (name : Option String) : s.callsName src name = s'.callsName src' name := by
  have hc := h.plainCallee? hs
  unfold callsName
  generalize s.plainCallee? = callee, s'.plainCallee? = callee' at hc
  cases name with
  | none => rfl
  | some called =>
    cases hc with
    | none => rfl
    | some hab => simp only [hab]

theorem effect_eq (name : Option String) (nesting : Int) :
    s.effect src name nesting = s'.effect src' name nesting := by
  unfold effect
  have hl : (s.node.child? "label").isSome = (s'.node.child? "label").isSome := by
    have hc := h.node.child? hs "label"
    generalize s.node.child? "label" = label, s'.node.child? "label" = label' at hc
    cases hc <;> rfl
  rw [h.node.kind_eq, h.isElseIf_eq, h.hasPlainElse_eq hs, h.continuesRun_eq hs, h.callsName_eq hs, hl]

end Agrees

theorem children_agree {s s' : Site} (hnodes : List.Forall₂ (Node.Agrees src src') s.node.children s'.node.children)
    (hup : ContextsAgree src src' (s.node :: s.up) (s'.node :: s'.up)) :
    List.Forall₂ (Agrees src src') s.children s'.children := by
  refine (children_rel hnodes).imp fun c c' hc => ⟨hc.1, ?_⟩
  rw [hc.2.1, hc.2.2]
  exact hup

end Site

/-! ## Walks in lockstep -/

inductive Work.Agrees (src src' : Source) : Work → Work → Prop where
  | enter {s s' : Site} (h : s.Agrees src src' s') : Work.Agrees src src' (.enter s) (.enter s')
  | close (levels : Int) : Work.Agrees src src' (.close levels) (.close levels)

namespace Walk

structure Agrees (src src' : Source) (w w' : Walk) : Prop where
  points : w.points = w'.points
  nesting : w.nesting = w'.nesting
  pending : List.Forall₂ (Work.Agrees src src') w.pending w'.pending

theorem enterAll_agree {l l' : List Site} (h : List.Forall₂ (Site.Agrees src src') l l') :
    List.Forall₂ (Work.Agrees src src') (l.map .enter) (l'.map .enter) := by
  rw [List.forall₂_map_left_iff, List.forall₂_map_right_iff]
  exact h.imp fun _ _ hab => .enter hab

variable (name : Option String) {w w' : Walk}

/-- **A step keeps walks in agreement**, or stops both. -/
theorem step_agrees (h : w.Agrees src src' w') {t t' : Work} {rest rest' : List Work} (ht : t.Agrees src src' t')
    (hrest : List.Forall₂ (Work.Agrees src src') rest rest') :
    (∃ v v', w.step src name rest t = .ok v ∧ w'.step src' name rest' t' = .ok v' ∧ v.Agrees src src' v') ∨
      ∃ fault, w.step src name rest t = .error fault ∧ w'.step src' name rest' t' = .error fault := by
  obtain ⟨hpoints, hnesting, -⟩ := h
  cases ht with
  | close levels =>
    exact .inl ⟨_, _, rfl, rfl, hpoints, by rw [hnesting], hrest⟩
  | @enter s s' hs =>
    have hfun := hs.node.isFunctionLike_eq
    cases hf : s.node.isFunctionLike with
    | true =>
      rw [hf] at hfun
      exact .inl ⟨_, _, step_skip _ _ w rest hf, step_skip _ _ w' rest' hfun.symm, hpoints, hnesting, hrest⟩
    | false =>
      have hf' := hfun.symm.trans hf
      obtain ⟨-, hknown, hchildren⟩ := hs.node.parts hf
      cases hk : s.node.label.childrenKnown with
      | true =>
        refine .inl ⟨_, _, step_enter _ _ w rest hf hk, step_enter _ _ w' rest' hf' (hknown.symm.trans hk), ?_⟩
        have he := hs.effect_eq hf name w.nesting
        have hc := Site.children_agree hchildren (.inside hs.node hf hs.up)
        simp only [enter, ← hnesting, ← he, ← hpoints]
        exact ⟨rfl, rfl, List.rel_append (enterAll_agree hc) (.cons (.close _) hrest)⟩
      | false =>
        rw [hk] at hknown
        refine .inr ⟨.noChildren, ?_, ?_⟩
        · simp [step, hf, hk]
        · simp [step, hf', ← hknown]

/-- **Walks that agree end alike.** -/
theorem finish_agrees (h : w.Agrees src src' w') :
    (w.finish src name).map (·.points) = (w'.finish src' name).map (·.points) := by
  induction w using finish.induct src name generalizing w' with
  | case1 w hw =>
    have hp := h.pending
    rw [hw, List.forall₂_nil_left_iff] at hp
    rw [finish_done hw, finish_done hp]
    exact congrArg Except.ok h.points
  | case2 w t rest hw fault hs =>
    have hp := h.pending
    rw [hw, List.forall₂_cons_left_iff] at hp
    obtain ⟨t', rest', ht, hrest, hw'⟩ := hp
    obtain ⟨v, v', hv, -, -⟩ | ⟨fault', hs₁, hs'⟩ := step_agrees name h ht hrest
    · rw [hs] at hv
      cases hv
    · rw [hs] at hs₁
      cases hs₁
      rw [finish_fault hw hs, finish_fault hw' hs']
  | case3 w t rest hw v hs ih =>
    have hp := h.pending
    rw [hw, List.forall₂_cons_left_iff] at hp
    obtain ⟨t', rest', ht, hrest, hw'⟩ := hp
    obtain ⟨v₁, v', hs₁, hs', hv⟩ | ⟨fault', hs₁, -⟩ := step_agrees name h ht hrest
    · rw [hs] at hs₁
      cases hs₁
      rw [finish_next hw hs, finish_next hw' hs', ih hv]
    · rw [hs] at hs₁
      cases hs₁

end Walk

namespace Site

/-- **A score depends on the function's own region alone**, besides the nesting and the name that are given. -/
theorem score_eq_of_ownRegion_eq (src src' : Source) (f f' : Site) (hf : f.node.isFunctionLike = true)
    (hf' : f'.node.isFunctionLike = true) (h : f.node.ownRegion src = f'.node.ownRegion src') (nesting : Int)
    (name : Option String) : f.score src nesting name = f'.score src' nesting name := by
  rw [Node.ownRegion, Node.ownRegion, Prod.mk.injEq, Node.regions_eq_map, Node.regions_eq_map] at h
  obtain ⟨hknown, hparts⟩ := h
  have hstart : (Walk.start f nesting).Agrees src src' (Walk.start f' nesting) :=
    ⟨rfl, rfl, Walk.enterAll_agree (children_agree (Node.forall₂_agrees hparts) (.function hf hf'))⟩
  rw [score, score, hknown, Walk.finish_agrees name hstart]

/-- A run of an operator, a call by name, and a function inside that holds some nodes. -/
def runAndCall (inside : List Node) : List Node :=
  [.plain "binary_expression" none [.plain "&&" (some "operator") []],
   .plain "call_expression" none [.plain "identifier" (some "function") [], .plain "arguments" (some "arguments") []],
   .plain "arrow_function" none inside]

/-- A function at the root, and a method in a run of the same operator with more in the function inside. -/
theorem score_eq_of_ownRegion_eq_runAndCall :
    let f : Site := .root (.plain "function_declaration" none (runAndCall []))
    let method : Node := .plain "method_definition" none (runAndCall [.plain "while_statement" none []])
    let f' : Site := ⟨method, [.plain "binary_expression" none [.plain "&&" (some "operator") [], method]], [1]⟩
    f.node.isFunctionLike = true ∧ f'.node.isFunctionLike = true ∧
      f.node.ownRegion (.ofString "f") = f'.node.ownRegion (.ofString "f()") ∧
      f.score (.ofString "f") 2 (some "f") = f'.score (.ofString "f()") 2 (some "f") :=
  have h : (Node.plain "function_declaration" none (runAndCall [])).ownRegion (.ofString "f") =
      (Node.plain "method_definition" none (runAndCall [.plain "while_statement" none []])).ownRegion
        (.ofString "f()") := by
    rfl
  ⟨by decide, by decide, h, score_eq_of_ownRegion_eq _ _ _ _ (by decide) (by decide) h 2 (some "f")⟩

end Site
end

end Cognitive
