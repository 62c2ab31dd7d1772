import Cognitive.Proofs.Tree.Below
import Cognitive.Proofs.Tree.Region
/-!
# Parentheses around an expression

Parentheses put around a function, a logical expression, a ternary or a call take its place in its parent and hold
nothing else.  What rules read of a child is its field, whether it is named, its text, and whether it has one of some
types and kinds, none of which is that of the expression or of the parentheses; all this is the same of both
(`Node.Alike`).  So nodes match that have the same label and whose children are alike (`Node.Matches`).
-/
namespace Cognitive

/-- The kinds of the expressions that parentheses are put around. -/
def Kind.isEnclosable : Kind → Bool
  | function | logical | ternary | call => true
  | _ => false

def Label.unfielded (l : Label) : Label := { l with field := none }

namespace Node

def unfielded (n : Node) : Node := .mk n.label.unfielded n.children

/-- A pair of parentheses in the place of a node, with the node inside. -/
def parenthesized (missing erroneous : Bool) (n : Node) : Node :=
  .mk { n.label with type := "parenthesized_expression", named := true, missing, erroneous, childrenKnown := true }
    [n.unfielded]

/-- **The second node is the first with one pair of parentheses more**, around an expression at or below it. -/
inductive Parenthesizes : Node → Node → Prop where
  | here {n : Node} (missing erroneous : Bool) (hn : n.kind.isEnclosable = true) :
      Parenthesizes n (n.parenthesized missing erroneous)
  | inner {l : Label} {before after : List Node} {n n' : Node} (h : Parenthesizes n n') :
      Parenthesizes (.mk l (before ++ n :: after)) (.mk l (before ++ n' :: after))

abbrev Alike : Node → Node → Prop := Relation.ReflGen Parenthesizes

/-- The nodes differ in their fields at most, and their children are alike. -/
structure Matches (n n' : Node) : Prop where
  label : n.label.unfielded = n'.label.unfielded
  children : List.Forall₂ Alike n.children n'.children

theorem forall₂_alike_refl (l : List Node) : List.Forall₂ Alike l l := List.forall₂_refl l

/-- Whatever is read of the label besides the field is the same of nodes that match. -/
theorem Matches.of_label {n n' : Node} (h : n.Matches n') {α : Type} (read : Label → α)
    (hr : ∀ l : Label, read l.unfielded = read l) : read n.label = read n'.label := by
  rw [← hr, h.label, hr]

theorem matches_unfielded (n : Node) : n.Matches n.unfielded := ⟨rfl, forall₂_alike_refl _⟩

theorem matches_of_alike {l : Label} {before after : List Node} {n n' : Node} (h : n.Alike n') :
    Matches (.mk l (before ++ n :: after)) (.mk l (before ++ n' :: after)) :=
  ⟨rfl, List.rel_append (forall₂_alike_refl before) (.cons h (forall₂_alike_refl after))⟩

/-- Alike nodes match in one field, or the second is a pair of parentheses around the first. -/
theorem Alike.cases {n n' : Node} (h : n.Alike n') : (n.label.field = n'.label.field ∧ n.Matches n') ∨
    (n.kind.isEnclosable = true ∧ ∃ missing erroneous, n' = n.parenthesized missing erroneous) := by
  cases h with
  | refl => exact .inl ⟨rfl, rfl, forall₂_alike_refl _⟩
  | single h =>
    cases h with
    | here missing erroneous hn => exact .inr ⟨hn, missing, erroneous, rfl⟩
    | inner h => exact .inl ⟨rfl, matches_of_alike (.single h)⟩

/-! ## What the types and kinds are -/

/-- The type is neither that of parentheses nor one that an expression in parentheses may have. -/
def isApart (type : String) : Bool :=
  type != "parenthesized_expression" && type != "binary_expression" && !(Kind.ofType type).isEnclosable

theorem type_ne_of_isEnclosable {n : Node} (hn : n.kind.isEnclosable = true) {type : String}
    (ht : isApart type = true) : n.type ≠ type := by
  rintro rfl
  simp only [isApart, Bool.and_eq_true, bne_iff_ne, Bool.not_eq_true'] at ht
  unfold kind at hn
  rw [if_neg ht.1.2] at hn
  split at hn
  · cases hn
  · rw [ht.2] at hn
    cases hn

theorem kind_of_isParenthesized {n : Node} (h : n.isParenthesized = true) : n.kind = .other := by
  have ht : n.type = "parenthesized_expression" := eq_of_beq h
  unfold kind
  rw [ht]
  split
  · rfl
  · rfl

theorem isFunctionLike_of_isParenthesized {n : Node} (h : n.isParenthesized = true) : n.isFunctionLike = false :=
  isFunctionLike_of_kind (kind_of_isParenthesized h) rfl

theorem isParenthesized_parenthesized (missing erroneous : Bool) (n : Node) :
    (n.parenthesized missing erroneous).isParenthesized = true := rfl

namespace Alike

variable {n n' : Node} (h : n.Alike n')
include h

theorem field_eq : n.label.field = n'.label.field := by
  rcases h.cases with ⟨hf, -⟩ | ⟨-, missing, erroneous, rfl⟩
  · exact hf
  · rfl

theorem named_eq : n.label.named = n'.label.named := by
  rcases h.cases with ⟨-, hm⟩ | ⟨hn, missing, erroneous, rfl⟩
  · exact hm.of_label Label.named fun _ => rfl
  · -- a node without a name is of no kind
    cases hnamed : n.label.named with
    | true => rfl
    | false =>
      rw [kind, hnamed] at hn
      cases hn

theorem text_eq (src : Source) : n.text src = n'.text src := by
  rcases h.cases with ⟨-, hm⟩ | ⟨-, missing, erroneous, rfl⟩
  · exact hm.of_label (fun l => if l.textKnown then src.text l.start l.stop else "") fun _ => rfl
  · rfl

theorem type_beq {type : String} (ht : isApart type = true) : (n.type == type) = (n'.type == type) := by
  rcases h.cases with ⟨-, hm⟩ | ⟨hn, missing, erroneous, rfl⟩
  · exact hm.of_label (fun l => l.type == type) fun _ => rfl
  · have hne : "parenthesized_expression" ≠ type := by
      rintro rfl
      cases ht
    rw [beq_eq_false_iff_ne.2 (type_ne_of_isEnclosable hn ht)]
    exact (beq_eq_false_iff_ne.2 hne).symm

theorem type_eq_iff {type : String} (ht : isApart type = true) : n.type = type ↔ n'.type = type := by
  rw [← beq_iff_eq, h.type_beq ht, beq_iff_eq]

end Alike

/-! ## What is read of nodes that match -/

namespace Matches

variable {n n' : Node} (h : n.Matches n')
include h

theorem type_eq : n.type = n'.type := h.of_label Label.type fun _ => rfl

theorem isParenthesized_eq : n.isParenthesized = n'.isParenthesized := by
  rw [isParenthesized, isParenthesized, h.type_eq]

theorem child? (field : String) : Option.Rel Alike (n.child? field) (n'.child? field) :=
  rel_find? (fun a b hab => by rw [hab.field_eq]) h.children

theorem logicalOperator?_eq : n.logicalOperator? = n'.logicalOperator? := by
  have hc := h.child? "operator"
  unfold logicalOperator?
  generalize n.child? "operator" = o, n'.child? "operator" = o' at hc
  cases hc with
  | none => rfl
  | @some a b hab =>
    have hsame : ∀ t ∈ logicalOperators, a.type = t ↔ b.type = t := fun t ht =>
      hab.type_eq_iff (List.all_eq_true.1 (by decide : logicalOperators.all isApart = true) t ht)
    by_cases ha : a.type ∈ logicalOperators
    · have hb : b.type = a.type := (hsame _ ha).1 rfl
      simp only [hb]
    · have hb : b.type ∉ logicalOperators := fun hb => ha (((hsame _ hb).2 rfl) ▸ hb)
      simp only [if_neg ha, if_neg hb]

theorem kind_eq : n.kind = n'.kind := by
  have hnamed : n.label.named = n'.label.named := h.of_label Label.named fun _ => rfl
  rw [kind, kind, hnamed, h.type_eq, h.logicalOperator?_eq]

theorem isFunctionLike_eq : n.isFunctionLike = n'.isFunctionLike := by
  rw [isFunctionLike, isFunctionLike, h.kind_eq]

end Matches

theorem Alike.kind_beq {n n' : Node} (h : n.Alike n') {k : Kind} (hk : k.isEnclosable = false) (ho : k ≠ .other) :
    (n.kind == k) = (n'.kind == k) := by
  rcases h.cases with ⟨-, hm⟩ | ⟨hn, missing, erroneous, rfl⟩
  · rw [hm.kind_eq]
  · have hne : n.kind ≠ k := by
      rintro rfl
      rw [hn] at hk
      cases hk
    rw [kind_of_isParenthesized (isParenthesized_parenthesized missing erroneous n), beq_eq_false_iff_ne.2 hne,
      beq_eq_false_iff_ne.2 ho.symm]

/-! ## Walkable nodes -/

theorem isWalkable_mk (l : Label) (cs : List Node) :
    (Node.mk l cs).isWalkable = (l.childrenKnown && cs.all isWalkable) := by
  rw [isWalkable, areWalkable_eq_all]

theorem Parenthesizes.isWalkable_eq {n n' : Node} (h : n.Parenthesizes n') : n.isWalkable = n'.isWalkable := by
  induction h with
  | @here n missing erroneous _ =>
    cases n with
    | mk l cs => simp [parenthesized, unfielded, Label.unfielded, isWalkable_mk, label, children]
  | inner _ ih => simp [isWalkable_mk, ih]

theorem Matches.isWalkable_eq {n n' : Node} (h : n.Matches n') : n.isWalkable = n'.isWalkable := by
  have hall : n.children.all isWalkable = n'.children.all isWalkable := by
    refine all_eq_of_rel (fun a b hab => ?_) h.children
    cases hab with
    | refl => rfl
    | single hab => exact hab.isWalkable_eq
  have hknown : n.label.childrenKnown = n'.label.childrenKnown := h.of_label Label.childrenKnown fun _ => rfl
  cases n
  cases n'
  rw [isWalkable_mk, isWalkable_mk]
  exact congrArg₂ _ hknown hall

end Node
end Cognitive
