import Cognitive.Tree.Kind
import Mathlib.Data.List.Forall2
/-!
# Regions

The region of a node keeps the types, the names of fields and the order of the nodes at and below it, and the texts of
identifiers.  Of a function inside it keeps that there is one, and nothing of what is below.  The texts of larger nodes
are left out, since they hold the texts of the functions inside.  Nodes with equal regions agree in their kinds, and
where they are no functions, in what is found among their children (`Node.Agrees`).
-/
namespace Cognitive

/-- What may be read of a node and of those below it. -/
inductive Region where
  | mk (type : String) (named : Bool) (field : Option String) (text : String) (childrenKnown : Bool)
    (parts : List Region)

namespace Region

def type : Region → String
  | .mk t _ _ _ _ _ => t

def named : Region → Bool
  | .mk _ n _ _ _ _ => n

def field : Region → Option String
  | .mk _ _ f _ _ _ => f

end Region

namespace Node

mutual
/-- The region of a node.  Of a function it holds the type, the name of the field and that it is named. -/
def region (src : Source) : Node → Region
  | .mk l cs =>
    if (Node.mk l cs).isFunctionLike then .mk l.type l.named l.field "" true []
    else .mk l.type l.named l.field (if l.type = "identifier" then (Node.mk l cs).text src else "") l.childrenKnown
      (regions src cs)

def regions (src : Source) : List Node → List Region
  | [] => []
  | n :: rest => n.region src :: regions src rest
end

/-- What a function holds as its own: the regions of its children, where they can be asked for. -/
def ownRegion (src : Source) (n : Node) : Bool × List Region := (n.label.childrenKnown, regions src n.children)

theorem regions_eq_map (src : Source) : ∀ ns : List Node, regions src ns = ns.map (region src)
  | [] => rfl
  | n :: rest => by rw [regions, regions_eq_map src rest, List.map_cons]

theorem region_of_open (src : Source) (n : Node) (h : n.isFunctionLike = false) :
    n.region src = .mk n.type n.label.named n.label.field (if n.type = "identifier" then n.text src else "")
      n.label.childrenKnown (n.children.map (region src)) := by
  cases n with
  | mk l cs => rw [region, h, if_neg Bool.false_ne_true, regions_eq_map]; rfl

theorem region_type (src : Source) (n : Node) : (n.region src).type = n.type := by
  cases n with
  | mk l cs => rw [region]; split <;> rfl

theorem region_named (src : Source) (n : Node) : (n.region src).named = n.label.named := by
  cases n with
  | mk l cs => rw [region]; split <;> rfl

theorem region_field (src : Source) (n : Node) : (n.region src).field = n.label.field := by
  cases n with
  | mk l cs => rw [region]; split <;> rfl

/-- Whether a node is a function hangs on its type and on its being named alone. -/
theorem isFunctionLike_eq (n : Node) :
    n.isFunctionLike = (n.label.named && n.type != "binary_expression" && (Kind.ofType n.type).isFunctionLike) := by
  unfold isFunctionLike kind
  cases n.label.named
  · rfl
  · by_cases hb : n.type = "binary_expression"
    · cases n.logicalOperator?.isSome <;> simp [hb, Kind.isFunctionLike]
    · simp [hb]

theorem kind_of_isFunctionLike {n : Node} (h : n.isFunctionLike = true) : n.kind = Kind.ofType n.type := by
  have hn := h
  rw [isFunctionLike_eq] at hn
  simp only [Bool.and_eq_true, bne_iff_ne] at hn
  rw [kind, hn.1.1, if_neg (by simp), if_neg hn.1.2]

theorem type_beq_of_isFunctionLike {n : Node} (h : n.isFunctionLike = true) (type : String)
    (ht : (Kind.ofType type).isFunctionLike = false) : (n.type == type) = false := by
  rw [beq_eq_false_iff_ne]
  intro he
  rw [isFunctionLike_eq, he, ht, Bool.and_false] at h
  cases h

theorem kind_beq_of_isFunctionLike {n : Node} (h : n.isFunctionLike = true) (k : Kind)
    (hk : k.isFunctionLike = false) : (n.kind == k) = false := by
  rw [beq_eq_false_iff_ne]
  intro he
  rw [isFunctionLike, he, hk] at h
  cases h

end Node

/-! ## Nodes with equal regions -/

def Node.Agrees (src src' : Source) (n n' : Node) : Prop := n.region src = n'.region src'

section

variable {src src' : Source}

theorem Node.forall₂_agrees {l l' : List Node} (h : l.map (region src) = l'.map (region src')) :
    List.Forall₂ (Agrees src src') l l' := by
  rw [← List.forall₂_eq_eq_eq, List.forall₂_map_left_iff, List.forall₂_map_right_iff] at h
  exact h

namespace Node.Agrees

variable {n n' : Node} (h : n.Agrees src src' n')
include h

theorem type_eq : n.type = n'.type := by
  rw [← region_type src, show n.region src = n'.region src' from h, region_type]

theorem named_eq : n.label.named = n'.label.named := by
  rw [← region_named src, show n.region src = n'.region src' from h, region_named]

theorem field_eq : n.label.field = n'.label.field := by
  rw [← region_field src, show n.region src = n'.region src' from h, region_field]

theorem isFunctionLike_eq : n.isFunctionLike = n'.isFunctionLike := by
  rw [Node.isFunctionLike_eq, Node.isFunctionLike_eq, h.type_eq, h.named_eq]

variable (hn : n.isFunctionLike = false)
include hn

/-- Nodes that agree and are no functions agree in their texts, as identifiers, and in their children. -/
theorem parts : (n.type = "identifier" → n.text src = n'.text src') ∧ n.label.childrenKnown = n'.label.childrenKnown ∧
    List.Forall₂ (Agrees src src') n.children n'.children := by
  have hn' := hn
  rw [h.isFunctionLike_eq] at hn'
  have ht := h.type_eq
  rw [Agrees, region_of_open src n hn, region_of_open src' n' hn'] at h
  injection h with _ _ _ h4 h5 h6
  refine ⟨fun hi => ?_, h5, forall₂_agrees h6⟩
  rwa [if_pos hi, if_pos (ht ▸ hi)] at h4

end Node.Agrees

namespace Node

/-- A search among nodes that are related, for what related nodes have in common, finds nodes that are related. -/
theorem rel_find? {R : Node → Node → Prop} {p : Node → Bool} (hp : ∀ a b : Node, R a b → p a = p b) {l l' : List Node}
    (h : List.Forall₂ R l l') : Option.Rel R (l.find? p) (l'.find? p) := by
  induction h with
  | nil => exact .none
  | @cons a b l l' hab _ ih =>
    rw [List.find?_cons, List.find?_cons, hp a b hab]
    cases p b
    · exact ih
    · exact .some hab

theorem all_eq_of_rel {R : Node → Node → Prop} {p : Node → Bool} (hp : ∀ a b : Node, R a b → p a = p b)
    {l l' : List Node} (h : List.Forall₂ R l l') : l.all p = l'.all p := by
  induction h with
  | nil => rfl
  | @cons a b l l' hab _ ih => rw [List.all_cons, List.all_cons, hp a b hab, ih]

namespace Agrees

variable {n n' : Node} (h : n.Agrees src src' n')
include h

theorem child? (hn : n.isFunctionLike = false) (field : String) :
    Option.Rel (Agrees src src') (n.child? field) (n'.child? field) :=
  rel_find? (fun a b hab => by rw [hab.field_eq]) (h.parts hn).2.2

theorem logicalOperator?_eq (hn : n.isFunctionLike = false) : n.logicalOperator? = n'.logicalOperator? := by
  have hc := h.child? hn "operator"
  unfold logicalOperator?
  generalize n.child? "operator" = o, n'.child? "operator" = o' at hc
  cases hc with
  | none => rfl
  | some hab => simp only [hab.type_eq]

theorem kind_eq : n.kind = n'.kind := by
  cases hn : n.isFunctionLike with
  | true =>
    have hn' := hn
    rw [h.isFunctionLike_eq] at hn'
    rw [kind_of_isFunctionLike hn, kind_of_isFunctionLike hn', h.type_eq]
  | false => rw [kind, kind, h.named_eq, h.type_eq, h.logicalOperator?_eq hn]

end Agrees
end Node

end
end Cognitive
