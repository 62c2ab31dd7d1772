import Cognitive.Proofs.Tree.Below
/-!
# Comments in a tree

Grammars allow comments between any two tokens, so that a comment may stand anywhere among the children of any node.
A tree and the same tree with comments more are one tree once their comments are left out (`Annotates.bare_eq`).
Leaving them out changes neither the kind of a node nor what is found in its fields (`kind_bare`, `child?_bare`), since
a comment is of no kind, stands in no field, and holds nothing that could be walked into.
-/
namespace Cognitive

/-- The types of comments. -/
def commentTypes : List String := ["comment", "html_comment"]

/-- The label of a comment: it is named, stands in no field, and its children can be asked for. -/
def Label.isComment (l : Label) : Bool :=
  l.named && commentTypes.contains l.type && l.field.isNone && l.childrenKnown

namespace Node

mutual
/-- The node is a comment, and so is all that it holds. -/
def isComment : Node → Bool
  | .mk l cs => l.isComment && areComments cs

def areComments : List Node → Bool
  | [] => true
  | n :: rest => n.isComment && areComments rest
end

/-- **The second node is the first with one comment more**, a node without children that stands at any place among the
children of a node at or below it. -/
inductive Annotates : Node → Node → Prop where
  | here {l comment : Label} {before after : List Node} (hc : comment.isComment = true) :
      Annotates (.mk l (before ++ after)) (.mk l (before ++ .mk comment [] :: after))
  | inner {l : Label} {before after : List Node} {n n' : Node} (h : Annotates n n') :
      Annotates (.mk l (before ++ n :: after)) (.mk l (before ++ n' :: after))

mutual
/-- The node without the comments below it. -/
def bare : Node → Node
  | .mk l cs => .mk l (bares cs)

def bares : List Node → List Node
  | [] => []
  | n :: rest => if n.isComment then bares rest else n.bare :: bares rest
end

theorem areComments_eq_all : ∀ ns : List Node, areComments ns = ns.all isComment
  | [] => rfl
  | n :: rest => by rw [areComments, areComments_eq_all rest, List.all_cons]

theorem isComment_mk (l : Label) (cs : List Node) :
    (Node.mk l cs).isComment = (l.isComment && cs.all isComment) := by
  rw [isComment, areComments_eq_all]

theorem isComment_iff (n : Node) :
    n.isComment = true ↔ n.label.isComment = true ∧ ∀ c ∈ n.children, c.isComment = true := by
  cases n with
  | mk l cs => rw [isComment_mk, Bool.and_eq_true, List.all_eq_true, label, children]

theorem bares_eq_map : ∀ ns : List Node, bares ns = (ns.filter fun c => !c.isComment).map bare
  | [] => rfl
  | n :: rest => by
    rw [bares, bares_eq_map rest, List.filter_cons]
    cases n.isComment <;> rfl

theorem bare_mk (l : Label) (cs : List Node) :
    (Node.mk l cs).bare = .mk l ((cs.filter fun c => !c.isComment).map bare) := by
  rw [bare, bares_eq_map]

@[simp] theorem label_bare (n : Node) : n.bare.label = n.label := by
  cases n with
  | mk l cs => rw [bare, label, label]

@[simp] theorem type_bare (n : Node) : n.bare.type = n.type := by rw [type, label_bare, type]

theorem children_bare (n : Node) : n.bare.children = (n.children.filter fun c => !c.isComment).map bare := by
  cases n with
  | mk l cs => rw [bare_mk, children, children]

/-! ## One comment more -/

theorem Annotates.isComment_eq {n n' : Node} (h : n.Annotates n') : n.isComment = n'.isComment := by
  induction h with
  | here hc => simp [isComment_mk, hc]
  | inner _ ih => simp [isComment_mk, ih]

/-- **One comment more is left out with the others.** -/
theorem Annotates.bare_eq {n n' : Node} (h : n.Annotates n') : n.bare = n'.bare := by
  induction h with
  | @here l comment before after hc =>
    have hcomment : (Node.mk comment []).isComment = true := by rw [isComment_mk, hc]; rfl
    rw [bare_mk, bare_mk, List.filter_append, List.filter_append, List.filter_cons, hcomment]
    rfl
  | @inner l before after n n' h ih =>
    rw [bare_mk, bare_mk, List.filter_append, List.filter_append, List.filter_cons, List.filter_cons, h.isComment_eq]
    cases n'.isComment with
    | true => rfl
    | false =>
      rw [Bool.not_false, if_pos rfl, if_pos rfl, List.map_append, List.map_append, List.map_cons, List.map_cons, ih]

theorem bare_eq_of_annotates {n n' : Node} (h : Relation.ReflTransGen Annotates n n') : n.bare = n'.bare := by
  induction h with
  | refl => rfl
  | tail _ h ih => rw [ih, h.bare_eq]

/-! ## What a comment is not -/

theorem isComment_label {n : Node} (h : n.isComment = true) :
    n.label.named = true ∧ n.type ∈ commentTypes ∧ n.label.field = none ∧ n.label.childrenKnown = true := by
  have hl := ((isComment_iff n).1 h).1
  simp only [Label.isComment, Bool.and_eq_true, Option.isNone_iff_eq_none, List.contains_iff_mem] at hl
  exact ⟨hl.1.1.1, hl.1.1.2, hl.1.2, hl.2⟩

theorem type_beq_of_isComment {n : Node} (h : n.isComment = true) {type : String} (ht : type ∉ commentTypes) :
    (n.type == type) = false := by
  rw [beq_eq_false_iff_ne]
  rintro rfl
  exact ht (isComment_label h).2.1

theorem kind_of_isComment {n : Node} (h : n.isComment = true) : n.kind = .other := by
  obtain ⟨hnamed, ht, -⟩ := isComment_label h
  have hnot : n.type ≠ "binary_expression" := by
    intro he
    rw [he] at ht
    exact absurd ht (by decide)
  rw [kind, hnamed, if_neg (by simp), if_neg hnot]
  have hall : ∀ type ∈ commentTypes, Kind.ofType type = .other := by decide
  exact hall n.type ht

theorem isFunctionLike_of_isComment {n : Node} (h : n.isComment = true) : n.isFunctionLike = false := by
  rw [isFunctionLike, kind_of_isComment h]
  rfl

theorem isWalkable_of_isComment {n : Node} (h : n.isComment = true) : n.isWalkable = true := by
  induction n using children_induction with
  | step n ih =>
    have hc := (isComment_iff n).1 h
    exact (isWalkable_iff n).2 ⟨(isComment_label h).2.2.2, fun c hm => ih c hm (hc.2 c hm)⟩

/-! ## What is read of a node without its comments -/

/-- A search for what no comment is finds the same, comments left out or not. -/
theorem find?_children_bare {p : Node → Bool} (hp : ∀ c : Node, p c.bare = p c)
    (hc : ∀ c : Node, c.isComment = true → p c = false) (n : Node) :
    n.bare.children.find? p = (n.children.find? p).map bare := by
  have hbare : p ∘ bare = p := funext hp
  have hpred : (fun c : Node => decide ((!c.isComment) = true ∧ p c = true)) = p := by
    funext c
    cases h : c.isComment with
    | true => simp [hc c h]
    | false => simp
  rw [children_bare, List.find?_map, hbare, List.find?_filter, hpred]

theorem child?_bare (n : Node) (field : String) : n.bare.child? field = (n.child? field).map bare :=
  find?_children_bare (fun c => by rw [label_bare]) (fun c hc => by rw [(isComment_label hc).2.2.1]; rfl) n

theorem isComment_of_child? {n c : Node} {field : String} (h : n.child? field = some c) : c.isComment = false := by
  have hfield : (c.label.field == some field) = true :=
    List.find?_some (p := fun c : Node => c.label.field == some field) h
  cases hc : c.isComment with
  | false => rfl
  | true =>
    rw [(isComment_label hc).2.2.1] at hfield
    cases hfield

theorem all_children_bare {p : Node → Bool} (hp : ∀ c : Node, p c.bare = p c)
    (hc : ∀ c : Node, c.isComment = true → p c = true) (n : Node) : n.bare.children.all p = n.children.all p := by
  have hbare : p ∘ bare = p := funext hp
  rw [children_bare, List.all_map, hbare, List.all_filter]
  refine congrArg (List.all n.children) (funext fun c => ?_)
  cases h : c.isComment with
  | true => rw [hc c h]; rfl
  | false => rfl

theorem logicalOperator?_bare (n : Node) : n.bare.logicalOperator? = n.logicalOperator? := by
  rw [logicalOperator?, logicalOperator?, child?_bare]
  cases n.child? "operator" with
  | none => rfl
  | some op => simp only [Option.map_some, type_bare]

@[simp] theorem kind_bare (n : Node) : n.bare.kind = n.kind := by
  rw [kind, kind, label_bare, type_bare, logicalOperator?_bare]

@[simp] theorem isFunctionLike_bare (n : Node) : n.bare.isFunctionLike = n.isFunctionLike := by
  rw [isFunctionLike, isFunctionLike, kind_bare]

@[simp] theorem isParenthesized_bare (n : Node) : n.bare.isParenthesized = n.isParenthesized := by
  rw [isParenthesized, isParenthesized, type_bare]

theorem text_bare (src : Source) (n : Node) : n.bare.text src = n.text src := by
  rw [text, text, label_bare]

theorem isWalkable_bare (n : Node) : n.bare.isWalkable = n.isWalkable := by
  induction n using children_induction with
  | step n ih =>
    rw [Bool.eq_iff_iff, isWalkable_iff, isWalkable_iff, label_bare, children_bare]
    refine and_congr_right fun _ => ⟨fun h c hc => ?_, fun h c hc => ?_⟩
    · cases hcomment : c.isComment with
      | true => exact isWalkable_of_isComment hcomment
      | false =>
        have hm : c ∈ n.children.filter fun c => !c.isComment := List.mem_filter.2 ⟨hc, by simp [hcomment]⟩
        rw [← ih c hc]
        exact h c.bare (List.mem_map_of_mem hm)
    · obtain ⟨d, hd, rfl⟩ := List.mem_map.1 hc
      have hm := (List.mem_filter.1 hd).1
      rw [ih d hm]
      exact h d hm

end Node
end Cognitive
