import Mathlib.Data.List.Forall2
import Mathlib.Logic.Relation
import Cognitive.Tree.Site
/-!
# The sites below a site

`Site.below` lists the sites below one in pre-order.  Each site stands in that list once (`below_sorted`, by address),
and it stands there exactly when children lead down to it (`mem_below_iff`).  The other way, `Site.ancestors` leads from
a site up to the root, and `Site.between` is the part of that way which ends just under a given site
(`ancestors_eq_between`).
-/
namespace Cognitive

namespace Node

mutual
/-- The children can be asked for, here and everywhere below. -/
def isWalkable : Node → Bool
  | .mk l cs => l.childrenKnown && areWalkable cs

def areWalkable : List Node → Bool
  | [] => true
  | n :: rest => n.isWalkable && areWalkable rest
end

theorem areWalkable_eq_all : ∀ ns : List Node, areWalkable ns = ns.all isWalkable
  | [] => rfl
  | n :: rest => by rw [areWalkable, areWalkable_eq_all rest, List.all_cons]

theorem isWalkable_iff (n : Node) :
    n.isWalkable = true ↔ n.label.childrenKnown = true ∧ ∀ c ∈ n.children, c.isWalkable = true := by
  cases n with
  | mk l cs => simp [isWalkable, label, children, areWalkable_eq_all]

theorem size_lt_of_mem {n c : Node} (h : c ∈ n.children) : c.size < n.size := by
  obtain ⟨a, b, hab⟩ := List.append_of_mem h
  rw [size_eq n, hab, totalSize_append]
  simp only [totalSize]
  omega

/-- What holds of a node once it holds of its children holds of every node. -/
theorem children_induction {P : Node → Prop} (step : ∀ n, (∀ c ∈ n.children, P c) → P n) (n : Node) : P n :=
  step n fun c hc =>
    have _smaller := size_lt_of_mem hc
    children_induction step c
termination_by n.size

/-- A named node of some type, in some field of its parent, at the first byte of its source. -/
def plain (type : String) (field : Option String) (children : List Node) : Node :=
  .mk ⟨type, true, false, false, 0, 1, field, true, true, true, true⟩ children

end Node

namespace Site

/-! ## Children -/

theorem mem_children {s c : Site} :
    c ∈ s.children ↔ ∃ i n, s.node.children[i]? = some n ∧ c = ⟨n, s.node :: s.up, i :: s.address⟩ := by
  simp only [children, List.mem_map, Prod.exists, List.mem_zipIdx_iff_getElem?]
  constructor
  · rintro ⟨n, i, hn, rfl⟩
    exact ⟨i, n, hn, rfl⟩
  · rintro ⟨i, n, hn, rfl⟩
    exact ⟨n, i, hn, rfl⟩

theorem forall₂_zipIdx {R : Node → Node → Prop} {l l' : List Node} (h : List.Forall₂ R l l') (i : Nat) :
    List.Forall₂ (fun a b => R a.1 b.1) (l.zipIdx i) (l'.zipIdx i) := by
  induction h generalizing i with
  | nil => exact .nil
  | cons h _ ih => exact .cons h (ih (i + 1))

/-- The children of sites are related as those of their nodes are. -/
theorem children_rel {R : Node → Node → Prop} {s s' : Site} (h : List.Forall₂ R s.node.children s'.node.children) :
    List.Forall₂ (fun c c' => R c.node c'.node ∧ c.up = s.node :: s.up ∧ c'.up = s'.node :: s'.up)
      s.children s'.children := by
  rw [children, children, List.forall₂_map_left_iff, List.forall₂_map_right_iff]
  exact (forall₂_zipIdx h 0).imp fun a b hab => ⟨hab, rfl, rfl⟩

theorem node_mem_of_mem_children {s c : Site} (h : c ∈ s.children) : c.node ∈ s.node.children := by
  rw [← map_node_children]
  exact List.mem_map_of_mem h

theorem size_lt_of_mem_children {s c : Site} (h : c ∈ s.children) : c.node.size < s.node.size :=
  Node.size_lt_of_mem (node_mem_of_mem_children h)

theorem isWalkable_child {s c : Site} (hs : s.node.isWalkable = true) (h : c ∈ s.children) :
    c.node.isWalkable = true :=
  ((Node.isWalkable_iff s.node).1 hs).2 _ (node_mem_of_mem_children h)

theorem exists_child_not_walkable {s : Site} (hs : s.node.isWalkable = false) (hk : s.node.label.childrenKnown = true) :
    ∃ c ∈ s.children, c.node.isWalkable = false := by
  by_contra hall
  have hw : s.node.isWalkable = true := by
    refine (Node.isWalkable_iff s.node).2 ⟨hk, fun n hn => ?_⟩
    rw [← map_node_children] at hn
    obtain ⟨c, hc, rfl⟩ := List.mem_map.1 hn
    exact Bool.not_eq_false _ ▸ fun hf => hall ⟨c, hc, hf⟩
  rw [hs] at hw
  cases hw

/-- What holds of a site once it holds of its children holds of every site. -/
theorem children_induction {P : Site → Prop} (step : ∀ s, (∀ c ∈ s.children, P c) → P s) (s : Site) : P s :=
  step s fun c hc =>
    have _smaller := size_lt_of_mem_children hc
    children_induction step c
termination_by s.node.size

/-! ## Below -/

/-- The sites below one: each child, and after it the sites below that child. -/
def below (s : Site) : List Site := s.children.attach.flatMap fun c => c.1 :: c.1.below
termination_by s.node.size
decreasing_by exact size_lt_of_mem_children c.2

theorem below_eq (s : Site) : s.below = s.children.flatMap fun c => c :: c.below := by
  rw [below, List.flatMap_subtype (g := fun c => c :: c.below) (fun c _ => rfl), List.unattach_attach]

def IsParent (s c : Site) : Prop := c ∈ s.children

theorem mem_below {s v : Site} : v ∈ s.below ↔ ∃ c ∈ s.children, v = c ∨ v ∈ c.below := by
  rw [below_eq]
  simp only [List.mem_flatMap, List.mem_cons]

/-- **A site is below another exactly when children lead down to it.** -/
theorem mem_below_iff {s v : Site} : v ∈ s.below ↔ Relation.TransGen IsParent s v := by
  constructor
  · intro h
    induction s using children_induction with
    | step s ih =>
      obtain ⟨c, hc, rfl | hv⟩ := mem_below.1 h
      · exact .single hc
      · exact .head hc (ih c hc hv)
  · intro h
    induction h using Relation.TransGen.head_induction_on with
    | single h => exact mem_below.2 ⟨_, h, .inl rfl⟩
    | head h _ ih => exact mem_below.2 ⟨_, h, .inr ih⟩

theorem mem_below_of_mem_children {s c : Site} (h : c ∈ s.children) : c ∈ s.below :=
  mem_below_iff.2 (.single h)

theorem mem_below_child {s u v : Site} (hu : u ∈ s.below) (hv : v ∈ u.children) : v ∈ s.below :=
  mem_below_iff.2 ((mem_below_iff.1 hu).tail hv)

theorem mem_below_trans {s u v : Site} (hu : u ∈ s.below) (hv : v ∈ u.below) : v ∈ s.below :=
  mem_below_iff.2 ((mem_below_iff.1 hu).trans (mem_below_iff.1 hv))

/-- What holds of the children of a site, and of the children of every site below that it holds of, holds of all sites
below. -/
theorem below_induction {s : Site} {motive : (v : Site) → v ∈ s.below → Prop}
    (child : ∀ v (h : v ∈ s.children), motive v (mem_below_of_mem_children h))
    (deeper : ∀ u v (hu : u ∈ s.below) (hv : v ∈ u.children), motive u hu → motive v (mem_below_child hu hv))
    {v : Site} (h : v ∈ s.below) : motive v h := by
  have h' := mem_below_iff.1 h
  induction h' with
  | single hv => exact child _ hv
  | tail hu hv ih => exact deeper _ _ (mem_below_iff.2 hu) hv (ih _)

theorem isWalkable_below {s v : Site} (hs : s.node.isWalkable = true) (h : v ∈ s.below) :
    v.node.isWalkable = true := by
  induction h using below_induction with
  | child v hv => exact isWalkable_child hs hv
  | deeper u v _ hv ih => exact isWalkable_child ih hv

/-! ## Addresses -/

theorem address_below {s v : Site} (h : v ∈ s.below) : ∃ k, k ≠ [] ∧ v.address = k ++ s.address := by
  induction h using below_induction with
  | child v hv =>
    obtain ⟨i, n, -, rfl⟩ := mem_children.1 hv
    exact ⟨[i], by simp, rfl⟩
  | deeper u v _ hv ih =>
    obtain ⟨k, -, hk⟩ := ih
    obtain ⟨i, n, -, rfl⟩ := mem_children.1 hv
    exact ⟨i :: k, by simp, by rw [hk]; rfl⟩

theorem address_ne_of_below {s v : Site} (h : v ∈ s.below) : v.address ≠ s.address := by
  obtain ⟨k, hk, he⟩ := address_below h
  intro heq
  rw [he, List.append_left_eq_self] at heq
  exact hk heq

/-- The first site comes before the second in pre-order: its way down from the root comes first, as a list of child
positions, and the way to a site comes before every way on from there. -/
def Precedes (a b : Site) : Prop := a.address.reverse < b.address.reverse

theorem precedes_below {s v : Site} (h : v ∈ s.below) : Precedes s v := by
  obtain ⟨k, hk, he⟩ := address_below h
  have hk' : k.reverse ≠ [] := by simpa using hk
  obtain ⟨i, r, hr⟩ := List.exists_cons_of_ne_nil hk'
  have : s.address.reverse ++ [] < s.address.reverse ++ k.reverse :=
    List.append_left_lt (by rw [hr]; exact List.nil_lt_cons i r)
  simpa [Precedes, he] using this

/-- The way to a site at or below the child at some position starts with the way to the parent and that position. -/
theorem address_of_child {s c v : Site} {i : Nat} {n : Node} (hc : c = ⟨n, s.node :: s.up, i :: s.address⟩)
    (hv : v = c ∨ v ∈ c.below) : ∃ r, v.address.reverse = s.address.reverse ++ i :: r := by
  obtain rfl | hv := hv
  · exact ⟨[], by rw [hc]; simp⟩
  · obtain ⟨k, -, hk⟩ := address_below hv
    exact ⟨k.reverse, by rw [hk, hc]; simp⟩

theorem children_sorted (s : Site) :
    s.children.Pairwise fun a b => ∃ i j, i < j ∧ (∃ n, a = ⟨n, s.node :: s.up, i :: s.address⟩) ∧
      ∃ n, b = ⟨n, s.node :: s.up, j :: s.address⟩ := by
  have h : s.node.children.zipIdx.Pairwise fun a b => a.2 < b.2 := by
    rw [← List.pairwise_map (R := (· < ·)), List.zipIdx_map_snd]
    exact List.pairwise_lt_range'
  rw [children, List.pairwise_map]
  exact h.imp fun {a b} hab => ⟨a.2, b.2, hab, ⟨a.1, rfl⟩, ⟨b.1, rfl⟩⟩

/-- **The list of the sites below is in pre-order, and no site stands in it twice.** -/
theorem below_sorted (s : Site) : (s :: s.below).Pairwise Precedes := by
  induction s using children_induction with
  | step s ih =>
    refine List.Pairwise.cons (fun v hv => precedes_below hv) ?_
    rw [below_eq, List.pairwise_flatMap]
    refine ⟨ih, (children_sorted s).imp ?_⟩
    rintro a b ⟨i, j, hij, ⟨n, ha⟩, ⟨m, hb⟩⟩ v hv w hw
    obtain ⟨r, hr⟩ := address_of_child ha (List.mem_cons.1 hv)
    obtain ⟨t, ht⟩ := address_of_child hb (List.mem_cons.1 hw)
    rw [Precedes, hr, ht]
    exact List.append_left_lt (List.cons_lt_cons_iff.2 (.inl hij))

theorem not_precedes_self (s : Site) : ¬ Precedes s s := List.lt_irrefl _

theorem below_nodup (s : Site) : (s :: s.below).Nodup :=
  (below_sorted s).imp fun {a b} (hab : Precedes a b) (heq : a = b) => not_precedes_self b (heq ▸ hab)

/-! ## Above -/

def ancestorsFrom : (up : List Node) → (address : List Nat) → List Site
  | [], _ => []
  | n :: rest, address => ⟨n, rest, address.tail⟩ :: ancestorsFrom rest address.tail

def ancestors (s : Site) : List Site := ancestorsFrom s.up s.address

theorem ancestors_child {s c : Site} (h : c ∈ s.children) : c.ancestors = s :: s.ancestors := by
  obtain ⟨i, n, -, rfl⟩ := mem_children.1 h
  rfl

/-- The sites strictly between two, the upper one first given: the ancestors of the lower one, as far as the upper. -/
def between (s v : Site) : List Site := v.ancestors.takeWhile fun a => a.address != s.address

theorem between_child_self {s c : Site} (h : c ∈ s.children) : s.between c = [] := by
  simp [between, ancestors_child h]

theorem between_child {s u v : Site} (hu : u ∈ s.below) (hv : v ∈ u.children) : s.between v = u :: s.between u := by
  have := address_ne_of_below hu
  simp [between, ancestors_child hv, this]

/-- **The ancestors of a site below another are the sites between them, the other, and its ancestors.** -/
theorem ancestors_eq_between {s v : Site} (h : v ∈ s.below) :
    v.ancestors = s.between v ++ s :: s.ancestors := by
  induction h using below_induction with
  | child v hv => rw [between_child_self hv, ancestors_child hv, List.nil_append]
  | deeper u v hu hv ih => rw [between_child hu hv, ancestors_child hv, ih, List.cons_append]

theorem address_ne_of_mem_between {s v a : Site} (h : a ∈ s.between v) : a.address ≠ s.address := by
  have hall : (s.between v).all (fun a => a.address != s.address) = true := List.all_takeWhile
  simpa using List.all_eq_true.1 hall a h

theorem between_split {s u v : Site} (hu : u ∈ s.below) (hv : v ∈ u.below) :
    s.between v = u.between v ++ u :: s.between u := by
  induction hv using below_induction with
  | child v hv => rw [between_child hu hv, between_child_self hv, List.nil_append]
  | deeper w v hw hv ih => rw [between_child (mem_below_trans hu hw) hv, between_child hw hv, ih, List.cons_append]

theorem mem_between_iff {s v a : Site} (h : v ∈ s.below) : a ∈ s.between v ↔ a ∈ s.below ∧ v ∈ a.below := by
  constructor
  · intro ha
    induction h using below_induction with
    | child v hv => simp [between_child_self hv] at ha
    | deeper u v hu hv ih =>
      rw [between_child hu hv, List.mem_cons] at ha
      obtain rfl | ha := ha
      · exact ⟨hu, mem_below_of_mem_children hv⟩
      · exact ⟨(ih ha).1, mem_below_child (ih ha).2 hv⟩
  · rintro ⟨ha, hv⟩
    rw [between_split ha hv]
    simp

end Site

/-! ## The sites of a tree -/

/-- The site stands in the tree: children lead down to it from the root. -/
def Tree.Holds (t : Tree) (s : Site) : Prop := ∃ n, t.root = some n ∧ Relation.ReflTransGen Site.IsParent (.root n) s

theorem Tree.holds_iff {t : Tree} {n : Node} (hr : t.root = some n) {s : Site} :
    t.Holds s ↔ s ∈ Site.root n :: (Site.root n).below := by
  rw [List.mem_cons, Site.mem_below_iff, ← Relation.reflTransGen_iff_eq_or_transGen]
  constructor
  · rintro ⟨m, hm, h⟩
    rw [hr, Option.some.injEq] at hm
    exact hm ▸ h
  · exact fun h => ⟨n, hr, h⟩

namespace Site

theorem ancestors_root (n : Node) : (root n).ancestors = [] := rfl

theorem run_append {α β : Type} {run : List α → List Site → Except TreeFault β} {left : Site → List α} {cs : List Site}
    (h : ∀ c ∈ cs, ∀ done rest, run done (c :: rest) = run ((left c).reverse ++ done) rest) (done : List α)
    (rest : List Site) : run done (cs ++ rest) = run ((cs.flatMap left).reverse ++ done) rest := by
  induction cs generalizing done with
  | nil => rfl
  | cons c cs ih =>
    rw [List.cons_append, h c List.mem_cons_self, ih fun d hd => h d (List.mem_cons_of_mem c hd), List.flatMap_cons,
      List.reverse_append, List.append_assoc]

/-- A run through pending sites stops where one of them cannot be walked, if it stops at such a site and gets through
the others. -/
theorem run_append_fault {α β : Type} {run : α → List Site → Except TreeFault β} {cs : List Site}
    (through : ∀ c ∈ cs, c.node.isWalkable = true → ∀ a rest, ∃ a', run a (c :: rest) = run a' rest)
    (stop : ∀ c ∈ cs, c.node.isWalkable = false → ∀ a rest, run a (c :: rest) = .error .noChildren)
    (hbad : ∃ c ∈ cs, c.node.isWalkable = false) (a : α) (rest : List Site) :
    run a (cs ++ rest) = .error .noChildren := by
  induction cs generalizing a with
  | nil =>
    obtain ⟨c, hc, -⟩ := hbad
    cases hc
  | cons c cs ih =>
    cases hc : c.node.isWalkable with
    | false => exact stop c List.mem_cons_self hc a _
    | true =>
      obtain ⟨a', ha'⟩ := through c List.mem_cons_self hc a (cs ++ rest)
      rw [List.cons_append, ha']
      refine ih (fun d hd => through d (List.mem_cons_of_mem c hd)) (fun d hd => stop d (List.mem_cons_of_mem c hd))
        ?_ a'
      obtain ⟨d, hd, hdw⟩ := hbad
      rcases List.mem_cons.1 hd with rfl | hd
      · rw [hc] at hdw
        cases hdw
      · exact ⟨d, hd, hdw⟩

/-- The walk through a tree lists what it has listed, then a site and those below it, and goes on with the rest. -/
theorem preorderFrom_enter (s : Site) (hs : s.node.isWalkable = true) (done rest : List Site) :
    preorderFrom done (s :: rest) = preorderFrom ((s :: s.below).reverse ++ done) rest := by
  induction s using children_induction generalizing done rest with
  | step s ih =>
    have all : ∀ done rest, preorderFrom done (s.children ++ rest) =
        preorderFrom ((s.children.flatMap fun c => c :: c.below).reverse ++ done) rest :=
      run_append fun c hc => ih c hc (isWalkable_child hs hc)
    rw [preorderFrom, if_pos ((Node.isWalkable_iff s.node).1 hs).1, all, below_eq]
    simp

/-- The walk stops at a node whose children cannot be asked for, whatever else is pending. -/
theorem preorderFrom_fault (s : Site) (hs : s.node.isWalkable = false) (done rest : List Site) :
    preorderFrom done (s :: rest) = .error .noChildren := by
  induction s using children_induction generalizing done rest with
  | step s ih =>
    rw [preorderFrom]
    split
    · next hk =>
      exact run_append_fault (fun c _ hc a rest => ⟨_, preorderFrom_enter c hc a rest⟩) ih
        (exists_child_not_walkable hs hk) _ _
    · rfl

end Site

/-- **The sites of a tree that can be walked are the root and the sites below it.** -/
theorem Tree.sites_eq {t : Tree} {n : Node} (hr : t.root = some n) (hn : n.isWalkable = true) :
    t.sites = .ok (Site.root n :: (Site.root n).below) := by
  rw [sites, hr]
  simp only [Site.preorder]
  rw [Site.preorderFrom_enter (Site.root n) hn, Site.preorderFrom]
  simp

theorem Tree.sites_eq_error {t : Tree} {n : Node} (hr : t.root = some n) (hn : n.isWalkable = false) :
    t.sites = .error .noChildren := by
  rw [sites, hr]
  exact Site.preorderFrom_fault (Site.root n) hn [] []

end Cognitive
