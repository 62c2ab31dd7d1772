import Cognitive.Scoring.Effect
/-!
# Scoring a function

The score of a function is what its descendants cost, each at the nesting it stands at.  The walk keeps the work still
to do as a list: nodes to enter, and levels of nesting to close once everything inside a node has been passed.  A
function or method inside is skipped with all it holds, because it is scored on its own.
-/
namespace Cognitive

/-- A piece of work: enter a node, or close the levels that a node opened. -/
inductive Work where
  | enter (s : Site)
  | close (levels : Int)

namespace Work

/-- An upper bound for the steps that a piece of work takes. -/
def weight : Work → Nat
  | .enter s => 2 * s.node.size
  | .close _ => 1

/-- An upper bound for the steps that some pieces of work take. -/
def totalWeight : List Work → Nat
  | [] => 0
  | w :: rest => w.weight + totalWeight rest

theorem totalWeight_enter (sites : List Site) : totalWeight (sites.map Work.enter) = 2 * Site.totalSize sites := by
  induction sites with
  | nil => rfl
  | cons s rest ih =>
    rw [List.map_cons, totalWeight, ih, Site.totalSize_cons, weight]
    omega

theorem totalWeight_append (a b : List Work) : totalWeight (a ++ b) = totalWeight a + totalWeight b := by
  induction a with
  | nil => rw [List.nil_append, totalWeight, Nat.zero_add]
  | cons w rest ih => rw [List.cons_append, totalWeight, totalWeight, ih, Nat.add_assoc]

end Work

/-- How far a walk has come: the points so far, the nesting it stands at, and the work still to do. -/
structure Walk where
  points : Int
  nesting : Int
  pending : List Work

namespace Walk

/-- The walk before its first step: the children of a node are to be entered. -/
def start (s : Site) (nesting : Int) : Walk := ⟨0, nesting, s.children.map .enter⟩

/-- Enters a node: its points are added, its levels opened, and its children go before the rest of the work. -/
def enter (src : Source) (name : Option String) (w : Walk) (s : Site) (rest : List Work) : Walk :=
  let e := s.effect src name w.nesting
  ⟨w.points + e.points, w.nesting + e.opened, s.children.map .enter ++ .close e.opened :: rest⟩

/-- Does one piece of work, before the rest of it. -/
def step (src : Source) (name : Option String) (w : Walk) (rest : List Work) : Work → Except TreeFault Walk
  | .close levels => .ok ⟨w.points, w.nesting - levels, rest⟩
  | .enter s =>
    if s.node.isFunctionLike then .ok ⟨w.points, w.nesting, rest⟩
    else if s.node.label.childrenKnown then .ok (w.enter src name s rest)
    else .error .noChildren

theorem weight_step {src : Source} {name : Option String} {w w' : Walk} {rest : List Work} {t : Work}
    (h : w.step src name rest t = .ok w') : Work.totalWeight w'.pending < Work.totalWeight (t :: rest) := by
  cases t with
  | close levels =>
    simp only [step, Except.ok.injEq] at h
    subst h
    simp [Work.totalWeight, Work.weight]
  | enter s =>
    have hs := Node.size_eq s.node
    simp only [step] at h
    split at h
    · cases h
      simp [Work.totalWeight, Work.weight]
      omega
    · split at h
      · cases h
        have hc : Work.totalWeight (s.children.map Work.enter) = 2 * Node.totalSize s.node.children := by
          rw [Work.totalWeight_enter, Site.totalSize, Site.map_node_children]
        simp only [enter, Work.totalWeight_append, hc]
        simp [Work.totalWeight, Work.weight]
        omega
      · cases h

def finish (src : Source) (name : Option String) (w : Walk) : Except TreeFault Walk :=
  match _work : w.pending with
  | [] => .ok w
  | t :: rest =>
    match _taken : w.step src name rest t with
    | .error fault => .error fault
    | .ok w' => finish src name w'
termination_by Work.totalWeight w.pending
decreasing_by
  rw [_work]
  exact weight_step _taken

end Walk

/-- The score of a node at some nesting, where `name` is the name by which the function may call itself. -/
def Site.score (src : Source) (s : Site) (nesting : Int) (name : Option String) : Except TreeFault Int :=
  if s.node.label.childrenKnown then ((Walk.start s nesting).finish src name).map (·.points)
  else .error .noChildren

end Cognitive
