import Cognitive.Tree.Kind
/-!
# Sites: nodes in their place

A site is a node together with its ancestors, nearest first, and its address: the child positions that lead from it
back to the root.  Two sites of one tree are the same place exactly when their addresses are equal.  Rules that look
outward (is this the branch of an else, does the parent use the same operator) are functions of a site.
-/
namespace Cognitive

/-- A node in its place. -/
structure Site where
  node : Node
  /-- The ancestors, nearest first. -/
  up : List Node
  /-- Which child the node is of its parent, its parent of the next, and so on up. -/
  address : List Nat

namespace Site

def root (n : Node) : Site := ⟨n, [], []⟩

def children (s : Site) : List Site :=
  s.node.children.zipIdx.map fun c => ⟨c.1, s.node :: s.up, c.2 :: s.address⟩

/-- The place of the first child that stands in a field. -/
def child? (s : Site) (field : String) : Option Site :=
  s.children.find? fun c => c.node.label.field == some field

/-- The first of some ancestors that is not a pair of parentheses; the address is that of the node below them. -/
def beyondParentheses : List Node → List Nat → Option Site
  | [], _ => none
  | n :: rest, address =>
    if n.isParenthesized then beyondParentheses rest address.tail else some ⟨n, rest, address.tail⟩

def expressionParent? (s : Site) : Option Site := beyondParentheses s.up s.address

/-- The node is the branch of another conditional's else. -/
def isElseIf (s : Site) : Bool :=
  match s.up with
  | clause :: outer :: _ => clause.type == "else_clause" && outer.kind == .conditional
  | _ => false

/-- The branch that a conditional's else holds: the first named child of the else that is no comment. -/
def elseBranch? (s : Site) : Option Site :=
  match s.child? "alternative" with
  | none => none
  | some clause =>
    if clause.node.type = "else_clause" then
      clause.children.find? fun c => c.node.label.named && c.node.type != "comment"
    else some clause

/-- How many ancestors deepen the nesting: the nesting at which a function here starts. -/
def baseNesting (s : Site) : Nat := s.up.countP fun n => n.kind.deepens

/-- How many nodes some sites and their descendants are. -/
def totalSize (sites : List Site) : Nat := Node.totalSize (sites.map (·.node))

theorem map_node_children (s : Site) : s.children.map (·.node) = s.node.children := by
  simp [children, Function.comp_def]

theorem totalSize_cons (s : Site) (rest : List Site) : totalSize (s :: rest) = s.node.size + totalSize rest := rfl

theorem totalSize_children (s : Site) (rest : List Site) :
    totalSize (s.children ++ rest) + 1 = totalSize (s :: rest) := by
  simp [totalSize, Node.totalSize_append, map_node_children, Node.totalSize, Node.size_eq s.node]
  omega

/-- The sites at or below some pending ones, in pre-order, after those already passed, which are held in reverse. -/
def preorderFrom (done : List Site) : List Site → Except TreeFault (List Site)
  | [] => .ok done.reverse
  | s :: rest =>
    if s.node.label.childrenKnown then preorderFrom (s :: done) (s.children ++ rest) else .error .noChildren
termination_by pending => totalSize pending
decreasing_by
  have := totalSize_children s rest
  omega

/-- The sites at or below one, in pre-order: each before its descendants, and siblings in order. -/
def preorder (s : Site) : Except TreeFault (List Site) := preorderFrom [] [s]

end Site

def Tree.sites (t : Tree) : Except TreeFault (List Site) :=
  match t.root with
  | none => .error (.noRoot "is_named")
  | some n => (Site.root n).preorder

end Cognitive
