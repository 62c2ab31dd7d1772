import Cognitive.Tree.Site
/-!
# What a node costs

Entering a node costs points and may open a level of nesting for what is inside it.  A conditional costs one more than
the nesting it stands at and opens a level; as the branch of another conditional's else it costs one level less and
opens none, so a chain of them grows evenly.  A conditional with an else branch that is no conditional costs one more.
Loops, handlers and ternaries cost one more than their nesting and open a level; a switch only opens one.  A case, a
run of one logical operator, a labelled jump and a plain call of the function by its own name cost one each.
-/
namespace Cognitive

/-- What entering a node does: the points it costs and the levels of nesting it opens. -/
structure Effect where
  points : Int
  opened : Int
deriving DecidableEq, Repr

namespace Site

/-- The node goes on with its parent's run: the parent, looked for through parentheses, uses the same operator. -/
def continuesRun (s : Site) : Bool :=
  match s.expressionParent? with
  | some p => p.node.kind == .logical && p.node.logicalOperator? == s.node.logicalOperator?
  | none => false

/-- The plain name that the node calls with arguments, and not through an optional chain. -/
def plainCallee? (s : Site) : Option Node :=
  match s.node.child? "function", s.node.child? "arguments" with
  | some callee, some arguments =>
    if callee.type = "identifier" ∧ arguments.type = "arguments" ∧
        s.node.children.all (fun c => c.type != "optional_chain") then some callee
    else none
  | _, _ => none

/-- The node calls the function of the given name; the empty name is no name. -/
def callsName (src : Source) (s : Site) (name : Option String) : Bool :=
  match name, s.plainCallee? with
  | some called, some callee => !called.isEmpty && callee.text src == called
  | _, _ => false

/-- The conditional has an else branch that is no conditional itself. -/
def hasPlainElse (s : Site) : Bool :=
  match s.elseBranch? with
  | some branch => branch.node.kind != .conditional
  | none => false

def pointIf (b : Bool) : Int := if b then 1 else 0

/-- What entering a node does at some nesting, in a function of some name. -/
def effect (src : Source) (name : Option String) (s : Site) (nesting : Int) : Effect :=
  match s.node.kind with
  | .conditional =>
    if s.isElseIf then ⟨1 + (nesting - 1) + pointIf s.hasPlainElse, 0⟩
    else ⟨1 + nesting + pointIf s.hasPlainElse, 1⟩
  | .forLoop | .whileLoop | .doWhileLoop | .handler | .ternary => ⟨1 + nesting, 1⟩
  | .switch => ⟨0, 1⟩
  | .switchCase => ⟨1, 0⟩
  | .logical => ⟨pointIf !s.continuesRun, 0⟩
  | .call => ⟨pointIf (s.callsName src name), 0⟩
  | .breakJump | .continueJump => ⟨pointIf (s.node.child? "label").isSome, 0⟩
  | _ => ⟨0, 0⟩

/-- Whether the node opens a level of nesting: this hangs on its kind and place alone. -/
def opensLevel (s : Site) : Bool :=
  match s.node.kind with
  | .conditional => !s.isElseIf
  | .forLoop | .whileLoop | .doWhileLoop | .handler | .ternary | .switch => true
  | _ => false

/-- The levels a node opens are the same at every nesting. -/
theorem effect_opened (src : Source) (name : Option String) (s : Site) (nesting : Int) :
    (s.effect src name nesting).opened = pointIf s.opensLevel := by
  unfold effect opensLevel
  cases s.node.kind <;> simp [pointIf]
  cases s.isElseIf <;> simp

end Site
end Cognitive
