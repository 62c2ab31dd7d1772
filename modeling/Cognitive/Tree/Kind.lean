import Cognitive.Tree.Node
/-!
# Kinds of nodes

The measures tell a fixed set of kinds apart.  A node's kind follows from the type that its grammar names; a binary
expression is a logical one when its operator is one of the three that stop early.  Every other node, and every node
without a rule of its own, is `other` and has no effect.
-/
namespace Cognitive

/-- The kinds of nodes that the measures tell apart. -/
inductive Kind where
  | function
  | method
  | conditional
  | switch
  | switchCase
  | forLoop
  | whileLoop
  | doWhileLoop
  | handler
  | logical
  | ternary
  | call
  | breakJump
  | continueJump
  | identifier
  | declarator
  | property
  | other
deriving DecidableEq, Repr

namespace Kind

def name : Kind → String
  | function => "function"
  | method => "method"
  | conditional => "if"
  | switch => "switch"
  | switchCase => "switch_case"
  | forLoop => "for_loop"
  | whileLoop => "while_loop"
  | doWhileLoop => "do_while_loop"
  | handler => "catch"
  | logical => "logical_expr"
  | ternary => "conditional_expr"
  | call => "call"
  | breakJump => "break"
  | continueJump => "continue"
  | identifier => "identifier"
  | declarator => "variable_declarator"
  | property => "object_property"
  | other => "other"

/-- The kinds by the type that a grammar names; binary expressions depend on their operator and are not here. -/
def byType : List (String × Kind) :=
  [("function", function), ("function_expression", function), ("function_declaration", function),
   ("generator_function", function), ("generator_function_declaration", function), ("arrow_function", function),
   ("method_definition", method), ("if_statement", conditional), ("switch_statement", switch),
   ("switch_case", switchCase), ("switch_default", switchCase), ("for_statement", forLoop),
   ("for_in_statement", forLoop), ("while_statement", whileLoop), ("do_statement", doWhileLoop),
   ("catch_clause", handler), ("ternary_expression", ternary), ("call_expression", call),
   ("break_statement", breakJump), ("continue_statement", continueJump), ("identifier", identifier),
   ("property_identifier", identifier), ("variable_declarator", declarator), ("pair", property)]

def ofType (type : String) : Kind := (byType.lookup type).getD other

/-- Functions and methods, which are recorded and scored on their own. -/
def isFunctionLike : Kind → Bool
  | function | method => true
  | _ => false

/-- The kinds whose nodes deepen the nesting that a function inside them starts at. -/
def deepens : Kind → Bool
  | function | method | conditional | forLoop | whileLoop | doWhileLoop | switch | handler => true
  | _ => false

/-- Loops, handlers and ternaries, which cost more the deeper they stand and deepen what is inside them. -/
def isStructural : Kind → Bool
  | forLoop | whileLoop | doWhileLoop | handler | ternary => true
  | _ => false

end Kind

def logicalOperators : List String := ["&&", "||", "??"]

namespace Node

/-- The operator of an expression, if it is one that stops early. -/
def logicalOperator? (n : Node) : Option String :=
  match n.child? "operator" with
  | some op => if op.type ∈ logicalOperators then some op.type else none
  | none => none

def kind (n : Node) : Kind :=
  if !n.label.named then .other
  else if n.type = "binary_expression" then
    if n.logicalOperator?.isSome then .logical else .other
  else Kind.ofType n.type

def isFunctionLike (n : Node) : Bool := n.kind.isFunctionLike

theorem isFunctionLike_of_kind {n : Node} {k : Kind} (h : n.kind = k) (hk : k.isFunctionLike = false) :
    n.isFunctionLike = false := by
  rw [isFunctionLike, h, hk]

/-- The node is a pair of parentheses around an expression. -/
def isParenthesized (n : Node) : Bool := n.type == "parenthesized_expression"

end Node
end Cognitive
