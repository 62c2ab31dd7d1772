import Cognitive.Metrics.Record
import Cognitive.Scoring.Walk
/-!
# The inventory of a file

Every function and method of a tree, nested ones included, gets a record, in pre-order.  Its name is its own, else that
of the variable it is bound to, else the key of the property it is the value of, else its key as a method; without any
of these it is anonymous.  The name found is also the one by which the function may call itself.
-/
namespace Cognitive

def anonymous : String := "anonymous"

namespace Site

def identifierText? (src : Source) (n : Option Node) : Option String :=
  match n with
  | some n => if n.kind = .identifier then some (n.text src) else none
  | none => none

/-- The name that the place of a function gives it: of a variable, of a property, or of a method. -/
def boundName? (src : Source) (s : Site) : Option String :=
  match s.expressionParent?.map (·.node) with
  | some p =>
    match p.kind with
    | .declarator => identifierText? src (p.child? "name")
    | .property => identifierText? src (p.child? "key")
    | _ => methodKey?
  | none => methodKey?
where
  /-- The key of a method. -/
  methodKey? : Option String :=
    if s.node.kind = .method then identifierText? src (s.node.child? "name") else none

def name? (src : Source) (s : Site) : Option String :=
  match s.node.kind, s.node.child? "name" with
  | .function, some own => some (own.text src)
  | _, _ => s.boundName? src

def displayName (src : Source) (s : Site) : String := (s.name? src).getD anonymous

def lineOf (p : Option Point) : Option Int := p.map fun p => (p.row : Int) + 1

/-- The record of a function. -/
def record (src : Source) (s : Site) : Except TreeFault FunctionRecord := do
  let name := s.displayName src
  let complexity ← s.score src s.baseNesting (some name)
  return {
    name := name
    lines := (Text.LineCount.of (s.node.rangeText src)).nonBlank
    complexity := complexity
    startLine := lineOf (s.node.startPoint? src)
    endLine := lineOf (s.node.stopPoint? src) }

end Site

/-- The records of the functions of a tree, in pre-order. -/
def Tree.records (t : Tree) : Except TreeFault (List FunctionRecord) := do
  let sites ← t.sites
  (sites.filter fun s => s.node.isFunctionLike).mapM (Site.record t.source)

/-- The metrics of a file from its source and its tree.  The source is encoded before the tree is looked at; a tree that
cannot be walked is a parse failure. -/
def Tree.metrics (t : Tree) (source : Script) (path : String) : Outcome FileMetrics := do
  let text ← source.encode
  match t.records with
  | .ok records =>
    let count := Text.LineCount.of text
    return ⟨count.total, count.nonBlank, records⟩
  | .error fault => refuse (.parsing path "unknown" ("malformed syntax tree: " ++ fault.message))

end Cognitive
