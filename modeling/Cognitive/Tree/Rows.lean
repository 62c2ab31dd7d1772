import Cognitive.Tree.Site
/-!
# Trees as rows

A tree can be written as rows in pre-order, each with its depth and its label.  Reading goes from the last row to the
first and keeps the subtrees that still wait for their parent, so the depth of a tree costs no stack.
-/
namespace Cognitive

/-- One node of a tree written in pre-order. -/
structure Row where
  depth : Nat
  label : Label

namespace Row

/-- The flag bits of a row, in the order of their weights. -/
def labelOf (type : String) (flags start stop : Nat) (field : Option String) : Label where
  type := type
  named := flags.testBit 0
  missing := flags.testBit 1
  erroneous := flags.testBit 2
  start := start
  stop := stop
  field := field
  startKnown := !flags.testBit 3
  stopKnown := !flags.testBit 4
  textKnown := !flags.testBit 5
  childrenKnown := !flags.testBit 6

/-- Puts a row in front of the subtrees after it: those one level deeper, up to the first that is not, are its
children. -/
def attach (row : Row) (later : List (Nat × Node)) : List (Nat × Node) :=
  let mine := later.takeWhile fun t => row.depth < t.1
  let children := (mine.filter fun t => t.1 == row.depth + 1).map (·.2)
  (row.depth, .mk row.label children) :: later.dropWhile fun t => row.depth < t.1

def toNode? (rows : List Row) : Option Node := (rows.foldr attach []).head?.map (·.2)

end Row
end Cognitive
