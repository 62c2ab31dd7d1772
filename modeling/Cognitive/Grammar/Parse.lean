import Cognitive.Error
import Cognitive.Grammar.Language
import Cognitive.Tree.Site
/-!
# Parsing with error reports

A grammar turns text into a tree, in which it marks what it could not read.  A tree with an error at its root is
refused with the first error in it: the walk goes into nodes that report an error at or below them and stops at the
first error node or missing node.  Text in the fallback language that does not parse is tried again with the superset,
and keeps its own error when that fails too.
-/
namespace Cognitive

/-- The parsers: a tree for each language and text. -/
structure Grammars where
  parse : Language → String → Tree

/-- What is wrong with a text, as the first error in its tree. -/
inductive ParseFault where
  /-- Something was put in where the text lacks it. -/
  | lacking (type : String) (point : Point)
  /-- Something stands where nothing of the kind may. -/
  | unexpected (point : Point)
  /-- The root reports an error that no node shows. -/
  | unlocated
deriving DecidableEq, Repr

namespace ParseFault

/-- A position as it is shown: the line counted from one, the column from zero. -/
def place (p : Point) : String := "(" ++ toString (p.row + 1) ++ ":" ++ toString p.column ++ ")"

def reason : ParseFault → String
  | .lacking type p => "Missing " ++ type ++ " " ++ place p
  | .unexpected p => "Unexpected token " ++ place p
  | .unlocated => "Syntax error"

end ParseFault

namespace Node

def isErrorNode (n : Node) : Bool := n.type == "ERROR" || n.label.missing

/-- The first error node among some pending nodes, going only into nodes that report an error. -/
def firstErrorFrom : List Node → Except TreeFault (Option Node)
  | [] => .ok none
  | n :: rest =>
    if n.isErrorNode then .ok (some n)
    else if n.label.erroneous then
      if n.label.childrenKnown then firstErrorFrom (n.children ++ rest) else .error .noChildren
    else firstErrorFrom rest
termination_by pending => totalSize pending
decreasing_by
  · simp [totalSize_append, totalSize, size_eq n]
  · have := size_eq n
    simp [totalSize]
    omega

/-- What the tree below a root says is wrong with the text. -/
def fault (src : Source) (root : Node) : Except TreeFault ParseFault := do
  match ← firstErrorFrom [root] with
  | none => return .unlocated
  | some n =>
    match n.startPoint? src with
    | none => throw .noPosition
    | some p => return if n.label.missing then .lacking n.type p else .unexpected p

end Node

namespace Grammars

/-- The tree of a text in one language, or the first error in it. -/
def parseAs (g : Grammars) (text path : String) (l : Language) : Outcome Tree :=
  let tree := g.parse l text
  match tree.root with
  | none => breakDown (.tree (.noRoot "has_error"))
  | some root =>
    if root.label.erroneous then
      match root.fault tree.source with
      | .ok fault => refuse (.parsing path l.name fault.reason)
      | .error hole => breakDown (.tree hole)
    else .ok tree

/-- The tree of a text in a language given by its name. -/
def parseNamed (g : Grammars) (text path language : String) : Outcome Tree :=
  match Language.ofName? language with
  | some l => g.parseAs text path l
  | none => refuse (.unsupportedLanguage language (Language.all.map Language.name))

def isParseFailure {α : Type} : Outcome α → Bool
  | .error (.refused r) => r.cls == .parsing
  | _ => false

/-- The tree of a text in the language that its path selects. -/
def parseText (g : Grammars) (text path : String) : Outcome Tree :=
  let l := (Language.detect? path).getD Language.fallback
  let first := g.parseAs text path l
  if l = Language.fallback ∧ isParseFailure first then
    let second := g.parseAs text path Language.superset
    if isParseFailure second then first else second
  else first

/-- The tree of a source in the language that its path selects; it is encoded first. -/
def parseFile (g : Grammars) (source : Script) (path : String) : Outcome Tree := do
  g.parseText (← source.encode) path

theorem parseFile_ofString (g : Grammars) (text path : String) : g.parseFile text path = g.parseText text path := by
  simp only [parseFile, Script.encode_ofString, bind, Except.bind]

theorem parseFile_of_torn {g : Grammars} {source : Script} {tear : Tear}
    (h : source.encode = breakDown (.unencodable tear)) (path : String) :
    g.parseFile source path = breakDown (.unencodable tear) := by
  simp only [parseFile, h, breakDown, bind, Except.bind]

end Grammars
end Cognitive
