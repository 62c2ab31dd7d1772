import Cognitive.Text.Utf8
import Cognitive.Text.Lines
/-!
# Concrete trees over a source

A parser gives a tree of nodes, each with the type its grammar names, a range of bytes of the source and perhaps a
field that says what it is to its parent.  A node keeps what the parser reported: whether it is named, whether it was
missing from the source, whether an error lies at or below it, and whether its position, text or list of children can
be asked for at all.  Texts and positions come from the source.
-/
namespace Cognitive

/-- The text that a tree was parsed from, with its bytes. -/
structure Source where
  bytes : ByteArray

def Source.ofString (text : String) : Source := ⟨text.toUTF8⟩

/-- A line and a column, counted from zero, the column in bytes. -/
structure Point where
  row : Nat
  column : Nat
deriving DecidableEq, Repr

/-- The text between two offsets, with a replacement character for every cut sequence. -/
def Source.text (src : Source) (start stop : Nat) : String :=
  String.ofList (Utf8.decode (Utf8.slice src.bytes start stop).toList)

/-- The line feeds and the bytes since the last of them. -/
def Point.after (bytes : List UInt8) : Point :=
  bytes.foldl (fun p b => if b = 0x0A then ⟨p.row + 1, 0⟩ else ⟨p.row, p.column + 1⟩) ⟨0, 0⟩

/-- The position of an offset, which counts as the end when it lies beyond it. -/
def Source.point (src : Source) (offset : Nat) : Point :=
  Point.after (Utf8.slice src.bytes 0 offset).toList

/-- What a parser reports of one node, its children apart. -/
structure Label where
  /-- The type that the grammar names. -/
  type : String
  /-- The node has a rule of its own in the grammar; keywords and punctuation have none. -/
  named : Bool
  /-- The parser put the node in where the source lacks it. -/
  missing : Bool
  /-- The parser reports an error at or below the node. -/
  erroneous : Bool
  /-- The offset of the first byte. -/
  start : Nat
  /-- The offset after the last byte. -/
  stop : Nat
  /-- What the node is to its parent. -/
  field : Option String
  /-- The start position can be asked for. -/
  startKnown : Bool
  /-- The end position can be asked for. -/
  stopKnown : Bool
  /-- The text can be asked for. -/
  textKnown : Bool
  /-- The list of children can be asked for. -/
  childrenKnown : Bool
deriving DecidableEq, Repr

/-- A node: its label and its children in order. -/
inductive Node where
  | mk (label : Label) (children : List Node)

namespace Node

/-- What the parser reports of the node itself. -/
def label : Node → Label
  | .mk l _ => l

def children : Node → List Node
  | .mk _ cs => cs

def type (n : Node) : String := n.label.type

mutual
def size : Node → Nat
  | .mk _ cs => 1 + totalSize cs

/-- How many nodes some nodes and their descendants are. -/
def totalSize : List Node → Nat
  | [] => 0
  | n :: rest => n.size + totalSize rest
end

def child? (n : Node) (field : String) : Option Node :=
  n.children.find? fun c => c.label.field == some field

/-- The text of a node; nothing where it cannot be asked for. -/
def text (src : Source) (n : Node) : String :=
  if n.label.textKnown then src.text n.label.start n.label.stop else ""

/-- The text of a node's range, whether or not the node gives it. -/
def rangeText (src : Source) (n : Node) : String := src.text n.label.start n.label.stop

def startPoint? (src : Source) (n : Node) : Option Point :=
  if n.label.startKnown then some (src.point n.label.start) else none

def stopPoint? (src : Source) (n : Node) : Option Point :=
  if n.label.stopKnown then some (src.point n.label.stop) else none

theorem size_eq (n : Node) : n.size = 1 + totalSize n.children := by
  cases n; simp [size, children]

theorem totalSize_append (a b : List Node) : totalSize (a ++ b) = totalSize a + totalSize b := by
  induction a with
  | nil => simp [totalSize]
  | cons n a ih => simp [totalSize, ih]; omega

end Node

/-- A parsed source: the source and the root, where the parser gives one. -/
structure Tree where
  source : Source
  root : Option Node

/-- What makes a tree impossible to walk or to describe. -/
inductive TreeFault where
  /-- There is no root, so it has no such attribute. -/
  | noRoot (wanted : String)
  /-- A list of children cannot be asked for. -/
  | noChildren
  /-- A position cannot be asked for. -/
  | noPosition
deriving DecidableEq, Repr

def TreeFault.message : TreeFault → String
  | .noRoot wanted => "'NoneType' object has no attribute '" ++ wanted ++ "'"
  | .noChildren => "'NoneType' object is not reversible"
  | .noPosition => "cannot unpack non-iterable NoneType object"

end Cognitive
