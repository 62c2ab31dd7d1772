import Cognitive.Grammar.Parse
import Cognitive.Tree.Rows
/-!
# Recorded parses

Parsers can be given as a record of what they said: for a language and a source, the nodes of the tree in rows.  A row
is a list of its depth, its type, its flags, its offsets and perhaps its field.  A source that is not on record has a
tree without a root.
-/
namespace Cognitive

namespace Value

/-- The items of a list; none for any other value. -/
def list? : Value → List Value
  | .list items => items
  | _ => []

def nat (v : Value) : Nat :=
  match v with
  | .int n => n.toNat
  | _ => 0

/-- An entry of a table; nothing where there is none. -/
def entry (v : Value) (key : String) : Value :=
  match v with
  | .table t => (Table.get? t key).getD .null
  | _ => .null

def textOrEmpty (v : Value) : String := v.str?.getD ""

end Value

def Row.ofParts : List Value → Row
  | depth :: type :: flags :: start :: stop :: rest =>
    ⟨depth.nat, Row.labelOf type.textOrEmpty flags.nat start.nat stop.nat (rest.head?.bind Value.str?)⟩
  | _ => ⟨0, Row.labelOf "" 0 0 0 none⟩

def Tree.ofRecord (v : Value) : Tree :=
  ⟨.ofString (v.entry "source").textOrEmpty, Row.toNode? ((v.entry "nodes").list?.map fun row => .ofParts row.list?)⟩

def Grammars.ofRecords (records : List Value) : Grammars where
  parse l text :=
    match records.find? fun r => (r.entry "language").str? == some l.name && (r.entry "source").str? == some text with
    | some r => .ofRecord r
    | none => ⟨.ofString text, none⟩

end Cognitive
