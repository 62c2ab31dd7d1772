import Cognitive.Text.Script
import Cognitive.Value.Basic
/-!
# JSON data

The data that JSON gives.  Its texts may hold lone halves of surrogate pairs, which data values never do.
-/
namespace Cognitive

open Number

/-- What JSON says. -/
inductive Json where
  | null
  | bool (b : Bool)
  | int (n : Int)
  | float (x : Binary64)
  | str (s : Script)
  | list (items : List Json)
  | object (entries : List (Script × Json))
deriving Repr

namespace Json

/-- The entries of an object in the order in which their keys first came. -/
abbrev Entries := List (Script × Json)

/-- Sets a key: a known key keeps its place, a new one goes to the end. -/
def Entries.put (key : Script) (v : Json) : Entries → Entries
  | [] => [(key, v)]
  | (k, w) :: rest => if k = key then (k, v) :: rest else (k, w) :: put key v rest

/-- What goes by a key in an object. -/
def entry? (key : Script) : Json → Option Json
  | .object entries => entries.lookup key
  | _ => none

mutual
/-- JSON as a data value, with its texts as they are shown. -/
def shown : Json → Value
  | .null => .null
  | .bool b => .bool b
  | .int n => .int n
  | .float x => .float x
  | .str s => .str s.shown
  | .list items => .list (shownItems items)
  | .object entries => .table (shownEntries entries)

def shownItems : List Json → List Value
  | [] => []
  | v :: rest => v.shown :: shownItems rest

def shownEntries : List (Script × Json) → List (String × Value)
  | [] => []
  | (k, v) :: rest => (k.shown, v.shown) :: shownEntries rest
end

end Json
end Cognitive
