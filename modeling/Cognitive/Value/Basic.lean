import Cognitive.Number.Decimal
import Cognitive.Number.Numeral
import Cognitive.Text.Quoted
import Cognitive.Text.Split
import Cognitive.Value.Moment
/-!
# Data values

The values that settings files, request bodies and reports are made of: nothing, truth values, whole numbers, doubles,
text, dates and times, lists, and tables whose entries keep the order in which their keys first came.  A value has a
name for its kind and a text, in which nested text is quoted.
-/
namespace Cognitive

open Number

/-- A data value. -/
inductive Value where
  | null
  | bool (b : Bool)
  | int (n : Int)
  | float (x : Binary64)
  | str (s : String)
  | moment (m : Moment)
  | list (items : List Value)
  | table (entries : List (String × Value))
deriving Repr

/-- A table: entries in the order in which their keys first came. -/
abbrev Table := List (String × Value)

namespace Table

def get? : Table → String → Option Value
  | [], _ => none
  | (k, v) :: rest, key => if k = key then some v else get? rest key

/-- Sets a key: a known key keeps its place, a new one goes to the end. -/
def put (key : String) (v : Value) : Table → Table
  | [] => [(key, v)]
  | (k, w) :: rest => if k = key then (k, v) :: rest else (k, w) :: put key v rest

def merge (t extra : Table) : Table := extra.foldl (fun t e => put e.1 e.2 t) t

@[simp] theorem get?_put_self (key : String) (v : Value) (t : Table) : (t.put key v).get? key = some v := by
  induction t with
  | nil => simp [put, get?]
  | cons e t ih =>
    obtain ⟨k, w⟩ := e
    by_cases h : k = key <;> simp [put, get?, h, ih]

theorem get?_put_of_ne {key other : String} (v : Value) (t : Table) (h : key ≠ other) :
    (t.put key v).get? other = t.get? other := by
  induction t with
  | nil => simp [put, get?, h]
  | cons e t ih =>
    obtain ⟨k, w⟩ := e
    by_cases hk : k = key
    · subst hk
      simp [put, get?, h]
    · by_cases ho : k = other
      · subst ho
        simp [put, get?, hk]
      · simp [put, get?, hk, ho, ih]

end Table

namespace Value

def kindName : Value → String
  | .null => "NoneType"
  | .bool _ => "bool"
  | .int _ => "int"
  | .float _ => "float"
  | .str _ => "str"
  | .moment m => m.kindName
  | .list _ => "list"
  | .table _ => "dict"

mutual
/-- The text of a value inside a list or table, where text is quoted. -/
def inner : Value → String
  | .null => "None"
  | .bool true => "True"
  | .bool false => "False"
  | .int n => toString n
  | .float x => x.text
  | .str s => Text.quoted s
  | .moment m => m.inner
  | .list items => "[" ++ Text.join ", " (innerItems items) ++ "]"
  | .table entries => "\x7b" ++ Text.join ", " (innerEntries entries) ++ "\x7d"

def innerItems : List Value → List String
  | [] => []
  | v :: rest => v.inner :: innerItems rest

def innerEntries : List (String × Value) → List String
  | [] => []
  | (k, v) :: rest => (Text.quoted k ++ ": " ++ v.inner) :: innerEntries rest
end

/-- The text of a value: text and moments bare, everything else as inside a list. -/
def text : Value → String
  | .str s => s
  | .moment m => m.text
  | v => v.inner

mutual
/-- The value is or holds a whole number with too many digits to be written. -/
def isTooLong : Value → Bool
  | .int n => decide (Nat.pow 10 maxDigits ≤ n.natAbs)
  | .list items => anyTooLong items
  | .table entries => anyEntryTooLong entries
  | _ => false

def anyTooLong : List Value → Bool
  | [] => false
  | v :: rest => v.isTooLong || anyTooLong rest

def anyEntryTooLong : List (String × Value) → Bool
  | [] => false
  | (_, v) :: rest => v.isTooLong || anyEntryTooLong rest
end

/-- The value counts as true: it is not nothing, false, zero or empty. -/
def truthy : Value → Bool
  | .null => false
  | .bool b => b
  | .int n => n != 0
  | .float x => x.lt .zero || Binary64.zero.lt x || x == .nan
  | .str s => !s.isEmpty
  | .moment _ => true
  | .list items => !items.isEmpty
  | .table entries => !entries.isEmpty

def str? : Value → Option String
  | .str s => some s
  | _ => none

end Value
end Cognitive
