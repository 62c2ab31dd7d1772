import Cognitive.Value.Basic
/-!
# Writing JSON

JSON in ASCII: every character outside printable ASCII is escaped by its UTF-16 code units.  `write` puts each item of
a list or object on a line of its own, two spaces deeper than its parent; `writeCompact` uses no space at all.
-/
namespace Cognitive
namespace Json

open Text

def escapedUnit (n : Nat) : List Char := hexEscape 'u' 4 n

def escaped (c : Char) : List Char :=
  if c = '"' ∨ c = '\\' then ['\\', c]
  else if c = '\n' then ['\\', 'n']
  else if c = '\r' then ['\\', 'r']
  else if c = '\t' then ['\\', 't']
  else if c.toNat = 8 then ['\\', 'b']
  else if c.toNat = 12 then ['\\', 'f']
  else if 0x20 ≤ c.toNat ∧ c.toNat ≤ 0x7E then [c]
  else if c.toNat < 0x10000 then escapedUnit c.toNat
  else
    let n := c.toNat - 0x10000
    escapedUnit (0xD800 + n / 0x400) ++ escapedUnit (0xDC00 + n % 0x400)

/-- How many characters one takes up inside a string where only what must be escaped is. -/
def writtenWidth (c : Char) : Nat := if c.toNat < 0x20 ∨ c = '"' ∨ c = '\\' then (escaped c).length else 1

def writeString (s : String) : String :=
  String.ofList ('"' :: (s.toList.flatMap escaped ++ ['"']))

def writeScalar : Value → String
  | .bool true => "true"
  | .bool false => "false"
  | .int n => toString n
  | .float .nan => "NaN"
  | .float (.infinite false) => "Infinity"
  | .float (.infinite true) => "-Infinity"
  | .float x => x.text
  | .str s => writeString s
  | _ => "null"

def newLine (level : Nat) : String := String.ofList ('\n' :: List.replicate (2 * level) ' ')

/-- What stands before the items of a list or object, between them and after them. -/
structure Spacing where
  before : Nat → String
  between : Nat → String
  after : Nat → String
  colon : String

def Spacing.lines : Spacing := ⟨newLine, fun n => "," ++ newLine n, fun n => newLine (n - 1), ": "⟩

def Spacing.none : Spacing := ⟨fun _ => "", fun _ => ",", fun _ => "", ":"⟩

mutual
/-- The text of a value, level by level, added to what is written already. -/
def writeTo (sp : Spacing) (level : Nat) (done : String) : Value → String
  | .list [] => done ++ "[]"
  | .table [] => done ++ "\x7b\x7d"
  | .list (v :: rest) =>
    writeItems sp (level + 1) (writeTo sp (level + 1) (done ++ "[" ++ sp.before (level + 1)) v) rest ++
      sp.after (level + 1) ++ "]"
  | .table ((k, v) :: rest) =>
    writeEntries sp (level + 1)
      (writeTo sp (level + 1) (done ++ "\x7b" ++ sp.before (level + 1) ++ writeString k ++ sp.colon) v) rest ++
      sp.after (level + 1) ++ "\x7d"
  | v => done ++ writeScalar v

def writeItems (sp : Spacing) (level : Nat) (done : String) : List Value → String
  | [] => done
  | v :: rest => writeItems sp level (writeTo sp level (done ++ sp.between level) v) rest

def writeEntries (sp : Spacing) (level : Nat) (done : String) : List (String × Value) → String
  | [] => done
  | (k, v) :: rest =>
    writeEntries sp level (writeTo sp level (done ++ sp.between level ++ writeString k ++ sp.colon) v) rest
end

def write (v : Value) : String := writeTo .lines 0 "" v

def writeCompact (v : Value) : String := writeTo .none 0 "" v

end Json
end Cognitive
