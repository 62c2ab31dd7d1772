import Cognitive.Text.Utf8
import Cognitive.Toml.Scalar
/-!
# Documents of TOML

A document is a list of statements, one to a line: entries `key = value` and headers that say which table the entries
after them belong to.  While a document is read a draft of its table is kept, with two sorts of marks on paths.  An
opened path was named by a header or gone through by a key with dots, and no header may open it again.  A sealed path
holds a written list or table, and nothing at or below it may change.  Keys with dots go through opened paths only
within the section that opened them.
-/
namespace Cognitive
namespace Toml

/-! ## Values -/

/-- Space, line feeds and comments, as they may stand between the items of a list. -/
def skipBetween : (fuel : Nat) → List Char → Except Fault (List Char)
  | 0, _ => .error .malformed
  | fuel + 1, text =>
    match text.dropWhile isSpaceOrLine with
    | '#' :: rest =>
      if (rest.takeWhile (· != '\n')).any (isIllegal false) then .error .malformed
      else skipBetween fuel (rest.dropWhile (· != '\n'))
    | rest => .ok rest

/-- Applies a change to the table at a path, where missing tables on the way are made.  A list on the way stands for
its last item if lists may be entered.  Anything else on the way that is no table stops the change. -/
def changeAt (enterLists : Bool) : List String → (Table → Option Table) → Table → Option Table
  | [], change, t => change t
  | k :: path, change, t =>
    match (Table.get? t k).getD (.table []) with
    | .table inner => (changeAt enterLists path change inner).map fun new => Table.put k (.table new) t
    | .list items =>
      match enterLists, items.getLast? with
      | true, some (.table inner) =>
        (changeAt enterLists path change inner).map fun new =>
          Table.put k (.list (items.dropLast ++ [.table new])) t
      | _, _ => none
    | _ => none

def addNew (k : String) (v : Value) (t : Table) : Option Table :=
  if (Table.get? t k).isSome then none else some (Table.put k v t)

/-- The value is a list or a table, which cannot be changed once it is written. -/
def isWhole : Value → Bool
  | .list _ | .table _ => true
  | _ => false

/-- Some of the paths leads to a given one or to a table around it. -/
def covers (paths : List (List String)) (path : List String) : Bool := paths.any fun p => p.isPrefixOf path

/-- Adds an entry to a written table: the table so far and the sealed paths in it. -/
def addInline (draft : Table × List (List String)) (path : List String) (v : Value) :
    Except Fault (Table × List (List String)) :=
  if covers draft.2 path then .error .malformed
  else match changeAt false path.dropLast (addNew (path.getLast?.getD "") v) draft.1 with
    | some t => .ok (t, if isWhole v then path :: draft.2 else draft.2)
    | none => .error .malformed

mutual
def value : (fuel : Nat) → List Char → Except Fault (Value × List Char)
  | 0, _ => .error .malformed
  | fuel + 1, text =>
    match text with
    | '[' :: rest => do
      match ← skipBetween (rest.length + 1) rest with
      | ']' :: rest' => return (.list [], rest')
      | rest' => items fuel [] rest'
    | '{' :: rest =>
      match skipSpace rest with
      | '}' :: rest' => .ok (.table [], rest')
      | rest' => inlineEntries fuel ([], []) rest'
    | _ => scalar text

/-- The rest of a list whose items so far are held in reverse. -/
def items : (fuel : Nat) → (done : List Value) → List Char → Except Fault (Value × List Char)
  | 0, _, _ => .error .malformed
  | fuel + 1, done, text => do
    let (v, rest) ← value fuel text
    match ← skipBetween (rest.length + 1) rest with
    | ']' :: rest' => return (.list (v :: done).reverse, rest')
    | ',' :: rest' =>
      match ← skipBetween (rest'.length + 1) rest' with
      | ']' :: rest'' => return (.list (v :: done).reverse, rest'')
      | rest'' => items fuel (v :: done) rest''
    | _ => throw .malformed

def inlineEntries : (fuel : Nat) → (draft : Table × List (List String)) → List Char → Except Fault (Value × List Char)
  | 0, _, _ => .error .malformed
  | fuel + 1, draft, text => do
    let (path, rest) ← key text
    match rest with
    | '=' :: rest =>
      let (v, rest) ← value fuel (skipSpace rest)
      let draft' ← addInline draft path v
      match skipSpace rest with
      | '}' :: rest' => return (.table draft'.1, rest')
      | ',' :: rest' => inlineEntries fuel draft' (skipSpace rest')
      | _ => throw .malformed
    | _ => throw .malformed
end

/-! ## Statements -/

/-- A document as far as it has been read. -/
structure Draft where
  table : Table
  /-- Paths that no header may open again. -/
  opened : List (List String)
  /-- Paths that hold a written list or table. -/
  sealed : List (List String)
  /-- Paths that keys with dots went through in this section. -/
  passed : List (List String)
  /-- The table that entries belong to. -/
  header : List String

def Draft.empty : Draft := ⟨[], [], [], [], []⟩

namespace Draft

/-- Ends a section: the paths gone through in it count as opened from now on. -/
def endSection (d : Draft) : Draft := { d with opened := d.passed ++ d.opened, passed := [] }

def openTable (d : Draft) (path : List String) : Except Fault Draft :=
  if d.opened.contains path || covers d.sealed path then .error .malformed
  else match changeAt true path some d.table with
    | some t => .ok { d with table := t, opened := path :: d.opened, header := path }
    | none => .error .malformed

def appendTable (k : String) (t : Table) : Option Table :=
  match Table.get? t k with
  | none => some (Table.put k (.list [.table []]) t)
  | some (.list items) => some (Table.put k (.list (items ++ [.table []])) t)
  | some _ => none

/-- Opens a new table at the end of a list by its header.  What was said of the path before belongs to the tables in
front of it. -/
def openItem (d : Draft) (path : List String) : Except Fault Draft :=
  if covers d.sealed path then .error .malformed
  else
    let keep := fun p => !path.isPrefixOf p
    match changeAt true path.dropLast (appendTable (path.getLast?.getD "")) d.table with
    | some t =>
      .ok { d with
        table := t
        opened := path :: d.opened.filter keep
        sealed := d.sealed.filter keep
        header := path }
    | none => .error .malformed

/-- The paths that a key goes through, from the table of the section on. -/
def passedBy (d : Draft) (path : List String) : List (List String) :=
  (List.range path.length).drop 1 |>.map fun n => d.header ++ path.take n

def addEntry (d : Draft) (path : List String) (v : Value) : Except Fault Draft :=
  let passes := d.passedBy path
  let full := d.header ++ path
  if passes.any d.opened.contains || covers d.sealed full.dropLast then .error .malformed
  else match changeAt true full.dropLast (addNew (path.getLast?.getD "") v) d.table with
    | some t =>
      .ok { d with
        table := t
        passed := passes ++ d.passed
        sealed := if isWhole v then full :: d.sealed else d.sealed }
    | none => .error .malformed

end Draft

/-- A header, whose first bracket has been read. -/
def headerStatement (d : Draft) (text : List Char) : Except Fault (Draft × List Char) := do
  match text with
  | '[' :: rest =>
    let (path, rest) ← key (skipSpace rest)
    let d' ← d.endSection.openItem path
    match rest with
    | ']' :: ']' :: rest' => return (d', rest')
    | _ => throw .malformed
  | _ =>
    let (path, rest) ← key (skipSpace text)
    let d' ← d.endSection.openTable path
    match rest with
    | ']' :: rest' => return (d', rest')
    | _ => throw .malformed

def entryStatement (d : Draft) (text : List Char) : Except Fault (Draft × List Char) := do
  let (path, rest) ← key text
  match rest with
  | '=' :: rest =>
    let (v, rest) ← value (text.length + 1) (skipSpace rest)
    return (← d.addEntry path v, rest)
  | _ => throw .malformed

/-- The end of a line: space, a comment perhaps, and a line feed or the end of the text. -/
def lineEnd (text : List Char) : Except Fault (List Char) :=
  let rest := skipSpace text
  let body := match rest with
    | '#' :: comment =>
      if (comment.takeWhile (· != '\n')).any (isIllegal false) then none else some (comment.dropWhile (· != '\n'))
    | _ => some rest
  match body with
  | none => .error .malformed
  | some [] => .ok []
  | some ('\n' :: rest') => .ok rest'
  | some _ => .error .malformed

/-- One line: a header, an entry, or nothing. -/
def statement (d : Draft) (text : List Char) : Except Fault (Draft × List Char) :=
  match text with
  | '[' :: rest => headerStatement d rest
  | [] | '\n' :: _ | '#' :: _ => .ok (d, text)
  | _ => entryStatement d text

/-- The lines of a document after those already in a draft. -/
def statements : (fuel : Nat) → Draft → List Char → Except Fault Draft
  | 0, _, _ => .error .malformed
  | fuel + 1, d, text => do
    let (d', rest) ← statement d (skipSpace text)
    match ← lineEnd rest with
    | [] => return d'
    | rest' => statements fuel d' rest'

/-- The text with every carriage return removed that a line feed follows. -/
def plainLines : List Char → List Char
  | '\r' :: '\n' :: rest => '\n' :: plainLines rest
  | c :: rest => c :: plainLines rest
  | [] => []

def read (text : List Char) : Except Fault Table :=
  (statements (text.length + 1) .empty (plainLines text)).map Draft.table

def readBytes (bytes : ByteArray) : Except Fault Table :=
  match Utf8.decode? bytes.toList with
  | some text => read text
  | none => .error .notUtf8

end Toml
end Cognitive
