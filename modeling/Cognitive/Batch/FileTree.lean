import Cognitive.Batch.EntryName
import Cognitive.Settings.Filter
/-!
# Trees of files

What goes by a name in a folder is a file or a folder, never both.  Putting a file into a tree makes the folders on its
way that are not there yet, and takes the place of a file with the same path.  A tree keeps the names in each folder in
rising order, the order in which a selection visits them.  A selection enters folders one inside the other as deep as
the call stack has room for; how deep that is hangs on the machine and is a parameter.
-/
namespace Cognitive

/-- The files and folders in a folder, by their names. -/
inductive FileTree (α : Type) where
  | empty
  | file (name : String) (content : α) (rest : FileTree α)
  | folder (name : String) (inside rest : FileTree α)

namespace FileTree

variable {α : Type}

/-- What goes by a name in a folder. -/
inductive Item (α : Type) where
  | file (content : α)
  | folder (inside : FileTree α)

def cons (name : String) : Item α → FileTree α → FileTree α
  | .file a, rest => .file name a rest
  | .folder t, rest => .folder name t rest

/-- What goes by a name. -/
def item? (name : String) : FileTree α → Option (Item α)
  | .empty => none
  | .file n a rest => if n = name then some (.file a) else item? name rest
  | .folder n t rest => if n = name then some (.folder t) else item? name rest

/-- Lets a name stand for an item, whatever it stood for. -/
def set (name : String) (i : Item α) : FileTree α → FileTree α
  | .empty => cons name i .empty
  | .file n a rest =>
    if n = name then cons name i rest
    else if name < n then cons name i (.file n a rest)
    else .file n a (set name i rest)
  | .folder n t rest =>
    if n = name then cons name i rest
    else if name < n then cons name i (.folder n t rest)
    else .folder n t (set name i rest)

/-- Puts a file into the last of some folders, each in the one before; none when one of them is a file, or when the name
of the file is a folder's. -/
def put (leaf : String) (a : α) : (folders : List String) → FileTree α → Option (FileTree α)
  | [], t =>
    match t.item? leaf with
    | some (.folder _) => none
    | _ => some (t.set leaf (.file a))
  | f :: rest, t =>
    match t.item? f with
    | some (.file _) => none
    | some (.folder inside) => (put leaf a rest inside).map fun inside => t.set f (.folder inside)
    | none => (put leaf a rest .empty).map fun inside => t.set f (.folder inside)

/-- A folder of this name is passed over with all it holds. -/
def isPassedOver (s : Settings) (name : String) : Outcome Bool :=
  if EntryName.noiseFolders.contains name then .ok true else s.isIgnored name

/-- The source files of a tree that lie in no folder that is passed over, by their names with those of the folders in
front, in the order of a visit.  `room` is how many folders inside each other a visit may still enter before the call
stack is used up. -/
def select (s : Settings) (room : Nat) (lead : String) : FileTree α → Outcome (List (String × α))
  | .empty => .ok []
  | .file name a rest => do
    let isSource ← s.isSource name
    let later ← select s room lead rest
    return (if isSource then [(lead ++ name, a)] else []) ++ later
  | .folder name inside rest => do
    let passedOver ← isPassedOver s name
    let here ← (if passedOver then .ok []
      else if room = 0 then breakDown .tooDeep
      else select s (room - 1) (lead ++ name ++ "/") inside : Outcome _)
    let later ← select s room lead rest
    return here ++ later

end FileTree
end Cognitive
