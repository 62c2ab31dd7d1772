import Cognitive.Path
/-!
# A disk

A disk holds files, folders and links, each at a path of names from the root.  Everything lies in a folder: writing an
item makes the folders around it.

* `follow` goes along a path name by name to an item that is there; `..` leaves the folder that has been reached, and a
  link goes on with its target, up to a limit.
* `place` does the same for a file that is to be written, which need not be there, but its folder must.
* `resolve` takes links out of a path as far as there are any, and goes on by the names alone where nothing is.
-/
namespace Cognitive

/-- What stands at a path. -/
inductive DiskItem where
  | file (bytes : ByteArray)
  | folder
  | link (target : String)

/-- The names that lead to an item from the root. -/
abbrev DiskPath := List String

/-- A disk: its items by path, each path once. -/
structure Disk where
  items : List (DiskPath × DiskItem)

namespace Disk

def empty : Disk := ⟨[]⟩

/-- What stands at a path, links not followed.  The root is a folder. -/
def item? (d : Disk) (path : DiskPath) : Option DiskItem :=
  if path.isEmpty then some .folder else d.items.lookup path

/-! ## Following a path -/

def linkLimit : Nat := 40

def nameLimit : Nat := 255

def pathLimit : Nat := 4095

def pathText (path : DiskPath) : String := Path.ofSegments "/" path

/-- A path as a whole may be asked for: it holds no zero character and is not too long. -/
def checkText (path : DiskPath) : Except Path.Fault Unit :=
  if (pathText path).toList.any fun c => c.toNat == 0 then .error .zeroCharacter
  else if pathLimit < (pathText path).utf8ByteSize then .error .tooLong
  else .ok ()

/-- What is wrong with a name that nothing goes by. -/
def missing (name : String) : Path.Fault := if nameLimit < name.utf8ByteSize then .tooLong else .absent

def targetStart (here : DiskPath) (target : String) : DiskPath := if Path.isAbsolute target then [] else here

/-- Follows names from a folder to an item that is there.  A void name asks for a folder. -/
def followFrom (d : Disk) (links : Nat) (here : DiskPath) : List String → Except Path.Fault DiskPath
  | [] => .ok here
  | name :: rest =>
    if name = ".." then followFrom d links here.dropLast rest
    else if Path.isVoid name then followFrom d links here rest
    else match d.item? (here ++ [name]) with
      | none => .error (missing name)
      | some .folder => followFrom d links (here ++ [name]) rest
      | some (.file _) => if rest.isEmpty then .ok (here ++ [name]) else .error .notFolder
      | some (.link target) =>
        match links with
        | 0 => .error .tooManyLinks
        | n + 1 => followFrom d n (targetStart here target) (Path.steps target ++ rest)
termination_by names => (links, names.length)

def follow (d : Disk) (path : DiskPath) : Except Path.Fault DiskPath := do
  checkText path
  d.followFrom linkLimit [] path

def find? (d : Disk) (path : DiskPath) : Option DiskItem := (d.follow path).toOption.bind d.item?

/-- Follows names from a folder to the place of a file that is to be written. -/
def placeFrom (d : Disk) (links : Nat) (here : DiskPath) : List String → Except Path.Fault DiskPath
  | [] => .error .isFolder
  | name :: rest =>
    if name = ".." then placeFrom d links here.dropLast rest
    else if Path.isVoid name then placeFrom d links here rest
    else if rest = [""] then .error .isFolder
    else match d.item? (here ++ [name]) with
      | none => if missing name = .absent ∧ rest.isEmpty then .ok (here ++ [name]) else .error (missing name)
      | some .folder => placeFrom d links (here ++ [name]) rest
      | some (.file _) => if rest.isEmpty then .ok (here ++ [name]) else .error .notFolder
      | some (.link target) =>
        match links with
        | 0 => .error .tooManyLinks
        | n + 1 => placeFrom d n (targetStart here target) (Path.steps target ++ rest)
termination_by names => (links, names.length)

def place (d : Disk) (path : DiskPath) : Except Path.Fault DiskPath := do
  checkText path
  d.placeFrom linkLimit [] path

/-! ## Writing -/

/-- Puts an item at a path, in place of what was there. -/
def put (path : DiskPath) (item : DiskItem) (d : Disk) : Disk :=
  ⟨d.items.filter (fun e => e.1 != path) ++ [(path, item)]⟩

def ensureFolder (d : Disk) (path : DiskPath) : Disk :=
  if (d.item? path).isSome then d else d.put path .folder

/-- Goes one name down from a folder, to a folder that is made if it is not there; a link is followed, and `..` leads
back up. -/
def enter (here : Disk × DiskPath) (name : String) : Disk × DiskPath :=
  if name = ".." then (here.1, here.2.dropLast)
  else
    let next := here.2 ++ [name]
    (here.1.ensureFolder next, (here.1.follow next).toOption.getD next)

/-- Writes an item and the folders around it.  A folder that is there already stays. -/
def write (path : DiskPath) (item : DiskItem) (d : Disk) : Disk :=
  let (around, folder) := path.dropLast.foldl enter (d, [])
  let target := folder ++ path.getLast?.toList
  match item with
  | .folder => around.ensureFolder target
  | .file _ => around.put ((around.place target).toOption.getD target) item
  | .link _ => around.put target item

/-- Makes an empty file at a place where there is nothing. -/
def ensureFile (d : Disk) (path : DiskPath) : Disk :=
  if (d.item? path).isSome then d else d.put path (.file ByteArray.empty)

/-! ## Resolving a path -/

/-- The path with `..` taken by the names alone. -/
def lexical (path : DiskPath) : DiskPath :=
  path.foldl (fun here name => if name = ".." then here.dropLast else here ++ [name]) []

/-- What is still to be passed while a path is resolved. -/
inductive Passage where
  | name (text : String)
  /-- The end of the target of a link. -/
  | reached (link : DiskPath)

def Passage.name? : Passage → Option String
  | .name text => some text
  | .reached _ => none

/-- Resolves what is still to be passed.  Each link is followed once, and where it led is kept in `seen`.  A link inside
its own target stays as it is, with all names behind it. -/
def resolveFrom (d : Disk) (links : Nat) (seen : List (DiskPath × Option DiskPath)) (here : DiskPath) :
    List Passage → Except Path.Fault DiskPath
  | [] => .ok here
  | .reached link :: rest => resolveFrom d links ((link, some here) :: seen) here rest
  | .name text :: rest =>
    if text = ".." then resolveFrom d links seen here.dropLast rest
    else if Path.isVoid text then resolveFrom d links seen here rest
    else if text.toList.any fun c => c.toNat == 0 then .error .zeroCharacter
    else match d.item? (here ++ [text]) with
      | some (.link target) =>
        match seen.lookup (here ++ [text]) with
        | some (some place) => resolveFrom d links seen place rest
        | some none => .ok (lexical (here ++ text :: rest.filterMap Passage.name?))
        | none =>
          match links with
          | 0 => .ok (lexical (here ++ text :: rest.filterMap Passage.name?))
          | n + 1 =>
            resolveFrom d n ((here ++ [text], none) :: seen) (targetStart here target)
              ((Path.segments target).map .name ++ .reached (here ++ [text]) :: rest)
      | _ => resolveFrom d links seen (here ++ [text]) rest
termination_by passages => (links, passages.length)

/-- The path without links and without `..`, as far as that can be. -/
def resolve (d : Disk) (path : DiskPath) : Except Path.Fault DiskPath :=
  d.resolveFrom d.items.length [] [] (path.map .name)

/-! ## Folders -/

/-- The items below a folder, by their paths from there in rising order. -/
def below (d : Disk) (folder : DiskPath) : List (DiskPath × DiskItem) :=
  let inside := d.items.filterMap fun e =>
    if folder.isPrefixOf e.1 && e.1.length != folder.length then some (e.1.drop folder.length, e.2) else none
  inside.mergeSort fun a b => !Path.isBefore b.1 a.1

def pathFrom (folder : DiskPath) (text : String) : DiskPath :=
  if Path.isAbsolute text then Path.segments text else folder ++ Path.segments text

end Disk
end Cognitive
