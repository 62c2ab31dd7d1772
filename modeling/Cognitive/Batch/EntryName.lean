import Cognitive.Error
import Cognitive.Grammar.Language
/-!
# Names of entries

The files of an archive or directory go by names with slashes.  A clean name has slashes for backslashes and no `./` in
front.  When all files lie in one folder, that folder is the root and files are named relative to it.  A name that leads
out of the folder it is unpacked into is a hazard.
-/
namespace Cognitive
namespace EntryName

/-- The text without leading `./` pieces, each with the slashes after it. -/
def dropDots : List Char → List Char
  | '.' :: '/' :: rest => dropDots (rest.dropWhile (· == '/'))
  | text => text
termination_by text => text.length
decreasing_by
  have := (List.dropWhile_sublist (· == '/') (l := rest)).length_le
  simp only [List.length_cons]
  omega

/-- A backslash as a slash, every other character as itself. -/
def slashFor (c : Char) : Char := if c = '\\' then '/' else c

def cleanChars (name : List Char) : List Char := dropDots (name.map slashFor)

/-- The name with slashes and without leading `./`. -/
def clean (name : String) : String := String.ofList (cleanChars name.toList)

def top (name : String) : String := String.ofList ((cleanChars name.toList).takeWhile (· != '/'))

/-- The folders that archives of one system carry beside the files proper. -/
def noiseFolders : List String := ["__MACOSX"]

/-- The name says nothing about the root: it is empty, a folder's, or noise. -/
def isIgnoredForRoot (name : String) : Bool :=
  name.isEmpty || name.toList.getLast? == some '/' || (top name).isEmpty || noiseFolders.contains (top name)

def isAtTop (name : String) : Bool := !(cleanChars name.toList).contains '/'

/-- The folder that holds every file: the first piece that all names share.  A file at the top means there is none. -/
def commonRoot (names : List String) : Option String :=
  let files := names.filter fun n => !isIgnoredForRoot n
  if files.any isAtTop then none
  else match files.map top with
    | [] => none
    | first :: rest => if rest.all (· == first) then some first else none

/-- The clean name relative to the root, where it lies in it. -/
def relativeTo (root : Option String) (name : String) : String :=
  let text := cleanChars name.toList
  match root with
  | none => String.ofList text
  | some r =>
    let folder := r.toList ++ ['/']
    if !r.isEmpty && folder.isPrefixOf text then String.ofList (text.drop folder.length) else String.ofList text

/-- Why a name is a hazard. -/
inductive Hazard where
  | absolute
  | traversal
deriving DecidableEq, Repr

def Hazard.reason : Hazard → String
  | .absolute => "absolute path in archive"
  | .traversal => "path traversal in archive"

/-- What makes a name a hazard: a clean name from the root or from a drive, or one that goes up. -/
def hazard? (name : String) : Option Hazard :=
  let text := clean name
  let segments := Path.segments text
  let fromDrive := match segments with
    | first :: _ => first.toList.getLast? == some ':'
    | [] => false
  if Path.isAbsolute text || fromDrive then some .absolute
  else if segments.contains ".." then some .traversal
  else none

def checked (name : String) : Except Refusal String :=
  match hazard? name with
  | some why => .error (.invalidArchive why.reason (some name))
  | none => .ok (clean name)

end EntryName
end Cognitive
