import Cognitive.Text.Quoted
import Cognitive.Text.Split
/-!
# Paths

A path is text with slashes.  Its segments are the pieces between slashes without the empty ones and the single dots;
the last of them is its name.  A name's suffix starts at its last dot, unless that dot is its first or last character.
-/
namespace Cognitive
namespace Path

/-- A piece between slashes that says nothing: the empty one and the single dot. -/
def isVoid (piece : String) : Bool := piece == "" || piece == "."

def segments (path : String) : List String := (Text.splitString '/' path).filter fun p => !isVoid p

/-- The last segment of a path; empty when it has none. -/
def name (path : String) : String := (segments path).getLast?.getD ""

def isAbsolute (path : String) : Bool := path.toList.head? == some '/'

/-- What follows the last dot of some characters that are given in reverse, and what stands before it. -/
def cutAtDot (reversed : List Char) : List Char × List Char :=
  (reversed.takeWhile (· != '.'), (reversed.dropWhile (· != '.')).drop 1)

/-- The suffix of a name, with its dot; empty when it has none. -/
def suffixOfName (name : String) : String :=
  let (after, before) := cutAtDot name.toList.reverse
  if after.isEmpty || before.isEmpty then "" else String.ofList ('.' :: after.reverse)

def suffix (path : String) : String := suffixOfName (name path)

def lowered (text : String) : String := String.ofList (text.toList.map Char.toLower)

/-- The slashes that a path starts with: none, one, or exactly two, which are kept; more than two count as one. -/
def root (path : String) : String :=
  match path.toList with
  | '/' :: '/' :: '/' :: _ => "/"
  | '/' :: '/' :: _ => "//"
  | '/' :: _ => "/"
  | _ => ""

def ofSegments (root : String) (segments : List String) : String :=
  if root.isEmpty && segments.isEmpty then "." else root ++ Text.join "/" segments

def tidy (path : String) : String := ofSegments (root path) (segments path)

/-- The void pieces behind the last segment of a path, the last one first. -/
def trailing (path : String) : List String := (Text.splitString '/' path).reverse.takeWhile isVoid

/-- The segments of a path with a void piece behind them when it ends in one: a dot where there is any, else the empty
one.  Such a path leads to folders only. -/
def steps (path : String) : List String :=
  segments path ++ if (trailing path).contains "." then ["."] else (trailing path).take 1

/-- One path comes before another: at the first name in which they differ, or by ending where the other goes on. -/
def isBefore (a b : List String) : Bool := a.lex b fun s t => decide (s < t)

/-- Why a path does not lead where it should. -/
inductive Fault where
  /-- There is nothing. -/
  | absent
  /-- Something on the way, or at the end, is no folder. -/
  | notFolder
  /-- A folder stands where a file should. -/
  | isFolder
  /-- There are too many links on the way. -/
  | tooManyLinks
  /-- A name on the way, or the whole path, is too long. -/
  | tooLong
  /-- The path holds the zero character. -/
  | zeroCharacter
deriving DecidableEq, Repr

def Fault.message (path : String) : Fault → String
  | .absent => "[Errno 2] No such file or directory: " ++ Text.quoted path
  | .notFolder => "[Errno 20] Not a directory: " ++ Text.quoted path
  | .isFolder => "[Errno 21] Is a directory: " ++ Text.quoted path
  | .tooLong => "[Errno 36] File name too long: " ++ Text.quoted path
  | .tooManyLinks => "[Errno 40] Too many levels of symbolic links: " ++ Text.quoted path
  | .zeroCharacter => "embedded null byte"

end Path
end Cognitive
