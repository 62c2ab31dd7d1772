import Cognitive.Settings.Basic
/-!
# What the settings select

Whether a name is a source file's, whether a folder is not entered, and how large an archive may be.  A name is tested
against the items of a setting in their order, so that an item that is no text breaks off only when it is reached.
-/
namespace Cognitive

open Number

namespace Settings

/-- Some item passes a test; an item that is no text breaks off. -/
def anyText (test : String → Bool) (notText : String → Breakdown) : List Value → Outcome Bool
  | [] => .ok false
  | .str s :: rest => if test s then .ok true else anyText test notText rest
  | v :: _ => breakDown (notText v.kindName)

/-- The name ends in one of the extensions of source files. -/
def isSource (s : Settings) (name : String) : Outcome Bool := do
  anyText (fun e => e.toList.isSuffixOf name.toList) .endNotText (← (s .sourceExtensions).items)

def occursIn (part : List Char) : List Char → Bool
  | [] => part.isEmpty
  | c :: rest => part.isPrefixOf (c :: rest) || occursIn part rest

/-- A value holds a name: a text as a part, a list as an item, a table as a key. -/
def holds (v : Value) (name : String) : Outcome Bool :=
  match v with
  | .str s => .ok (occursIn name.toList s.toList)
  | .list items => .ok (items.any fun i => i.str? == some name)
  | .table entries => .ok (entries.any fun e => e.1 == name)
  | v => breakDown (.notContainer v.kindName)

def isIgnored (s : Settings) (name : String) : Outcome Bool := do
  if ← holds (s .ignoredDirs) name then return true
  anyText (fun p => p.toList.isPrefixOf name.toList) .startNotText (← (s .ignoredDirPrefixes).items)

def mebibyte : Int := 1024 * 1024

/-- The most bytes that an archive may have, packed or unpacked. -/
def archiveLimit (s : Settings) : Outcome Int :=
  match (s .maxArchiveMb).quantity? with
  | some (.whole n) => .ok (n * mebibyte)
  | some (.real x) =>
    match (x.mul (.ofInt 1024)).mul (.ofInt 1024) with
    | .infinite _ => breakDown .sizeInfinite
    | .nan => breakDown .sizeNotNumber
    | bytes => .ok (bytes.truncate?.getD 0)
  | none => breakDown (.unordered "*" (s .maxArchiveMb).kindName "int")

/-- A count is above the most source files of an archive or directory. -/
def tooManyFiles (s : Settings) (count : Nat) : Bool :=
  match (s .maxFiles).quantity? with
  | some q => q.ltInt count
  | none => false

/-- How many files are analysed at a time, where that is set. -/
def workerCount (s : Settings) : Option Nat :=
  match (s .workers).quantity? with
  | some (.whole n) => some n.toNat
  | some (.real x) => (x.truncate?).map Int.toNat
  | none => none

end Settings
end Cognitive
