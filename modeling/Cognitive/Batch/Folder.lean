import Cognitive.Batch.Bundle
import Cognitive.Disk
/-!
# Selecting the source files of a folder

The folder's own name stands in front of the names of its files, as if it had been packed.  Its items are visited in the
order of their paths; a folder that the settings ignore is passed over with all it holds, and so are links.  There is an
end as soon as there are more source files than the settings allow, or when folders inside each other use up the call
stack.
-/
namespace Cognitive
namespace Folder

/-- How far a visit has come: the folder that is being passed over, the files and the source files so far, the last ones
first. -/
structure Visit where
  ignored : Option DiskPath
  names : List String
  sources : List (String × ByteArray)

def Visit.start : Visit := ⟨none, [], []⟩

/-- The item lies in the folder that is being passed over. -/
def Visit.passesOver (v : Visit) (path : DiskPath) : Bool :=
  match v.ignored with
  | some folder => folder.isPrefixOf path
  | none => false

/-- Visits an item.  There is room to enter so many folders inside each other below the root; the path of a folder is as
long as there are folders to enter. -/
def visit (s : Settings) (room : Nat) (root : DiskPath) (v : Visit) (e : DiskPath × DiskItem) : Outcome Visit := do
  if v.passesOver e.1 then return v
  let last := e.1.getLast?.getD ""
  match e.2 with
  | .link _ => return v
  | .folder =>
    if ← s.isIgnored last then return { v with ignored := some e.1 }
    if room < e.1.length then breakDown .tooDeep
    return v
  | .file bytes =>
    let name := Text.join "/" (root.getLast?.getD "" :: e.1)
    let v := { v with names := name :: v.names }
    if !(← s.isSource last) then return v
    let sources := (name, bytes) :: v.sources
    if s.tooManyFiles sources.length then
      refuse (.invalidArchive
        ("more than " ++ (s .maxFiles).text ++ " source files under " ++ Disk.pathText root) none)
    return { v with sources := sources }

/-- The bundle of the items of a folder, given in the order of their paths. -/
def bundleOf (s : Settings) (room : Nat) (root : DiskPath) (items : List (DiskPath × DiskItem)) : Outcome Bundle := do
  let v ← items.foldlM (visit s room root) .start
  return ⟨v.sources.reverse.map fun e => ⟨e.1, Utf8.decodeSource e.2⟩, v.names.reverse⟩

/-- Links on the way to a path lead back to themselves. -/
def isLoop (d : Disk) (path : DiskPath) : Bool :=
  match d.follow path with
  | .error .tooManyLinks => true
  | _ => false

/-- Reads the folder that a path leads to, under the name that the path resolves to. -/
def read (s : Settings) (room : Nat) (d : Disk) (path : DiskPath) : Outcome Bundle :=
  match d.resolve path with
  | .error fault => breakDown (.path fault (Disk.pathText path))
  | .ok root =>
    if isLoop d root then breakDown (.linkLoop (Disk.pathText root))
    else match d.follow root with
      | .error fault => breakDown (.path fault (Disk.pathText root))
      | .ok found =>
        match d.item? found with
        | some .folder => bundleOf s room root (d.below found)
        | _ => breakDown (.path .notFolder (Disk.pathText root))

end Folder
end Cognitive
