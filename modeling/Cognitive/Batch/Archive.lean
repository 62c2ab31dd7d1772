import Cognitive.Batch.Bundle
import Cognitive.Batch.FileTree
import Cognitive.Zip.Content
/-!
# Selecting the source files of an archive

An archive offers files by name.  Every name is checked, whether or not the file is selected: a hazard is refused, and
so is a file that is also a folder of another file.  A file's path is its clean name cut at slashes, without empty
folder names; the files are put into a tree by their paths, so that of several files with one path the last one counts.
The source files are then selected from the tree.  The size of the archive, the number of selected files and their sizes
are limited, in this order.
-/
namespace Cognitive

/-- A file that an archive offers.  Its content is read only when it is asked for. -/
structure Offer where
  name : String
  size : Nat
  content : Thunk (Except Zip.ReadFault ByteArray)

/-- Folder names and a file name. -/
abbrev FilePath := List String

namespace Offer

def isFolder (o : Offer) : Bool := o.name.toList.getLast? == some '/'

def pieces (o : Offer) : List String := Text.splitString '/' (EntryName.clean o.name)

/-- The folders that the file lies in: the pieces before the last one, without the empty ones. -/
def folders (o : Offer) : List String := o.pieces.dropLast.filter fun p => !p.isEmpty

/-- The name of the file in its folder: the last piece. -/
def leaf (o : Offer) : String := o.pieces.getLast?.getD ""

def path (o : Offer) : FilePath := o.folders ++ [o.leaf]

end Offer

namespace Archive

/-- Puts an offered file into a tree; its name is checked. -/
def add (tree : FileTree Offer) (o : Offer) : Outcome (FileTree Offer) :=
  if o.name.isEmpty then breakDown .emptyEntryName
  else if o.isFolder then .ok tree
  else match EntryName.checked o.name with
    | .error r => refuse r
    | .ok _ =>
      match tree.put o.leaf o o.folders with
      | some tree => .ok tree
      | none => refuse (.invalidArchive "entry is both a file and a folder" (some o.name))

def treeOf (offers : List Offer) : Outcome (FileTree Offer) := offers.foldlM add .empty

def namesOf (offers : List Offer) : List String := (offers.filter fun o => !o.isFolder).map (·.name)

def checkLimit (kept : Bool) (reason : String) : Outcome Unit :=
  if kept then .ok () else refuse (.invalidArchive reason none)

/-- What a file that cannot be read means for the archive. -/
def readFailure (name : String) (f : Zip.ReadFault) : Failure :=
  let blame := fun lead => Failure.refused (.invalidArchive (lead ++ f.message) (some name))
  match f with
  | .headerCut | .headerMagic | .nameDiffers .. | .overlap _ | .checksum _ => blame "corrupt entry: "
  | .corrupt _ => blame "corrupt compressed data: "
  | .patched | .strongEncryption | .encrypted _ | .method => blame "unreadable entry: "
  | .ended => blame "unsupported or truncated entry: "
  | .nameEncoding => .broke .badEncoding
  | .beforeStart position => .broke (.positionBeforeStart position)
  | .outOfRange => .broke .positionTooLarge
  | .bzip2 => .broke .bzip2
  | .lzma why => .broke (.lzma why)

def entryOf (file : String × Offer) : Outcome Entry :=
  match file.2.content.get with
  | .ok bytes => .ok ⟨file.1, Utf8.decodeSource bytes⟩
  | .error f => .error (readFailure file.2.name f)

/-- The bundle of the files that an archive offers, with room for so many folders inside each other. -/
def bundleOf (s : Settings) (room : Nat) (offers : List Offer) : Outcome Bundle := do
  let tree ← treeOf offers
  let selected ← tree.select s room ""
  checkLimit (!s.tooManyFiles selected.length)
    ("archive holds " ++ toString selected.length ++ " source files, limit is " ++ (s .maxFiles).text)
  let unpacked : Nat := (selected.map (·.2.size)).foldr (· + ·) 0
  let limit ← s.archiveLimit
  checkLimit (decide ((unpacked : Int) ≤ limit))
    ("source files unpack to " ++ toString unpacked ++ " bytes, limit is " ++ toString limit)
  let sources ← selected.mapM entryOf
  return ⟨sources, namesOf offers⟩

def offersOf (bytes : ByteArray) : Except Zip.OpenFault (List Offer) :=
  (Zip.readDirectory bytes).map fun directory =>
    directory.entries.zipIdx.map fun (e, index) =>
      ⟨e.name, e.size, Thunk.mk fun _ => e.content bytes (directory.bound index e)⟩

def openFailure (f : Zip.OpenFault) : Failure :=
  match f with
  | .nameEncoding => .broke .badEncoding
  | .tooNew version => .broke (.archiveTooNew version)
  | _ => .refused (.invalidArchive ("not a zip file: " ++ f.message) none)

/-- Reads the bytes of an archive. -/
def read (s : Settings) (room : Nat) (bytes : ByteArray) : Outcome Bundle := do
  let limit ← s.archiveLimit
  checkLimit (decide ((bytes.size : Int) ≤ limit))
    ("archive is " ++ toString bytes.size ++ " bytes, limit is " ++ toString limit)
  match offersOf bytes with
  | .ok offers => bundleOf s room offers
  | .error f => .error (openFailure f)

end Archive

def Grammars.analyzeArchive (g : Grammars) (s : Settings) (room : Nat) (bytes : ByteArray) : Outcome Summary := do
  g.analyzeBundle s (← Archive.read s room bytes)

end Cognitive
