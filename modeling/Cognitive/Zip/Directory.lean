import Cognitive.Text.Quoted
import Cognitive.Zip.CodePage
/-!
# The directory of an archive

An archive ends with a record that says where its directory is; a comment may follow it and anything may stand before
the archive.  The directory lists the entries.  Archives with large fields keep a second end record in front of the
first one, and wide sizes and offsets in an extra field of the entry.  Offsets count from the start of the archive
proper, so what stands before it is added to them.
-/
namespace Cognitive
namespace Zip

/-- Why bytes are no archive that can be opened. -/
inductive OpenFault where
  | noEndRecord
  | severalDisks
  | directoryOffset
  | directoryCut
  | directoryMagic
  /-- An extra field is longer than what is left. -/
  | extraField (type size : Nat)
  /-- A wide field is not there. -/
  | wideField (field : String)
  /-- A name that claims to be UTF-8 is not. -/
  | nameEncoding
  /-- An entry needs a newer reader. -/
  | tooNew (version : Nat)
deriving DecidableEq, Repr

/-- The wording of a fault, where it is one of archives. -/
def OpenFault.message : OpenFault → String
  | .noEndRecord => "File is not a zip file"
  | .severalDisks => "zipfiles that span multiple disks are not supported"
  | .directoryOffset => "Bad offset for central directory"
  | .directoryCut => "Truncated central directory"
  | .directoryMagic => "Bad magic number for central directory"
  | .extraField type size =>
    "Corrupt extra field " ++ String.ofList (Text.hex 4 type) ++ " (size=" ++ toString size ++ ")"
  | .wideField field => "Corrupt zip64 extra field. " ++ field ++ " not found."
  | .nameEncoding => "name is not UTF-8"
  | .tooNew version => "zip file version " ++ toString (version / 10) ++ "." ++ toString (version % 10)

/-! ## Fields -/

/-- The number that some bytes are, lowest byte first; bytes beyond the end count as zero. -/
def number (bytes : ByteArray) (start : Nat) : (width : Nat) → Nat
  | 0 => 0
  | w + 1 => (bytes[start]?.getD 0).toNat + 256 * number bytes (start + 1) w

def field (bytes : ByteArray) (start width : Nat) : ByteArray :=
  bytes.extract (min start bytes.size) (min (start + width) bytes.size)

/-- Four bytes that mark a record: two letters and two numbers. -/
def mark (a b : Nat) : Nat := 0x50 + 256 * (0x4B + 256 * (a + 256 * b))

def isMarked (bytes : ByteArray) (start a b : Nat) : Bool :=
  decide (start + 4 ≤ bytes.size) && number bytes start 4 == mark a b

/-! ## End records -/

def endSize : Nat := 22

/-- The size of the record that says that there is a second end record. -/
def locatorSize : Nat := 20

def wideEndSize : Nat := 56

/-- Where the end record is and what it says: the size and offset of the directory. -/
structure EndRecord where
  position : Nat
  directorySize : Nat
  directoryOffset : Nat
  /-- The second end record was used. -/
  wide : Bool
deriving Repr

/-- The last position from `low` up to `low + count - 1` that an end record's mark is at. -/
def lastMark (bytes : ByteArray) (low : Nat) : (count : Nat) → Option Nat
  | 0 => none
  | n + 1 => if isMarked bytes (low + n) 5 6 then some (low + n) else lastMark bytes low n

/-- Where the end record starts: at the very end when there is no comment, else at the last mark in the range that a
comment can leave to it. -/
def endPosition? (bytes : ByteArray) : Option Nat :=
  let n := bytes.size
  if endSize ≤ n ∧ isMarked bytes (n - endSize) 5 6 ∧ number bytes (n - 2) 2 = 0 then some (n - endSize)
  else
    let low := n - (65536 + endSize)
    match lastMark bytes low (n - low) with
    | some p => if p + endSize ≤ n then some p else none
    | none => none

/-- What the second end record says, if there is one in front of the first. -/
def widened (bytes : ByteArray) (r : EndRecord) : Except OpenFault EndRecord :=
  let locator := r.position - locatorSize
  if bytes.size < locator + locatorSize ∨ !isMarked bytes locator 6 7 then .ok r
  else if number bytes (locator + 4) 4 ≠ 0 ∨ 1 < number bytes (locator + 16) 4 then .error .severalDisks
  else
    let second := r.position - locatorSize - wideEndSize
    if bytes.size < second + wideEndSize ∨ !isMarked bytes second 6 6 then .ok r
    else .ok ⟨r.position, number bytes (second + 40) 8, number bytes (second + 48) 8, true⟩

def endRecord (bytes : ByteArray) : Except OpenFault EndRecord :=
  match endPosition? bytes with
  | none => .error .noEndRecord
  | some p => widened bytes ⟨p, number bytes (p + 12) 4, number bytes (p + 16) 4, false⟩

/-! ## Entries -/

/-- An entry as the directory lists it. -/
structure Entry where
  /-- The whole name. -/
  fullName : String
  flags : Nat
  method : Nat
  checksum : Nat
  packedSize : Nat
  size : Nat
  attributes : Nat
  /-- Where the entry is; before the start of the bytes when the directory is wrong. -/
  offset : Int
deriving Repr

def Entry.name (e : Entry) : String := String.ofList (e.fullName.toList.takeWhile fun c => c.toNat != 0)

def Entry.flag (e : Entry) (bit : Nat) : Bool := e.flags.testBit bit

def utf8Flag : Nat := 11

/-- The sizes and the offset of an entry, which an extra field may widen. -/
structure Sizes where
  size : Nat
  packedSize : Nat
  offset : Nat
deriving Repr

/-- What a field of four bytes holds when it is kept elsewhere. -/
def elsewhere : Nat := 0xFFFFFFFF

/-- A wide field at the front of some bytes, if the narrow one says that there is one; the bytes after it too. -/
def wideOr (isElsewhere : Bool) (narrow : Nat) (name : String) (bytes : ByteArray) :
    Except OpenFault (Nat × ByteArray) :=
  if !isElsewhere then .ok (narrow, bytes)
  else if bytes.size < 8 then .error (.wideField name)
  else .ok (number bytes 0 8, bytes.extract 8 bytes.size)

/-- The sizes and the offset widened by one extra field. -/
def Sizes.widen (s : Sizes) (bytes : ByteArray) : Except OpenFault Sizes := do
  let (size, bytes) ← wideOr (s.size == 0xFFFFFFFFFFFFFFFF || s.size == elsewhere) s.size "File size" bytes
  let (packedSize, bytes) ← wideOr (s.packedSize == elsewhere) s.packedSize "Compress size" bytes
  let (offset, _) ← wideOr (s.offset == elsewhere) s.offset "Header offset" bytes
  return ⟨size, packedSize, offset⟩

def wideType : Nat := 1

/-- Reads extra fields, each with its type and length in front, while there is room for one. -/
def readExtra (bytes : ByteArray) : (fuel start : Nat) → Sizes → Except OpenFault Sizes
  | 0, _, s => .ok s
  | fuel + 1, start, s =>
    if bytes.size < start + 4 then .ok s
    else
      let type := number bytes start 2
      let length := number bytes (start + 2) 2
      if bytes.size < start + 4 + length then .error (.extraField type length)
      else if type = wideType then do
        readExtra bytes fuel (start + 4 + length) (← s.widen (field bytes (start + 4) length))
      else readExtra bytes fuel (start + 4 + length) s

def entrySize : Nat := 46

/-- The newest reader that an entry may need, in tenths. -/
def newestVersion : Nat := 63

/-- Reads the entry at a position of the directory; gives the position after it too. -/
def readEntry (directory : ByteArray) (start : Nat) (shift : Int) : Except OpenFault (Entry × Nat) := do
  if directory.size < start + entrySize then throw .directoryCut
  if !isMarked directory start 1 2 then throw .directoryMagic
  let flags := number directory (start + 8) 2
  let nameLength := number directory (start + 28) 2
  let extraLength := number directory (start + 30) 2
  let commentLength := number directory (start + 32) 2
  let nameStart := start + entrySize
  match decodeName? (flags.testBit utf8Flag) (field directory nameStart nameLength) with
  | none => throw .nameEncoding
  | some name =>
    let version := number directory (start + 6) 1
    if newestVersion < version then throw (.tooNew version)
    let extra := field directory (nameStart + nameLength) extraLength
    let sizes ← readExtra extra (extra.size + 1) 0
      ⟨number directory (start + 24) 4, number directory (start + 20) 4, number directory (start + 42) 4⟩
    let entry : Entry := {
      fullName := name
      flags := flags
      method := number directory (start + 10) 2
      checksum := number directory (start + 16) 4
      packedSize := sizes.packedSize
      size := sizes.size
      attributes := number directory (start + 38) 4
      offset := sizes.offset + shift }
    return (entry, nameStart + nameLength + extraLength + commentLength)

/-- Reads the entries from a position of the directory to its end. -/
def readEntries (directory : ByteArray) (size : Nat) (shift : Int) :
    (fuel start : Nat) → Except OpenFault (List Entry)
  | 0, _ => .ok []
  | fuel + 1, start =>
    if size ≤ start then .ok []
    else do
      let (entry, next) ← readEntry directory start shift
      return entry :: (← readEntries directory size shift fuel next)

/-- A directory: where it starts, and its entries in their order. -/
structure Directory where
  start : Int
  entries : List Entry
deriving Repr

/-- Where the data of the entry at an index must end: where the next entry starts, or the directory behind the last
one.  Of several entries that start at one place only the first has room for data. -/
def Directory.bound (d : Directory) (index : Nat) (e : Entry) : Int :=
  if (d.entries.take index).any fun earlier => earlier.offset == e.offset then e.offset
  else ((d.entries.map Entry.offset).filter (e.offset < ·)).min?.getD d.start

/-- Reads the directory of an archive. -/
def readDirectory (bytes : ByteArray) : Except OpenFault Directory := do
  let r ← endRecord bytes
  let behind := if r.wide then wideEndSize + locatorSize else 0
  let start : Int := (r.position : Int) - r.directorySize - behind
  if start < 0 then throw .directoryOffset
  let directory := field bytes start.toNat r.directorySize
  return ⟨start, ← readEntries directory r.directorySize (start - r.directoryOffset) (r.directorySize + 1) 0⟩

end Zip
end Cognitive
