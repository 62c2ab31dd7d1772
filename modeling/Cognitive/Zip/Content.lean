import Cognitive.Text.Quoted
import Cognitive.Zip.Bzip2
import Cognitive.Zip.Checksum
import Cognitive.Zip.Directory
import Cognitive.Zip.Lzma
/-!
# The content of an archive entry

Reading an entry checks, in this order: the header in front of its data, flags for what is not supported, that the
header gives the same name as the directory, that the data do not reach into what follows, encryption, and the method.
Then the data are read: plain, or packed in one of three ways, cut to the size that the directory gives, and checked
against the checksum when they are all there.
-/
namespace Cognitive
namespace Zip

/-- Why the content of an entry cannot be read. -/
inductive ReadFault where
  /-- The entry is said to be before the start of the archive. -/
  | beforeStart (position : Int)
  /-- The entry is said to be where no position is. -/
  | outOfRange
  | headerCut
  | headerMagic
  | patched
  | strongEncryption
  /-- The name in the header claims to be UTF-8 and is not. -/
  | nameEncoding
  | nameDiffers (listed : String) (header : ByteArray)
  /-- The data reach into what follows. -/
  | overlap (listed : String)
  /-- The entry is encrypted; with its description. -/
  | encrypted (description : String)
  | method
  /-- The deflated data are corrupt. -/
  | corrupt (why : Corruption)
  /-- The data are packed in sorted blocks, and corrupt. -/
  | bzip2
  /-- The data are packed as a chain of guesses, and corrupt. -/
  | lzma (why : LzmaFault)
  | checksum (name : String)
  /-- The archive ends before the data do. -/
  | ended

def ReadFault.message : ReadFault → String
  | .beforeStart position => "negative seek value " ++ toString position
  | .outOfRange => "position out of range"
  | .headerCut => "Truncated file header"
  | .headerMagic => "Bad magic number for file header"
  | .patched => "compressed patched data (flag bit 5)"
  | .strongEncryption => "strong encryption (flag bit 6)"
  | .nameEncoding => "name is not UTF-8"
  | .nameDiffers listed header =>
    "File name in directory " ++ Text.quoted listed ++ " and header " ++ Text.quotedBytes header.toList ++ " differ."
  | .overlap listed => "Overlapped entries: " ++ Text.quoted listed ++ " (possible zip bomb)"
  | .encrypted description => "File " ++ description ++ " is encrypted, password required for extraction"
  | .method => "That compression method is not supported"
  | .corrupt why => "Error -3 while decompressing data: " ++ why.message
  | .bzip2 => "Invalid data stream"
  | .lzma why => why.message
  | .checksum name => "Bad CRC-32 for file " ++ Text.quoted name
  | .ended => ""

/-! ## Descriptions -/

def sortLetter (mode : Nat) : Char :=
  match mode / 4096 with
  | 1 => 'p'
  | 2 => 'c'
  | 4 => 'd'
  | 6 => 'b'
  | 8 => '-'
  | 10 => 'l'
  | 12 => 's'
  | _ => '?'

/-- The letters of one set of permissions, where a special bit changes the last of them. -/
def permissionLetters (bits : Nat) (special : Bool) (letter : Char) : List Char :=
  let run := bits.testBit 0
  [if bits.testBit 2 then 'r' else '-', if bits.testBit 1 then 'w' else '-',
    if special then (if run then letter else letter.toUpper) else if run then 'x' else '-']

/-- The sort and the permissions of a file as they are listed. -/
def modeText (mode : Nat) : String :=
  String.ofList (sortLetter mode ::
    (permissionLetters (mode / 64) (mode.testBit 11) 's' ++ permissionLetters (mode / 8) (mode.testBit 10) 's' ++
      permissionLetters mode (mode.testBit 9) 't'))

def methodNames : List (Nat × String) :=
  [(1, "shrink"), (2, "reduce"), (3, "reduce"), (4, "reduce"), (5, "reduce"), (6, "implode"), (7, "tokenize"),
   (8, "deflate"), (9, "deflate64"), (10, "implode"), (12, "bzip2"), (14, "lzma"), (18, "terse"), (19, "lz77"),
   (97, "wavpack"), (98, "ppmd")]

def plainHex (n : Nat) : String := "0x" ++ String.ofList (Nat.toDigits 16 n)

/-- The description of an entry that is a file: its name and whatever is out of the ordinary. -/
def Entry.description (e : Entry) : String :=
  let mode := e.attributes / 65536
  let rest := e.attributes % 65536
  "<ZipInfo filename=" ++ Text.quoted e.name ++
    (if e.method = 0 then "" else " compress_type=" ++ (methodNames.lookup e.method).getD (toString e.method)) ++
    (if mode = 0 then "" else " filemode='" ++ modeText mode ++ "'") ++
    (if rest = 0 then "" else " external_attr=" ++ plainHex rest) ++
    " file_size=" ++ toString e.size ++
    (if e.method = 0 ∧ e.size = e.packedSize then "" else " compress_size=" ++ toString e.packedSize) ++ ">"

/-! ## Reading -/

def headerSize : Nat := 30

/-- The first number that is too large for a position. -/
def positionLimit : Int := 0x8000000000000000

/-- Checks the header of an entry whose data must end at a bound; gives the position of its data. -/
def checkHeader (bytes : ByteArray) (bound : Int) (e : Entry) : Except ReadFault Nat := do
  if e.offset < -positionLimit ∨ positionLimit ≤ e.offset then throw .outOfRange
  if e.offset < 0 then throw (.beforeStart e.offset)
  let start := e.offset.toNat
  if bytes.size < start + headerSize then throw .headerCut
  if !isMarked bytes start 3 4 then throw .headerMagic
  let nameLength := number bytes (start + 26) 2
  let name := field bytes (start + headerSize) nameLength
  if e.flag 5 then throw .patched
  if e.flag 6 then throw .strongEncryption
  match decodeName? ((number bytes (start + 6) 2).testBit utf8Flag) name with
  | none => throw .nameEncoding
  | some text => if text ≠ e.fullName then throw (.nameDiffers e.fullName name)
  let dataStart := min (start + headerSize + nameLength + number bytes (start + 28) 2) bytes.size
  if bound < (dataStart + e.packedSize : Nat) then throw (.overlap e.fullName)
  if e.flag 0 then throw (.encrypted e.description)
  return dataStart

/-- Cuts data to the size of the entry and checks them when nothing more is to come. -/
def settle (e : Entry) (data : ByteArray) (complete : Bool) : Except ReadFault ByteArray :=
  let content := data.extract 0 (min e.size data.size)
  if complete ∨ content.size = e.size then
    if checksum content = e.checksum then .ok content else .error (.checksum e.name)
  else .error .ended

/-- The packed data that are there, and whether they are all. -/
def packedData (bytes : ByteArray) (start : Nat) (e : Entry) : Except ReadFault (ByteArray × Bool) :=
  let packed := field bytes start e.packedSize
  if packed.size = 0 ∧ e.packedSize ≠ 0 then .error .ended else .ok (packed, packed.size == e.packedSize)

/-- The content of an entry whose data must end at a bound. -/
def Entry.content (bytes : ByteArray) (bound : Int) (e : Entry) : Except ReadFault ByteArray := do
  let start ← checkHeader bytes bound e
  match e.method with
  | 0 =>
    let (packed, all) ← packedData bytes start e
    settle e packed all
  | 8 =>
    let (packed, all) ← packedData bytes start e
    match inflate packed with
    | .ok data => settle e data.bytes (data.complete || all)
    | .error why => throw (.corrupt why)
  | 12 =>
    let (packed, all) ← packedData bytes start e
    match Bzip2.unpack packed with
    | some data => settle e data.bytes (data.complete || all)
    | none => throw .bzip2
  | 14 =>
    let (packed, all) ← packedData bytes start e
    match Lzma.unpack packed with
    | .ok data => settle e data.bytes (data.complete || all)
    | .error why => throw (.lzma why)
  | _ => throw .method

end Zip
end Cognitive
