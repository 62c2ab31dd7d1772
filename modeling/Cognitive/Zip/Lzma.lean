import Cognitive.Zip.Inflate
/-!
# Unpacking a chain of guesses

The data are one long number, read a byte at a time.  Each bit splits a range in two by how likely a zero is in the
place where the bit is asked for, and the number says which part is meant; what came makes it likelier there.  From such
bits come single bytes, copies of what is some distance back, and copies at one of the last four distances.  Data that
end early give what they say up to there; any fault makes all of it corrupt.
-/
namespace Cognitive
namespace Zip

/-- What is wrong with data of this kind. -/
inductive LzmaFault where
  | corrupt
  /-- The properties in front of the data are none. -/
  | properties
deriving DecidableEq, Repr

def LzmaFault.message : LzmaFault → String
  | corrupt => "Corrupt input data"
  | properties => "Invalid or unsupported options"

namespace Lzma

/-! ## Bits -/

/-- A number that is being read: the data and the position to go on at, the range, what is left of the number, and how
likely a zero is in each place, of 2048. -/
structure Range where
  data : ByteArray
  position : Nat
  width : UInt32
  code : UInt32
  chances : Array UInt32

/-- A step of reading. -/
abbrev Reading (α : Type) := StateT Range (Except (Halt Unit)) α

/-- Takes in a byte when the range has become narrow. -/
def widen : Reading Unit := fun r =>
  if r.width < 0x1000000 then
    match r.data[r.position]? with
    | some b => .ok ((), ⟨r.data, r.position + 1, r.width <<< 8, (r.code <<< 8) ||| b.toUInt32, r.chances⟩)
    | none => .error .ended
  else .ok ((), r)

def even : UInt32 := 1024

/-- The bit that is asked for in a place. -/
def split (place : Nat) (r : Range) : Nat × Range :=
  let chance := r.chances.getD place even
  let part := (r.width >>> 11) * chance
  if r.code < part then
    (0, ⟨r.data, r.position, part, r.code, r.chances.setIfInBounds place (chance + ((2048 - chance) >>> 5))⟩)
  else
    (1, ⟨r.data, r.position, r.width - part, r.code - part, r.chances.setIfInBounds place (chance - (chance >>> 5))⟩)

def bit (place : Nat) : Reading Nat := do
  widen
  modifyGet (split place)

/-- A bit that is as likely one as zero; it leaves no trace. -/
def halve (r : Range) : Nat × Range :=
  let half := r.width >>> 1
  let rest := r.code - half
  if rest >>> 31 = 1 then (0, ⟨r.data, r.position, half, r.code, r.chances⟩)
  else (1, ⟨r.data, r.position, half, rest, r.chances⟩)

/-- Some bits that are as likely one as zero, after others, the highest first. -/
def evenBits (high : Nat) : (count : Nat) → Reading Nat
  | 0 => return high
  | n + 1 => do
    widen
    evenBits (2 * high + (← modifyGet halve)) n

/-- Bits of a number, the highest first, each asked for in the place that the bits before it lead to.  `node` is the
bits so far after a leading one. -/
def treeFrom (base : Nat) (node : Nat) : (count : Nat) → Reading Nat
  | 0 => return node
  | n + 1 => do treeFrom base (2 * node + (← bit (base + node))) n

def tree (base count : Nat) : Reading Nat := return (← treeFrom base 1 count) - Nat.pow 2 count

/-- The same for a number that starts with its lowest bit. -/
def lowTree (base : Nat) (node : Nat) : (count : Nat) → Reading Nat
  | 0 => return 0
  | n + 1 => do
    let low ← bit (base + node)
    return low + 2 * (← lowTree base (2 * node + low) n)

/-! ## Places -/

def copyAt (state turn : Nat) : Nat := state * 16 + turn
def againAt (state : Nat) : Nat := 192 + state
def notLastAt (state : Nat) : Nat := 204 + state
def notSecondAt (state : Nat) : Nat := 216 + state
def notThirdAt (state : Nat) : Nat := 228 + state
def longAt (state turn : Nat) : Nat := 240 + state * 16 + turn
def slotAt (sort : Nat) : Nat := 432 + sort * 64
def nearAt (slot : Nat) : Nat := 688 + slot * 64
def alignAt : Nat := 1584
def newLengthAt : Nat := 1600
def oldLengthAt : Nat := 2114
def byteAt (context : Nat) : Nat := 2628 + context * 0x300

/-- How many places there are for so many sorts of contexts of a byte. -/
def places (contexts : Nat) : Nat := byteAt contexts

/-! ## Lengths and distances -/

/-- The length of a copy: short ones and middling ones depend on where the copy starts. -/
def readLength (base turn : Nat) : Reading Nat := do
  if (← bit base) = 0 then return 2 + (← tree (base + 2 + turn * 8) 3)
  if (← bit (base + 1)) = 0 then return 10 + (← tree (base + 130 + turn * 8) 3)
  return 18 + (← tree (base + 258) 8)

/-- A distance, counted from zero: its two highest bits and their place come first. -/
def readDistance (length : Nat) : Reading Nat := do
  let slot ← tree (slotAt (min (length - 2) 3)) 6
  if slot < 4 then return slot
  let count := slot / 2 - 1
  let high := 2 + slot % 2
  if slot < 14 then return high * Nat.pow 2 count + (← lowTree (nearAt slot) 1 count)
  let middle ← evenBits high (count - 4)
  return middle * 16 + (← lowTree alignAt 1 4)

/-- The distance that stands for the end of the data. -/
def endDistance : Nat := 0xFFFFFFFF

/-! ## Symbols -/

/-- What the data are read with: how many high bits of the byte before and low bits of the position tell contexts apart
for a byte, how many low bits of the position do for a copy, and how far back copies may reach. -/
structure Properties where
  highBits : Nat
  lowBits : Nat
  turnBits : Nat
  reach : Nat

/-- The properties that some bytes are, if they are any. -/
def Properties.of? (bytes : ByteArray) : Option Properties :=
  match bytes.toList with
  | [b, r0, r1, r2, r3] =>
    let n := b.toNat
    let reach := r0.toNat + 256 * (r1.toNat + 256 * (r2.toNat + 256 * r3.toNat))
    if 224 < n ∨ 4 < n % 9 + n / 9 % 5 then none
    else some ⟨n % 9, n / 9 % 5, n / 45, (max reach 4096 + 15) / 16 * 16⟩
  | _ => none

/-- What came before: the sort of the last symbols, and the last four distances. -/
structure Past where
  state : Nat
  distances : Nat × Nat × Nat × Nat

/-- What the next symbol says. -/
inductive Symbol where
  | byte (b : UInt8)
  | copy (length distance : Nat)
  | finish

def back (out : ByteArray) (distance : Nat) : UInt8 := out[out.size - 1 - distance]?.getD 0

/-- A byte after a copy: the byte that would have been copied next tells contexts apart as long as its bits are the
same. -/
def likeByte (base : Nat) (like node : Nat) : (count : Nat) → Reading Nat
  | 0 => return node
  | n + 1 => do
    let expected := like / Nat.pow 2 n % 2
    let found ← bit (base + (1 + expected) * 0x100 + node)
    if found = expected then likeByte base like (2 * node + found) n
    else treeFrom base (2 * node + found) n

def readByte (p : Properties) (past : Past) (out : ByteArray) : Reading UInt8 := do
  let before := if out.size = 0 then 0 else (back out 0).toNat
  let context := out.size % Nat.pow 2 p.lowBits * Nat.pow 2 p.highBits + before / Nat.pow 2 (8 - p.highBits)
  let base := byteAt context
  let node ← if past.state < 7 then treeFrom base 1 8 else likeByte base (back out past.distances.1).toNat 1 8
  return (node - 0x100).toUInt8

def afterByte (state : Nat) : Nat := if state < 4 then 0 else if state < 10 then state - 3 else state - 6

/-- Brings one of the last distances to the front. -/
def earlier (state : Nat) (d : Nat × Nat × Nat × Nat) : Reading (Nat × Nat × Nat × Nat) := do
  if (← bit (notSecondAt state)) = 0 then return (d.2.1, d.1, d.2.2.1, d.2.2.2)
  if (← bit (notThirdAt state)) = 0 then return (d.2.2.1, d.1, d.2.1, d.2.2.2)
  return (d.2.2.2, d.1, d.2.1, d.2.2.1)

/-- A copy goes as far back as there is something, within the reach. -/
def checkDistance (p : Properties) (out : ByteArray) (distance : Nat) : Reading Unit :=
  if distance < min out.size p.reach then return () else throw (.corrupt ())

/-- The end of the data: nothing of the number may be left. -/
def checkEnd : Reading Unit := do
  widen
  if (← get).code ≠ 0 then throw (.corrupt ())

def readSymbol (p : Properties) (past : Past) (out : ByteArray) : Reading (Symbol × Past) := do
  let turn := out.size % Nat.pow 2 p.turnBits
  let state := past.state
  let d := past.distances
  if (← bit (copyAt state turn)) = 0 then
    return (.byte (← readByte p past out), ⟨afterByte state, d⟩)
  if (← bit (againAt state)) = 0 then
    let length ← readLength newLengthAt turn
    let distance ← readDistance length
    if distance = endDistance then
      checkEnd
      return (.finish, past)
    checkDistance p out distance
    return (.copy length distance, ⟨if state < 7 then 7 else 10, distance, d.1, d.2.1, d.2.2.1⟩)
  checkDistance p out 0
  if (← bit (notLastAt state)) = 0 then
    if (← bit (longAt state turn)) = 0 then return (.copy 1 d.1, ⟨if state < 7 then 9 else 11, d⟩)
    return (.copy (← readLength oldLengthAt turn) d.1, ⟨if state < 7 then 8 else 11, d⟩)
  let d ← earlier state d
  return (.copy (← readLength oldLengthAt turn) d.1, ⟨if state < 7 then 8 else 11, d⟩)

/-- The symbols that are left, after what has been unpacked so far. -/
def symbols (p : Properties) : (fuel : Nat) → Past → Range → ByteArray → Except LzmaFault Inflated
  | 0, _, _, out => .ok ⟨out, false⟩
  | fuel + 1, past, r, out =>
    match readSymbol p past out r with
    | .error .ended => .ok ⟨out, false⟩
    | .error (.corrupt _) => .error .corrupt
    | .ok ((.byte b, past), r) => symbols p fuel past r (out.push b)
    | .ok ((.copy length distance, past), r) => symbols p fuel past r (copyBack (distance + 1) length out)
    | .ok ((.finish, _), _) => .ok ⟨out, true⟩

/-- More symbols than a byte can hold: a bit leaves at most 2017 of 2048 parts of the range. -/
def symbolsInByte : Nat := 400

/-- Unpacks data whose properties are known: a zero comes first, then the start of the number. -/
def unpackWith (p : Properties) (data : ByteArray) : Except LzmaFault Inflated :=
  match data.toList.take 5 with
  | [0, a, b, c, d] =>
    let code : UInt32 := [a, b, c, d].foldl (fun code byte => (code <<< 8) ||| byte.toUInt32) 0
    let chances := Array.replicate (places (Nat.pow 2 (p.highBits + p.lowBits))) even
    symbols p (symbolsInByte * (data.size + 1)) ⟨0, 0, 0, 0, 0⟩ ⟨data, 5, 0xFFFFFFFF, code, chances⟩ ByteArray.empty
  | [] | 0 :: _ => .ok ⟨ByteArray.empty, false⟩
  | _ => .error .corrupt

/-- Unpacks data: two bytes for the version, the size of the properties, the properties, and the data proper. -/
def unpack (data : ByteArray) : Except LzmaFault Inflated :=
  let size := (data[2]?.getD 0).toNat + 256 * (data[3]?.getD 0).toNat
  if data.size ≤ 4 ∨ data.size ≤ 4 + size then .ok ⟨ByteArray.empty, false⟩
  else match Properties.of? (data.extract 4 (4 + size)) with
    | some p => unpackWith p (data.extract (4 + size) data.size)
    | none => .error .properties

end Lzma
end Zip
end Cognitive
