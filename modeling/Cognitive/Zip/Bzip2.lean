import Cognitive.Zip.Inflate
/-!
# Unpacking blocks of sorted rotations

A block holds the last column of the sorted rotations of its text and the place of the text among them.  The column is
written as places in a list whose bytes move to the front when they are named, runs of the first place as digits, and
all of it in prefix codes that take turns.  The text itself may be shaken, and has its long runs shortened: four equal
bytes are followed by how many more there are.  Each block has a checksum, and so have all blocks together.  Data that
end early give the blocks that are whole; any fault makes all of it corrupt.
-/
namespace Cognitive
namespace Zip
namespace Bzip2

/-- A step of reading; data are corrupt in one way only. -/
abbrev Reading (α : Type) := Except (Halt Unit) α

def corrupt {α : Type} : Reading α := .error (.corrupt ())

def rejectIf (fault : Bool) : Reading Unit := if fault then corrupt else .ok ()

/-- Reads bytes that must come, one after another. -/
def expect : List Nat → Bits → Reading Bits
  | [], bits => .ok bits
  | byte :: rest, bits => do
    let (found, bits) ← bits.takeHigh 8
    rejectIf (found != byte)
    expect rest bits

/-! ## The codes of a block -/

/-- Which bytes there are: sixteen groups, then the members of each group that is there. -/
def readUsed (groups : Nat) : (left : Nat) → Bits → Reading (List UInt8 × Bits)
  | 0, bits => .ok ([], bits)
  | n + 1, bits =>
    if groups.testBit n then do
      let (members, bits) ← bits.takeHigh 16
      let here := (List.range 16).filter fun m => members.testBit (15 - m)
      let (later, bits) ← readUsed groups n bits
      return (here.map (fun m => ((15 - n) * 16 + m).toUInt8) ++ later, bits)
    else readUsed groups n bits

/-- How many ones come before a zero; there must be fewer than a limit. -/
def readOnes : (limit ones : Nat) → Bits → Reading (Nat × Bits)
  | 0, _, _ => corrupt
  | limit + 1, ones, bits => do
    let (bit, bits) ← bits.takeHigh 1
    if bit = 0 then return (ones, bits) else readOnes limit (ones + 1) bits

/-- Which code each stretch of symbols is in, as places in a list that moves to the front. -/
def readTurns (codes : Nat) : (count : Nat) → (done : List Nat) → Bits → Reading (List Nat × Bits)
  | 0, done, bits => .ok (done.reverse, bits)
  | n + 1, done, bits => do
    let (place, bits) ← readOnes codes 0 bits
    readTurns codes n (place :: done) bits

/-- Takes an item to the front of a list. -/
def toFront {α : Type} (place : Nat) (l : List α) : List α := (l[place]?).toList ++ l.eraseIdx place

/-- The items that places name, each of which moves its item to the front. -/
def named {α : Type} (l : List α) : (places : List Nat) → List α
  | [] => []
  | place :: rest => (l[place]?).toList ++ named (toFront place l) rest

def longestWord : Nat := 20

/-- The length of a word, by steps up and down from the one before. -/
def readLength : (fuel current : Nat) → Bits → Reading (Nat × Bits)
  | 0, _, _ => .error .ended
  | fuel + 1, current, bits => do
    rejectIf (current == 0 || decide (longestWord < current))
    let (changes, bits) ← bits.takeHigh 1
    if changes = 0 then return (current, bits)
    let (down, bits) ← bits.takeHigh 1
    readLength fuel (if down = 0 then current + 1 else current - 1) bits

def readLengths : (count current : Nat) → Bits → Reading (List Nat × Bits)
  | 0, _, bits => .ok ([], bits)
  | n + 1, current, bits => do
    let (length, bits) ← readLength (bits.left + 1) current bits
    let (rest, bits) ← readLengths n length bits
    return (length :: rest, bits)

/-- The code with some word lengths.  That bits are no word is found one bit after the longest that could be. -/
def codeOf (lengths : List Nat) : Code :=
  let c := Code.ofLengths lengths
  ⟨c.counts ++ List.replicate (longestWord + 1 - c.counts.length) 0, c.symbols⟩

def readCodes (symbols : Nat) : (count : Nat) → Bits → Reading (List Code × Bits)
  | 0, bits => .ok ([], bits)
  | n + 1, bits => do
    let (start, bits) ← bits.takeHigh 5
    let (lengths, bits) ← readLengths symbols start bits
    let (rest, bits) ← readCodes symbols n bits
    return (codeOf lengths :: rest, bits)

/-! ## The last column -/

/-- Symbols that are still to be read: how many are left in the code of the moment, and the codes after it. -/
structure Symbols where
  code : Code
  left : Nat
  later : List Code
  bits : Bits

/-- How many symbols in a row are in one code. -/
def stretch : Nat := 50

def Symbols.next (s : Symbols) : Reading (Nat × Symbols) :=
  match s.left, s.later with
  | 0, [] => corrupt
  | 0, code :: later => do
    let (symbol, bits) ← code.read () s.bits
    return (symbol, ⟨code, stretch - 1, later, bits⟩)
  | left + 1, later => do
    let (symbol, bits) ← s.code.read () s.bits
    return (symbol, ⟨s.code, left, later, bits⟩)

def pushRun (b : UInt8) : (length : Nat) → ByteArray → ByteArray
  | 0, out => out
  | n + 1, out => pushRun b n (out.push b)

/-- The weight from which on no digit of a run is read. -/
def weightLimit : Nat := 2 * 1024 * 1024

/-- Reads the column up to its end symbol: `run` is what the digits read last come to, and `weight` what the next one
counts for.  A run is of the byte that is at the front. -/
def column (limit endSymbol : Nat) :
    (fuel : Nat) → (front : List UInt8) → (run weight : Nat) → Symbols → ByteArray → Reading (ByteArray × Bits)
  | 0, _, _, _, _, _ => .error .ended
  | fuel + 1, front, run, weight, s, out => do
    let (symbol, s) ← s.next
    if symbol < 2 then
      rejectIf (decide (weightLimit ≤ weight))
      column limit endSymbol fuel front (run + (symbol + 1) * weight) (2 * weight) s out
    else
      rejectIf (decide (limit < out.size + run))
      let out := pushRun (front.headD 0) run out
      if symbol = endSymbol then return (out, s.bits)
      rejectIf (decide (limit ≤ out.size))
      let front := toFront (symbol - 1) front
      column limit endSymbol fuel front 0 1 s (out.push (front.headD 0))

/-! ## The text of a block -/

/-- A block as it was read. -/
structure Block where
  checksum : Nat
  shaken : Bool
  /-- The place of the text among the rotations. -/
  origin : Nat
  column : ByteArray

/-- Goes through a column from a place on, where each place has another after it. -/
def follow (column : ByteArray) (next : Array Nat) : (count place : Nat) → ByteArray → ByteArray
  | 0, _, out => out
  | n + 1, place, out => follow column next n (next.getD place 0) (out.push (column[place]?.getD 0))

/-- The text whose sorted rotations end in a column. -/
def unsorted (column : ByteArray) (origin : Nat) : ByteArray :=
  let byte := fun place => column[place]?.getD 0
  let next := ((List.range column.size).mergeSort fun i j => decide (byte i ≤ byte j)).toArray
  follow column next column.size (next.getD origin 0) ByteArray.empty

/-- How far apart the bytes are that shaking changes; the distances start anew after the last one. -/
def gaps : Array Nat := #[
  619, 720, 127, 481, 931, 816, 813, 233, 566, 247, 985, 724, 205, 454, 863, 491, 741, 242, 949, 214, 733, 859, 335,
  708, 621, 574, 73, 654, 730, 472, 419, 436, 278, 496, 867, 210, 399, 680, 480, 51, 878, 465, 811, 169, 869, 675, 611,
  697, 867, 561, 862, 687, 507, 283, 482, 129, 807, 591, 733, 623, 150, 238, 59, 379, 684, 877, 625, 169, 643, 105, 170,
  607, 520, 932, 727, 476, 693, 425, 174, 647, 73, 122, 335, 530, 442, 853, 695, 249, 445, 515, 909, 545, 703, 919, 874,
  474, 882, 500, 594, 612, 641, 801, 220, 162, 819, 984, 589, 513, 495, 799, 161, 604, 958, 533, 221, 400, 386, 867,
  600, 782, 382, 596, 414, 171, 516, 375, 682, 485, 911, 276, 98, 553, 163, 354, 666, 933, 424, 341, 533, 870, 227, 730,
  475, 186, 263, 647, 537, 686, 600, 224, 469, 68, 770, 919, 190, 373, 294, 822, 808, 206, 184, 943, 795, 384, 383, 461,
  404, 758, 839, 887, 715, 67, 618, 276, 204, 918, 873, 777, 604, 560, 951, 160, 578, 722, 79, 804, 96, 409, 713, 940,
  652, 934, 970, 447, 318, 353, 859, 672, 112, 785, 645, 863, 803, 350, 139, 93, 354, 99, 820, 908, 609, 772, 154, 274,
  580, 184, 79, 626, 630, 742, 653, 282, 762, 623, 680, 81, 927, 626, 789, 125, 411, 521, 938, 300, 821, 78, 343, 175,
  128, 250, 170, 774, 972, 275, 999, 639, 495, 78, 352, 126, 857, 956, 358, 619, 580, 124, 737, 594, 701, 612, 669, 112,
  134, 694, 363, 992, 809, 743, 168, 974, 944, 375, 748, 52, 600, 747, 642, 182, 862, 81, 344, 805, 988, 739, 511, 655,
  814, 334, 249, 515, 897, 955, 664, 981, 649, 113, 974, 459, 893, 228, 433, 837, 553, 268, 926, 240, 102, 654, 459, 51,
  686, 754, 806, 760, 493, 403, 415, 394, 687, 700, 946, 670, 656, 610, 738, 392, 760, 799, 887, 653, 978, 321, 576,
  617, 626, 502, 894, 679, 243, 440, 680, 879, 194, 572, 640, 724, 926, 56, 204, 700, 707, 151, 457, 449, 797, 195, 791,
  558, 945, 679, 297, 59, 87, 824, 713, 663, 412, 693, 342, 606, 134, 108, 571, 364, 631, 212, 174, 643, 304, 329, 343,
  97, 430, 751, 497, 314, 983, 374, 822, 928, 140, 206, 73, 263, 980, 736, 876, 478, 430, 305, 170, 514, 364, 692, 829,
  82, 855, 953, 676, 246, 369, 970, 294, 750, 807, 827, 150, 790, 288, 923, 804, 378, 215, 828, 592, 281, 565, 555, 710,
  82, 896, 831, 547, 261, 524, 462, 293, 465, 502, 56, 661, 821, 976, 991, 658, 869, 905, 758, 745, 193, 768, 550, 608,
  933, 378, 286, 215, 979, 792, 961, 61, 688, 793, 644, 986, 403, 106, 366, 905, 644, 372, 567, 466, 434, 645, 210, 389,
  550, 919, 135, 780, 773, 635, 389, 707, 100, 626, 958, 165, 504, 920, 176, 193, 713, 857, 265, 203, 50, 668, 108, 645,
  990, 626, 197, 510, 357, 358, 850, 858, 364, 936, 638]

/-- The places in a text of some size that shaking changes, from one of the distances on. -/
def shakenPlaces (size : Nat) : (fuel turn start : Nat) → List Nat
  | 0, _, _ => []
  | fuel + 1, turn, start =>
    let next := start + gaps.getD (turn % gaps.size) 0
    if next - 2 < size then (next - 2) :: shakenPlaces size fuel (turn + 1) next else []

/-- Changes the low bit of the bytes that shaking changes. -/
def calmed (text : ByteArray) : ByteArray :=
  ⟨(shakenPlaces text.size text.size 0 0).foldl (fun bytes place => bytes.modify place (· ^^^ 1)) text.data⟩

/-- Writes out the runs of a text, of which some of the last bytes before it were equal; none when the text ends where
the length of a run should be. -/
def unrun (last : UInt8) (equal : Nat) : List UInt8 → ByteArray → ByteArray × Bool
  | [], out => (out, equal != 4)
  | b :: rest, out =>
    if equal = 4 then unrun last 0 rest (pushRun last b.toNat out)
    else if equal ≠ 0 ∧ b = last then unrun last (equal + 1) rest (out.push b)
    else unrun b 1 rest (out.push b)

/-- The text of a block added to what there is, and whether it makes sense to its end. -/
def Block.writeTo (b : Block) (out : ByteArray) : ByteArray × Bool :=
  let text := unsorted b.column b.origin
  unrun 0 0 (if b.shaken then calmed text else text).toList out

/-! ## Checksums -/

/-- The polynomial, highest power first. -/
def polynomial : UInt32 := 0x04C11DB7

def remainder (n : Nat) : UInt32 :=
  Nat.repeat (fun c : UInt32 => if c >>> 31 = 1 then (c <<< 1) ^^^ polynomial else c <<< 1) 8 (n.toUInt32 <<< 24)

def remainders : Array UInt32 := (Array.range 256).map remainder

def addByte (c : UInt32) (b : UInt8) : UInt32 := (c <<< 8) ^^^ remainders.getD ((c >>> 24) ^^^ b.toUInt32).toNat 0

/-- The checksum of the bytes from a place on. -/
def checksumFrom (start : Nat) (bytes : ByteArray) : Nat :=
  ((bytes.foldl addByte 0xFFFFFFFF start) ^^^ 0xFFFFFFFF).toNat

/-- The checksum of some blocks with that of one more. -/
def combined (all : Nat) (block : Nat) : Nat :=
  (((all.toUInt32 <<< 1) ||| (all.toUInt32 >>> 31)) ^^^ block.toUInt32).toNat

/-! ## Blocks -/

def blockUnit : Nat := 100000

/-- The most turns that count. -/
def mostTurns : Nat := 18002

/-- A block of at most so many bytes, after the mark at its start. -/
def readBlock (limit : Nat) (bits : Bits) : Reading (Block × Bits) := do
  let (checksum, bits) ← bits.takeHigh 32
  let (shaken, bits) ← bits.takeHigh 1
  let (origin, bits) ← bits.takeHigh 24
  rejectIf (decide (limit + 10 < origin))
  let (groups, bits) ← bits.takeHigh 16
  let (used, bits) ← readUsed groups 16 bits
  rejectIf used.isEmpty
  let (codeCount, bits) ← bits.takeHigh 3
  rejectIf (decide (codeCount < 2) || decide (6 < codeCount))
  let (turnCount, bits) ← bits.takeHigh 15
  rejectIf (turnCount == 0)
  let (places, bits) ← readTurns codeCount turnCount [] bits
  let (codes, bits) ← readCodes (used.length + 2) codeCount bits
  let turns := (named codes (places.take mostTurns))
  let symbols : Symbols := ⟨⟨[], #[]⟩, 0, turns, bits⟩
  let (column, bits) ← column limit (used.length + 1) (bits.left + 1) used 0 1 symbols ByteArray.empty
  rejectIf (decide (column.size ≤ origin))
  return (⟨checksum, shaken == 1, origin, column⟩, bits)

/-- The sizes that the buffer for what is unpacked has, one after another. -/
def bufferSizes : List Nat :=
  [32, 96, 352, 1376, 5472, 13664, 30048, 46432, 79200, 111968, 144736, 177504, 243040, 308576, 439648, 570720,
   832864].map (· * 1024)

/-- How much of what comes after so many bytes is handed out when the data end with it. -/
def bufferEnd (size : Nat) : Nat := (bufferSizes.find? (size ≤ ·)).getD size

/-- The blocks that are left, after what has been unpacked so far; none when the data are corrupt. -/
def blocks (limit : Nat) : (fuel : Nat) → (all : Nat) → Bits → ByteArray → Option Inflated
  | 0, _, _, out => some ⟨out, false⟩
  | fuel + 1, all, bits, out =>
    match (bits.takeHigh 8 : Reading (Nat × Bits)) with
    | .error _ => some ⟨out, false⟩
    | .ok (0x31, bits) =>
      match expect [0x41, 0x59, 0x26, 0x53, 0x59] bits >>= readBlock limit with
      | .error .ended => some ⟨out, false⟩
      | .error (.corrupt _) => none
      | .ok (block, bits) =>
        let (written, sound) := block.writeTo out
        if bits.isUsedUp ∧ bufferEnd out.size < written.size then
          some ⟨written.extract 0 (bufferEnd out.size), false⟩
        else if sound ∧ checksumFrom out.size written = block.checksum then
          blocks limit fuel (combined all block.checksum) bits written
        else none
    | .ok (0x17, bits) =>
      match expect [0x72, 0x45, 0x38, 0x50, 0x90] bits >>= Bits.takeHigh 32 with
      | .error .ended => some ⟨out, false⟩
      | .error (.corrupt _) => none
      | .ok (sum, _) => if sum = all then some ⟨out, true⟩ else none
    | .ok _ => none

/-- Unpacks data; none when they are corrupt. -/
def unpack (data : ByteArray) : Option Inflated :=
  let header : Reading (Nat × Bits) := do
    let bits ← expect [0x42, 0x5A, 0x68] (Bits.highFirst data)
    let (level, bits) ← bits.takeHigh 8
    rejectIf (decide (level < 0x31) || decide (0x39 < level))
    return (level - 0x30, bits)
  match header with
  | .error .ended => some ⟨ByteArray.empty, false⟩
  | .error (.corrupt _) => none
  | .ok (level, bits) => blocks (level * blockUnit) (bits.left + 1) 0 bits ByteArray.empty

end Bzip2
end Zip
end Cognitive
