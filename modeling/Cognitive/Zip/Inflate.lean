import Cognitive.Zip.Huffman
/-!
# Inflating compressed data

Deflated data are blocks of three sorts: plain bytes, and symbols in a fixed code or in codes that the block itself
brings.  A symbol is a byte, the end of the block, or the length of a copy whose distance back follows.  Data that end
early give what they say up to there; data that mean nothing are corrupt, and nothing of them is kept.
-/
namespace Cognitive
namespace Zip

/-- What is wrong with compressed data. -/
inductive Corruption where
  | blockType
  | storedLength
  | tooManySymbols
  | codeLengthCode
  | lengthRepeat
  | noBlockEnd
  | literalCode
  | distanceCode
  | literalWord
  | distanceWord
  | distanceTooFar
deriving DecidableEq, Repr

def Corruption.message : Corruption → String
  | blockType => "invalid block type"
  | storedLength => "invalid stored block lengths"
  | tooManySymbols => "too many length or distance symbols"
  | codeLengthCode => "invalid code lengths set"
  | lengthRepeat => "invalid bit length repeat"
  | noBlockEnd => "invalid code -- missing end-of-block"
  | literalCode => "invalid literal/lengths set"
  | distanceCode => "invalid distances set"
  | literalWord => "invalid literal/length code"
  | distanceWord => "invalid distance code"
  | distanceTooFar => "invalid distance too far back"

/-- A step of reading: what was read and the bits after it. -/
abbrev Reading (α : Type) := Except (Halt Corruption) α

/-! ## Symbols -/

/-- Base values with how many extra bits each has, by symbol. -/
def withExtras (first : Nat) (extras : List Nat) : List (Nat × Nat) :=
  (extras.foldl (fun (acc : List (Nat × Nat) × Nat) e => ((acc.2, e) :: acc.1, acc.2 + Nat.pow 2 e))
    ([], first)).1.reverse

/-- The lengths of copies by symbol from 257 on; the last one stands for 258 alone. -/
def copyLengths : Array (Nat × Nat) :=
  (withExtras 3 [0, 0, 0, 0, 0, 0, 0, 0, 1, 1, 1, 1, 2, 2, 2, 2, 3, 3, 3, 3, 4, 4, 4, 4, 5, 5, 5, 5]
    ++ [(258, 0)]).toArray

def copyDistances : Array (Nat × Nat) :=
  (withExtras 1
    [0, 0, 0, 0, 1, 1, 2, 2, 3, 3, 4, 4, 5, 5, 6, 6, 7, 7, 8, 8, 9, 9, 10, 10, 11, 11, 12, 12, 13, 13]).toArray

/-- What a symbol of a block stands for. -/
inductive Item where
  | byte (b : UInt8)
  | blockEnd
  | copy (length distance : Nat)

def readExtended (table : Array (Nat × Nat)) (symbol : Nat) (invalid : Corruption) (bits : Bits) :
    Reading (Nat × Bits) :=
  match table[symbol]? with
  | some (base, extra) => (bits.take extra).map fun r => (base + r.1, r.2)
  | none => .error (.corrupt invalid)

def readItem (literals distances : Code) (bits : Bits) : Reading (Item × Bits) := do
  let (symbol, bits) ← literals.read .literalWord bits
  if symbol < 256 then return (.byte symbol.toUInt8, bits)
  if symbol = 256 then return (.blockEnd, bits)
  let (length, bits) ← readExtended copyLengths (symbol - 257) .literalWord bits
  let (symbol, bits) ← distances.read .distanceWord bits
  let (distance, bits) ← readExtended copyDistances symbol .distanceWord bits
  return (.copy length distance, bits)

/-- Adds bytes that stand some distance before the end, each as soon as the one before it is there. -/
def copyBack (distance : Nat) : (length : Nat) → ByteArray → ByteArray
  | 0, out => out
  | n + 1, out => copyBack distance n (out.push (out[out.size - distance]?.getD 0))

/-- Output so far, and the bits to go on with unless the data have ended. -/
abbrev Partial := ByteArray × Option Bits

def items (literals distances : Code) : (fuel : Nat) → Bits → ByteArray → Except Corruption Partial
  | 0, _, out => .ok (out, none)
  | fuel + 1, bits, out =>
    match readItem literals distances bits with
    | .error .ended => .ok (out, none)
    | .error (.corrupt why) => .error why
    | .ok (.byte b, bits) => items literals distances fuel bits (out.push b)
    | .ok (.blockEnd, bits) => .ok (out, some bits)
    | .ok (.copy length distance, bits) =>
      if distance ≤ out.size then items literals distances fuel bits (copyBack distance length out)
      else .error .distanceTooFar

/-! ## Codes -/

def fixedLiterals : Code :=
  .ofLengths (List.replicate 144 8 ++ List.replicate 112 9 ++ List.replicate 24 7 ++ List.replicate 8 8)

def fixedDistances : Code := .ofLengths (List.replicate 32 5)

/-- The order in which the lengths of the code for lengths come. -/
def lengthOrder : List Nat := [16, 17, 18, 0, 8, 7, 9, 6, 10, 5, 11, 4, 12, 3, 13, 2, 14, 1, 15]

def readTriples : (count : Nat) → Bits → Reading (List Nat × Bits)
  | 0, bits => .ok ([], bits)
  | n + 1, bits => do
    let (first, bits) ← bits.take 3
    let (rest, bits) ← readTriples n bits
    return (first :: rest, bits)

/-- One instruction for word lengths: a length and how often it comes.  Symbol 16 repeats the length before, which must
be there; 17 and 18 stand for runs of zeros. -/
def readRun (lengths : Code) (last : Option Nat) (bits : Bits) : Reading ((Nat × Nat) × Bits) := do
  let (symbol, bits) ←
    if lengths.isEmpty then (bits.take 1).map (fun r => (0, r.2)) else lengths.read .codeLengthCode bits
  if symbol < 16 then return ((symbol, 1), bits)
  if symbol = 16 then
    let (extra, bits) ← bits.take 2
    match last with
    | some length => return ((length, 3 + extra), bits)
    | none => throw (.corrupt .lengthRepeat)
  if symbol = 17 then
    let (extra, bits) ← bits.take 3
    return ((0, 3 + extra), bits)
  let (extra, bits) ← bits.take 7
  return ((0, 11 + extra), bits)

/-- Reads word lengths until there are enough of them; those so far are held in reverse. -/
def readLengths (lengths : Code) (total : Nat) : (fuel : Nat) → (done : List Nat) → Bits → Reading (List Nat × Bits)
  | 0, _, _ => .error .ended
  | fuel + 1, done, bits =>
    if total ≤ done.length then .ok (done.reverse, bits)
    else do
      let ((length, count), bits) ← readRun lengths done.head? bits
      if total < done.length + count then throw (.corrupt .lengthRepeat)
      readLengths lengths total fuel (List.replicate count length ++ done) bits

def readCodes (bits : Bits) : Reading ((Code × Code) × Bits) := do
  let (n, bits) ← bits.take 14
  let literalCount := n % 32 + 257
  let distanceCount := n / 32 % 32 + 1
  let lengthCount := n / 1024 + 4
  if 286 < literalCount ∨ 30 < distanceCount then throw (.corrupt .tooManySymbols)
  let (triples, bits) ← readTriples lengthCount bits
  let given := lengthOrder.zip triples
  let lengths := Code.ofLengths ((List.range 19).map fun symbol => (given.lookup symbol).getD 0)
  if !lengths.isFull then throw (.corrupt .codeLengthCode)
  let total := literalCount + distanceCount
  let (all, bits) ← readLengths lengths total (total + 1) [] bits
  if all[256]?.getD 0 = 0 then throw (.corrupt .noBlockEnd)
  let literals := Code.ofLengths (all.take literalCount)
  if !literals.isUsable then throw (.corrupt .literalCode)
  let distances := Code.ofLengths (all.drop literalCount)
  if !distances.isUsable then throw (.corrupt .distanceCode)
  return ((literals, distances), bits)

/-! ## Blocks -/

/-- The length of a block of plain bytes, which comes with its complement. -/
def readStoredLength (bits : Bits) : Reading (Nat × Bits) := do
  let (length, bits) ← bits.align.take 16
  let (complement, bits) ← bits.take 16
  if length + complement = 0xFFFF then return (length, bits)
  throw (.corrupt .storedLength)

def copyStored (length : Nat) (bits : Bits) (out : ByteArray) : Partial :=
  let start := bits.pos / 8
  let out := out ++ bits.data.extract start (start + length)
  (out, if start + length ≤ bits.data.size then some ⟨bits.data, (start + length) * 8⟩ else none)

/-- Turns data that have ended into what there is so far. -/
def orEnded (out : ByteArray) (r : Reading α) (next : α → Except Corruption Partial) : Except Corruption Partial :=
  match r with
  | .ok x => next x
  | .error .ended => .ok (out, none)
  | .error (.corrupt why) => .error why

def block (type : Nat) (bits : Bits) (out : ByteArray) : Except Corruption Partial :=
  match type with
  | 0 => orEnded out (readStoredLength bits) fun r => .ok (copyStored r.1 r.2 out)
  | 1 => items fixedLiterals fixedDistances (bits.left + 1) bits out
  | 2 => orEnded out (readCodes bits) fun r => items r.1.1 r.1.2 (r.2.left + 1) r.2 out
  | _ => .error .blockType

/-- Inflated data: the bytes, and whether the last block was finished. -/
structure Inflated where
  bytes : ByteArray
  complete : Bool

/-- The blocks that are left, after what has been inflated so far. -/
def blocks : (fuel : Nat) → Bits → ByteArray → Except Corruption Inflated
  | 0, _, out => .ok ⟨out, false⟩
  | fuel + 1, bits, out =>
    match bits.take? 3 with
    | none => .ok ⟨out, false⟩
    | some (header, bits) =>
      match block (header / 2) bits out with
      | .error why => .error why
      | .ok (out, none) => .ok ⟨out, false⟩
      | .ok (out, some bits) => if header % 2 = 1 then .ok ⟨out, true⟩ else blocks fuel bits out

/-- Inflates data. -/
def inflate (data : ByteArray) : Except Corruption Inflated := blocks (data.size * 8 + 1) ⟨data, 0⟩ ByteArray.empty

end Zip
end Cognitive
