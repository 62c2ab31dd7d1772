/-!
# Bits of compressed data

Bits are taken from the low end of each byte on, and numbers of several bits start with their lowest one.  Where a
format does it the other way round, each byte is mirrored first, and numbers start with their highest bit.
-/
namespace Cognitive
namespace Zip

/-- Why reading stops: the data have ended, or they mean nothing. -/
inductive Halt (ε : Type) where
  | ended
  | corrupt (why : ε)
deriving DecidableEq, Repr

/-- Data, and how many bits of them have been read. -/
structure Bits where
  data : ByteArray
  pos : Nat

namespace Bits

def left (b : Bits) : Nat := b.data.size * 8 - b.pos

def next? (b : Bits) : Option (Nat × Bits) :=
  match b.data[b.pos / 8]? with
  | some byte => some (byte.toNat / Nat.pow 2 (b.pos % 8) % 2, { b with pos := b.pos + 1 })
  | none => none

def take? : (count : Nat) → Bits → Option (Nat × Bits)
  | 0, b => some (0, b)
  | n + 1, b => do
    let (bit, b) ← b.next?
    let (high, b) ← take? n b
    return (bit + 2 * high, b)

/-- The number that the next bits are; stops where the data end. -/
def take {ε : Type} (count : Nat) (b : Bits) : Except (Halt ε) (Nat × Bits) :=
  match take? count b with
  | some r => .ok r
  | none => .error .ended

def align (b : Bits) : Bits := { b with pos := (b.pos + 7) / 8 * 8 }

/-- A byte with its bits in the other order. -/
def mirror (b : UInt8) : UInt8 :=
  ((List.range 8).foldl (fun n bit => 2 * n + b.toNat / Nat.pow 2 bit % 2) 0).toUInt8

def mirrors : Array UInt8 := (Array.range 256).map fun n => mirror n.toUInt8

/-- The bits of data that are taken from the high end of each byte on. -/
def highFirst (data : ByteArray) : Bits := ⟨⟨data.data.map fun b => mirrors.getD b.toNat 0⟩, 0⟩

/-- The number that the next bits are after some others, the highest first. -/
def takeHighFrom (high : Nat) : (count : Nat) → Bits → Option (Nat × Bits)
  | 0, b => some (high, b)
  | n + 1, b => do
    let (bit, b) ← b.next?
    takeHighFrom (2 * high + bit) n b

/-- The number that the next bits are, the highest first; stops where the data end. -/
def takeHigh {ε : Type} (count : Nat) (b : Bits) : Except (Halt ε) (Nat × Bits) :=
  match takeHighFrom 0 count b with
  | some r => .ok r
  | none => .error .ended

/-- All bytes have been taken from, the last one perhaps not to its end. -/
def isUsedUp (b : Bits) : Bool := decide (b.data.size * 8 < b.pos + 8)

end Bits
end Zip
end Cognitive
