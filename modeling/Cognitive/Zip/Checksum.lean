/-!
# The checksum of an archive entry

CRC-32 with the reflected polynomial EDB88320, started at all ones and complemented at the end.
-/
namespace Cognitive
namespace Zip

/-- The polynomial, lowest power first. -/
def polynomial : UInt32 := 0xEDB88320

def shiftBit (c : UInt32) : UInt32 := if c &&& 1 = 1 then (c >>> 1) ^^^ polynomial else c >>> 1

def remainder (n : Nat) : UInt32 := Nat.repeat shiftBit 8 n.toUInt32

def remainders : Array UInt32 := (Array.range 256).map remainder

def addByte (c : UInt32) (b : UInt8) : UInt32 :=
  (c >>> 8) ^^^ remainders.getD ((c ^^^ b.toUInt32) &&& 0xFF).toNat 0

def checksum (bytes : ByteArray) : Nat := ((bytes.foldl addByte 0xFFFFFFFF) ^^^ 0xFFFFFFFF).toNat

end Zip
end Cognitive
