import Cognitive.Json.Reader
import Cognitive.Text.Utf8
/-!
# The encoding of JSON bytes

JSON sent as bytes may be in UTF-8, UTF-16 or UTF-32.  A byte-order mark says which; without one, the zero bytes among
the first four do, because JSON starts with two ASCII characters.  Halves of surrogate pairs that stand alone are let
through in each of the encodings, in UTF-8 as if they were characters.
-/
namespace Cognitive
namespace Json

/-- The encodings, with the byte order where there is a choice. -/
inductive Encoding where
  | utf8
  | utf16 (bigEndian : Bool)
  | utf32 (bigEndian : Bool)
deriving DecidableEq, Repr

/-- The encoding of some bytes, and the bytes after the mark that gave it away. -/
def Encoding.detect (bytes : List UInt8) : Encoding × List UInt8 :=
  match bytes with
  | 0 :: 0 :: 0xFE :: 0xFF :: rest => (.utf32 true, rest)
  | 0xFF :: 0xFE :: 0 :: 0 :: rest => (.utf32 false, rest)
  | 0xFE :: 0xFF :: rest => (.utf16 true, rest)
  | 0xFF :: 0xFE :: rest => (.utf16 false, rest)
  | 0xEF :: 0xBB :: 0xBF :: rest => (.utf8, rest)
  | a :: b :: c :: d :: _ =>
    if a = 0 then (if b ≠ 0 then .utf16 true else .utf32 true, bytes)
    else if b = 0 then (if c ≠ 0 ∨ d ≠ 0 then .utf16 false else .utf32 false, bytes)
    else (.utf8, bytes)
  | [a, b] => (if a = 0 then .utf16 true else if b = 0 then .utf16 false else .utf8, bytes)
  | _ => (.utf8, bytes)

def pairValue (bigEndian : Bool) (a b : UInt8) : Nat :=
  if bigEndian then a.toNat * 256 + b.toNat else b.toNat * 256 + a.toNat

/-- Bytes as code units of two bytes; none when one byte is left over. -/
def unitsOf (bigEndian : Bool) : List UInt8 → Option (List Nat)
  | [] => some []
  | a :: b :: rest => (unitsOf bigEndian rest).map (pairValue bigEndian a b :: ·)
  | [_] => none

def pointsOfUnits : List Nat → List CodePoint
  | [] => []
  | [u] => [.ofNat u]
  | u :: v :: rest =>
    if isHighSurrogate u && isLowSurrogate v then .char (Char.ofNat (pairedCode u v)) :: pointsOfUnits rest
    else .ofNat u :: pointsOfUnits (v :: rest)

def pointsOfWords (bigEndian : Bool) : List UInt8 → Option (List CodePoint)
  | [] => some []
  | a :: b :: c :: d :: rest =>
    let n := if bigEndian then pairValue true a b * 65536 + pairValue true c d
      else pairValue false c d * 65536 + pairValue false a b
    if n < 0x110000 then (pointsOfWords bigEndian rest).map (.ofNat n :: ·) else none
  | _ => none

/-- The surrogate that three bytes would be in UTF-8. -/
def surrogate? (a b c : UInt8) : Option CodePoint :=
  if a = 0xED ∧ 0xA0 ≤ b ∧ b ≤ 0xBF ∧ 0x80 ≤ c ∧ c ≤ 0xBF then
    some (.ofNat (0xD000 + (b.toNat - 0x80) * 64 + (c.toNat - 0x80)))
  else none

/-- The code point that bytes of UTF-8 start with, and the bytes after it. -/
def point? (bytes : List UInt8) : Option (CodePoint × List UInt8) :=
  match bytes with
  | [] => none
  | a :: rest =>
    match (Utf8.piece a rest).1, rest with
    | some c, _ => some (.char c, (Utf8.piece a rest).2)
    | none, b :: c :: rest => (surrogate? a b c).map (·, rest)
    | none, _ => none

theorem length_point?_lt {bytes rest : List UInt8} {p : CodePoint} (h : point? bytes = some (p, rest)) :
    rest.length < bytes.length := by
  cases bytes with
  | nil => cases h
  | cons a tail =>
    simp only [point?] at h
    split at h
    · cases h
      exact Nat.lt_succ_of_le (Utf8.length_piece_le ..)
    · obtain ⟨_, _, h⟩ := Option.map_eq_some_iff.1 h
      cases h
      simp only [List.length_cons]
      omega
    · cases h

/-- The code points of UTF-8 after those already read, which are held in reverse. -/
def pointsFrom (done : List CodePoint) (bytes : List UInt8) : Option (List CodePoint) :=
  match _read : point? bytes with
  | some (p, rest) => pointsFrom (p :: done) rest
  | none => if bytes.isEmpty then some done.reverse else none
termination_by bytes.length
decreasing_by exact length_point?_lt _read

/-- The text of JSON bytes; none when they are not well formed in their encoding. -/
def decodeBytes (bytes : List UInt8) : Option Script :=
  let points := match Encoding.detect bytes with
    | (.utf8, rest) => pointsFrom [] rest
    | (.utf16 big, rest) => (unitsOf big rest).map pointsOfUnits
    | (.utf32 big, rest) => pointsOfWords big rest
  points.map Script.mk

def readBytes (bytes : List UInt8) : Except Fault Json := do read (← orMalformed (decodeBytes bytes))

end Json
end Cognitive
