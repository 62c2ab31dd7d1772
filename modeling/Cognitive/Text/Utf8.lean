/-!
# UTF-8 with replacement

Bytes are read as UTF-8 one sequence at a time.  A sequence that breaks off, or a byte that starts none, yields one
invalid piece: the longest run of bytes that some well-formed sequence starts with.  Reading with replacement writes
U+FFFD for each invalid piece; strict reading refuses the text.  Overlong forms and surrogates are invalid, because the
first continuation byte of each lead has a range of its own.
-/
namespace Cognitive
namespace Utf8

/-- What a lead byte announces: how many continuation bytes follow, the range of the first of them, and the bits of
the code point that the lead itself carries. -/
structure Lead where
  count : Nat
  low : Nat
  high : Nat
  bits : Nat
deriving DecidableEq, Repr

/-- The announcement of a byte that starts a sequence of more than one byte. -/
def Lead.of? (b : Nat) : Option Lead :=
  if 0xC2 ≤ b ∧ b ≤ 0xDF then some ⟨1, 0x80, 0xBF, b - 0xC0⟩
  else if b = 0xE0 then some ⟨2, 0xA0, 0xBF, 0⟩
  else if b = 0xED then some ⟨2, 0x80, 0x9F, 0xD⟩
  else if 0xE1 ≤ b ∧ b ≤ 0xEF then some ⟨2, 0x80, 0xBF, b - 0xE0⟩
  else if b = 0xF0 then some ⟨3, 0x90, 0xBF, 0⟩
  else if 0xF1 ≤ b ∧ b ≤ 0xF3 then some ⟨3, 0x80, 0xBF, b - 0xF0⟩
  else if b = 0xF4 then some ⟨3, 0x80, 0x8F, 4⟩
  else none

/-- Reads `count` continuation bytes, the first within its range.  Gives the code point when all are there, and the
bytes after the last one that was accepted. -/
def continuation : (count low high code : Nat) → List UInt8 → Option Nat × List UInt8
  | 0, _, _, code, rest => (some code, rest)
  | _ + 1, _, _, _, [] => (none, [])
  | n + 1, low, high, code, b :: rest =>
    if low ≤ b.toNat ∧ b.toNat ≤ high then continuation n 0x80 0xBF (code * 64 + (b.toNat - 0x80)) rest
    else (none, b :: rest)

theorem length_continuation_le (count low high code : Nat) (bytes : List UInt8) :
    (continuation count low high code bytes).2.length ≤ bytes.length := by
  fun_induction continuation count low high code bytes <;> grind

/-- Reads the piece that a byte starts: a character, or `none` for an invalid piece, and the bytes after it. -/
def piece (b : UInt8) (rest : List UInt8) : Option Char × List UInt8 :=
  if b.toNat < 0x80 then (some (Char.ofNat b.toNat), rest)
  else match Lead.of? b.toNat with
    | none => (none, rest)
    | some lead =>
      let tail := continuation lead.count lead.low lead.high lead.bits rest
      (tail.1.map Char.ofNat, tail.2)

theorem length_piece_le (b : UInt8) (rest : List UInt8) : (piece b rest).2.length ≤ rest.length := by
  unfold piece
  split
  · simp
  · split
    · simp
    · exact length_continuation_le ..

/-- The pieces of the bytes after those already read, which are held in reverse. -/
def piecesFrom (done : List (Option Char)) : List UInt8 → List (Option Char)
  | [] => done.reverse
  | b :: rest => piecesFrom ((piece b rest).1 :: done) (piece b rest).2
termination_by bytes => bytes.length
decreasing_by
  simp only [List.length_cons]
  exact Nat.lt_succ_of_le (length_piece_le b rest)

/-- The pieces of a byte string: a character each, `none` for an invalid piece. -/
def pieces (bytes : List UInt8) : List (Option Char) := piecesFrom [] bytes

def replacement : Char := Char.ofNat 0xFFFD

/-- Reads bytes as UTF-8, with one replacement character for every invalid piece. -/
def decode (bytes : List UInt8) : List Char := (pieces bytes).map (·.getD replacement)

/-- Reads bytes as UTF-8 and refuses them when some piece is invalid. -/
def decode? (bytes : List UInt8) : Option (List Char) := (pieces bytes).mapM id

/-- The bytes that mark UTF-8 at the start of a file. -/
def byteOrderMark : List UInt8 := [0xEF, 0xBB, 0xBF]

/-- The bytes without a leading byte-order mark; a second one is text. -/
def dropMark (bytes : List UInt8) : List UInt8 :=
  if byteOrderMark.isPrefixOf bytes then bytes.drop 3 else bytes

/-- The text of a source file: UTF-8 with replacement, less one leading byte-order mark. -/
def decodeSource (bytes : ByteArray) : String := String.ofList (decode (dropMark bytes.toList))

/-- The bytes from one offset up to another, both cut to the length; none when the range is empty or backwards. -/
def slice (bytes : ByteArray) (start stop : Nat) : ByteArray :=
  if start < stop then bytes.extract (min start bytes.size) (min stop bytes.size) else ByteArray.empty

/-- The pieces already read come first, in the order they were read. -/
theorem piecesFrom_eq (done : List (Option Char)) (bytes : List UInt8) :
    piecesFrom done bytes = done.reverse ++ piecesFrom [] bytes := by
  match bytes with
  | [] => simp [piecesFrom]
  | b :: rest =>
    rw [piecesFrom, piecesFrom_eq ((piece b rest).1 :: done) (piece b rest).2]
    conv => rhs; rw [piecesFrom, piecesFrom_eq [(piece b rest).1] (piece b rest).2]
    simp
termination_by bytes.length
decreasing_by all_goals exact Nat.lt_succ_of_le (length_piece_le b rest)

@[simp] theorem pieces_nil : pieces [] = [] := by simp [pieces, piecesFrom]

/-- The pieces of some bytes are the piece the first one starts and the pieces of what is left after it. -/
theorem pieces_cons (b : UInt8) (rest : List UInt8) :
    pieces (b :: rest) = (piece b rest).1 :: pieces (piece b rest).2 := by
  rw [pieces, piecesFrom, piecesFrom_eq]
  rfl

end Utf8
end Cognitive
