import Cognitive.Text.Lines
import Cognitive.Proofs.Text.Utf8
/-!
# What decoding keeps

Reading bytes with replacement keeps their line feeds, whatever else they hold (`Utf8.count_decode`).  A line feed is
no continuation byte, so a sequence that breaks off before one leaves it alone (`Utf8.count_continuation`); and each
lead byte has a range for its first continuation byte that shuts out overlong forms, so no longer sequence is a line
feed (`Utf8.lead_bounds`).  A source file therefore has as many lines as its bytes, and a text comes back from its UTF-8
but for one leading mark (`Utf8.decodeSource_keeps`).
-/
namespace Cognitive
namespace Utf8

/-! ## Line feeds among any bytes -/

/-- What is left after a sequence has every line feed. -/
theorem count_continuation {count low high code : Nat} (hlow : 0x80 ≤ low) (bytes : List UInt8) :
    (continuation count low high code bytes).2.count 0x0A = bytes.count 0x0A := by
  fun_induction continuation count low high code bytes with
  | case1 | case2 | case4 => rfl
  | case3 n low high code b rest hb ih =>
    have hne : b ≠ 0x0A := by
      rintro rfl
      have hvalue : (0x0A : UInt8).toNat = 10 := rfl
      omega
    rw [ih (Nat.le_refl 0x80), List.count_cons_of_ne hne]

theorem code_le_of_continuation {count low high code v : Nat} {bytes : List UInt8}
    (h : (continuation count low high code bytes).1 = some v) : code ≤ v := by
  fun_induction continuation count low high code bytes with
  | case1 => exact Nat.le_of_eq (Option.some.inj h)
  | case2 | case4 => cases h
  | case3 n low high code b rest hb ih =>
    have hnext := ih h
    omega

/-- The code point of a sequence is no less than its lead and the least first byte after it make. -/
theorem low_le_of_continuation {n low high code v : Nat} {bytes : List UInt8}
    (h : (continuation (n + 1) low high code bytes).1 = some v) : code * 64 + (low - 0x80) ≤ v := by
  cases bytes with
  | nil => cases h
  | cons b rest =>
    rw [continuation] at h
    split at h
    · have hnext := code_le_of_continuation h
      omega
    · cases h

/-- **No sequence of more than one byte is short of U+0010**, so none is a line feed. -/
theorem lead_bounds {b : Nat} {lead : Lead} (h : Lead.of? b = some lead) :
    0x80 ≤ lead.low ∧ ∃ n, lead.count = n + 1 ∧ 16 ≤ lead.bits * 64 + (lead.low - 0x80) := by
  unfold Lead.of? at h
  split_ifs at h <;> cases h <;> exact ⟨by simp only; omega, _, rfl, by simp only; omega⟩

/-- A code point is the line feed's only if it is 10: what is no code point stands for zero. -/
theorem charOfNat_eq_lineFeed_iff {v : Nat} : Char.ofNat v = '\n' ↔ v = 10 := by
  constructor
  · intro h
    by_cases hvalid : v.isValidChar
    · rw [Char.ofNat, dif_pos hvalid] at h
      exact congrArg Char.toNat h
    · rw [Char.ofNat, dif_neg hvalid] at h
      exact absurd h (by decide)
  · rintro rfl
    rfl

theorem charOfNat_toNat_eq_lineFeed_iff {b : UInt8} : Char.ofNat b.toNat = '\n' ↔ b = 0x0A := by
  rw [charOfNat_eq_lineFeed_iff, ← UInt8.toNat_inj]
  rfl

/-- **A piece takes no line feed but its own**: it is one exactly when it is read from one. -/
theorem count_piece (b : UInt8) (rest : List UInt8) :
    [(piece b rest).1.getD replacement].count '\n' + (piece b rest).2.count 0x0A = (b :: rest).count 0x0A := by
  have hreplacement : replacement ≠ '\n' := by decide
  rw [List.count_singleton, List.count_cons]
  by_cases hb : b.toNat < 0x80
  · rw [piece, if_pos hb, Option.getD_some, Nat.add_comm]
    simp only [beq_iff_eq, charOfNat_toNat_eq_lineFeed_iff]
  · have hne : (b == 0x0A) = false := by
      rw [beq_eq_false_iff_ne]
      rintro rfl
      exact hb (by decide)
    rw [piece, if_neg hb, hne]
    cases hlead : Lead.of? b.toNat with
    | none => simp [hreplacement]
    | some lead =>
      obtain ⟨hlow, n, hcount, hleast⟩ := lead_bounds hlead
      have hchar : ((continuation lead.count lead.low lead.high lead.bits rest).1.map Char.ofNat).getD replacement ≠
          '\n' := by
        rw [hcount]
        cases hcode : (continuation (n + 1) lead.low lead.high lead.bits rest).1 with
        | none => exact hreplacement
        | some v =>
          have hv := low_le_of_continuation hcode
          rw [Option.map_some, Option.getD_some, Ne, charOfNat_eq_lineFeed_iff]
          omega
      simp [hchar, count_continuation hlow]

/-- **There are as many line feeds in what is read as among the bytes**, well-formed or not. -/
theorem count_decode (bytes : List UInt8) : (decode bytes).count '\n' = bytes.count 0x0A := by
  match bytes with
  | [] => simp [decode]
  | b :: rest =>
    have hrest : (decode (piece b rest).2).count '\n' = (piece b rest).2.count 0x0A := count_decode _
    have hcons : decode (b :: rest) = [(piece b rest).1.getD replacement] ++ decode (piece b rest).2 := by
      rw [decode, pieces_cons, List.map_cons]
      rfl
    rw [hcons, List.count_append, hrest, count_piece]
termination_by bytes.length
decreasing_by exact Nat.lt_succ_of_le (length_piece_le b rest)

/-! ## The mark -/

/-- The character that marks UTF-8 at the start of a file. -/
def mark : Char := Char.ofNat 0xFEFF

theorem encodeChar_mark : String.utf8EncodeChar mark = byteOrderMark := by decide

theorem count_dropMark (bytes : List UInt8) : (dropMark bytes).count 0x0A = bytes.count 0x0A := by
  unfold dropMark
  split
  · next h =>
    obtain ⟨rest, rfl⟩ := List.isPrefixOf_iff_prefix.1 h
    rfl
  · rfl

/-- A text starts with the mark exactly when its UTF-8 starts with the mark's. -/
theorem byteOrderMark_prefix_encode_iff (text : List Char) :
    byteOrderMark.isPrefixOf (encode text) = true ↔ text.head? = some mark := by
  rw [List.isPrefixOf_iff_prefix]
  cases text with
  | nil => exact iff_of_false (by decide) nofun
  | cons c text =>
    rw [encode_cons, List.head?_cons, Option.some.injEq]
    constructor
    · rintro ⟨rest, h⟩
      -- both beginnings are read back, and as the same character
      obtain ⟨b, tail, hc, hpiece⟩ := piece_encodeChar c (encode text)
      obtain ⟨b', tail', hmark, hpiece'⟩ := piece_encodeChar mark rest
      rw [← encodeChar_mark, hmark, hc, List.cons_append, List.cons_append] at h
      obtain ⟨rfl, htail⟩ := List.cons.inj h
      rw [htail, hpiece] at hpiece'
      exact Option.some.inj (Prod.mk.inj hpiece').1
    · rintro rfl
      rw [encodeChar_mark]
      exact List.prefix_append _ _

theorem decode_dropMark_encode (text : List Char) :
    decode (dropMark (encode text)) = if text.head? = some mark then text.tail else text := by
  unfold dropMark
  simp only [byteOrderMark_prefix_encode_iff]
  split
  · next h =>
    cases text with
    | nil => cases h
    | cons c text =>
      cases h
      rw [encode_cons, encodeChar_mark, List.tail_cons]
      exact decode_encode text
  · exact decode_encode text

/-- **A source file has one line more than its bytes have line feeds, and a text is read back from its UTF-8** less one
leading mark.  Nothing is asked of the bytes in the first, so what is malformed in them takes no line away and adds
none. -/
theorem decodeSource_keeps (bytes : ByteArray) (text : String) :
    (Text.LineCount.of (decodeSource bytes)).total = bytes.toList.count 0x0A + 1 ∧
      decodeSource text.toUTF8 =
        if text.toList.head? = some mark then String.ofList text.toList.tail else text := by
  constructor
  · rw [Text.LineCount.of, Text.LineCount.total_ofChars, decodeSource, String.toList_ofList, count_decode,
      count_dropMark]
  · rw [decodeSource, toList_toUTF8, decode_dropMark_encode]
    split
    · rfl
    · rw [String.ofList_toList]

/-- A sequence that breaks off before a line feed, and an overlong line feed. -/
example : decode [0xE2, 0x82, 0x0A, 0xC0, 0x8A] = [replacement, '\n', replacement, replacement] := by cbv

end Utf8
end Cognitive
