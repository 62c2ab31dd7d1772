import Mathlib.Data.List.Basic
import Cognitive.Text.Utf8
/-!
# Text to bytes and back

`Utf8.encode` writes characters as UTF-8, and reading gives them back (`Utf8.decode_encode`), one sequence for each
character (`Utf8.piece_encodeChar`).  A line feed is a byte of its own in UTF-8 and no byte of any other character
(`Utf8.count_encode`), so bytes and characters have the same lines.
-/
namespace Cognitive
namespace Utf8

/-! ## Byte arrays as lists -/

theorem toList_loop (bytes : ByteArray) (i : Nat) (done : List UInt8) :
    ByteArray.toList.loop bytes i done = done.reverse ++ bytes.data.toList.drop i := by
  fun_induction ByteArray.toList.loop bytes i done with
  | case1 i done h ih =>
    have hnext : bytes.data.toList.drop i = bytes.get! i :: bytes.data.toList.drop (i + 1) := by
      rw [List.drop_eq_getElem_cons (by simpa using h)]
      simp [ByteArray.get!, h]
    rw [ih, hnext, List.reverse_cons, List.append_assoc, List.singleton_append]
  | case2 i done h =>
    have hend : bytes.data.toList.drop i = [] := List.drop_eq_nil_of_le (by simpa using h)
    rw [hend, List.append_nil]

theorem toList_eq (bytes : ByteArray) : bytes.toList = bytes.data.toList := by
  simp [ByteArray.toList, toList_loop]

theorem toList_slice (bytes : ByteArray) (start stop : Nat) :
    (slice bytes start stop).toList = (bytes.toList.take stop).drop start := by
  have hsize : bytes.size = bytes.data.toList.length := by simp
  unfold slice
  by_cases h : start < stop
  · rw [if_pos h, toList_eq, toList_eq, ByteArray.data_extract, Array.toList_extract, List.extract_eq_drop_take', hsize,
      ← List.take_eq_take_min]
    by_cases hstart : start ≤ bytes.data.toList.length
    · rw [Nat.min_eq_left hstart]
    · rw [List.drop_eq_nil_of_le, List.drop_eq_nil_of_le] <;> rw [List.length_take] <;> omega
  · rw [if_neg h, toList_eq, List.drop_eq_nil_of_le]
    · rfl
    · rw [List.length_take]
      omega

/-! ## Writing -/

/-- Characters as UTF-8. -/
def encode (text : List Char) : List UInt8 := text.flatMap String.utf8EncodeChar

theorem toList_toUTF8 (text : String) : text.toUTF8.toList = encode text.toList := by
  have h : text.toUTF8 = text.toList.utf8Encode := String.utf8Encode_toList.symm
  rw [h, toList_eq, List.utf8Encode, List.toList_data_toByteArray]
  rfl

@[simp] theorem encode_nil : encode [] = [] := rfl

theorem encode_cons (c : Char) (text : List Char) : encode (c :: text) = String.utf8EncodeChar c ++ encode text := rfl

theorem encode_append (a b : List Char) : encode (a ++ b) = encode a ++ encode b := List.flatMap_append

theorem length_le_length_encode (text : List Char) : text.length ≤ (encode text).length := by
  induction text with
  | nil => exact Nat.le_refl 0
  | cons c text ih =>
    have hc := c.utf8Size_pos
    rw [encode_cons, List.length_append, String.length_utf8EncodeChar, List.length_cons]
    omega

theorem take_encode {before text : List Char} (h : before <+: text) :
    (encode text).take (encode before).length = encode before := by
  obtain ⟨after, rfl⟩ := h
  rw [encode_append, List.take_left]

/-- The beginnings of a text stand in the order of their sizes in bytes. -/
theorem prefix_of_length_encode_le {a b text : List Char} (ha : a <+: text) (hb : b <+: text)
    (h : (encode a).length ≤ (encode b).length) : a <+: b := by
  rcases List.prefix_or_prefix_of_prefix ha hb with hab | ⟨rest, rfl⟩
  · exact hab
  · have hrest := length_le_length_encode rest
    rw [encode_append, List.length_append] at h
    have hnil : rest = [] := List.eq_nil_of_length_eq_zero (by omega)
    simp [hnil]

theorem toNat_ofNat {b : Nat} (h : b < 256) : (UInt8.ofNat b).toNat = b := by
  rw [UInt8.toNat_ofNat']
  exact Nat.mod_eq_of_lt h

theorem continuation_cons {n low high code b : Nat} (hlow : low ≤ b) (hhigh : b ≤ high) (hb : b < 256)
    (rest : List UInt8) :
    continuation (n + 1) low high code (UInt8.ofNat b :: rest) =
      continuation n 0x80 0xBF (code * 64 + (b - 0x80)) rest := by
  rw [continuation, toNat_ofNat hb, if_pos ⟨hlow, hhigh⟩]

theorem piece_of_lead {b count low high bits : Nat} (hb : b < 256)
    (hlead : Lead.of? b = some ⟨count, low, high, bits⟩) (rest : List UInt8) :
    piece (UInt8.ofNat b) rest =
      ((continuation count low high bits rest).1.map Char.ofNat, (continuation count low high bits rest).2) := by
  have hhigh : ¬ b < 0x80 := by
    intro h
    unfold Lead.of? at hlead
    split_ifs at hlead <;> omega
  rw [piece, toNat_ofNat hb, if_neg hhigh, hlead]

/-- The lead of two bytes for some upper bits, and of three and four for upper bits and the first byte after them. -/
theorem lead_of_two {a : Nat} (h : 2 ≤ a) (h' : a < 32) : Lead.of? (a + 192) = some ⟨1, 0x80, 0xBF, a⟩ := by
  have hbits : a + 192 - 0xC0 = a := by omega
  rw [Lead.of?, if_pos (by omega), hbits]

theorem lead_of_three {a b : Nat} (ha : a < 16) (hfirst : a = 0 → 0xA0 ≤ b) (hsurrogate : a = 0xD → b ≤ 0x9F)
    (hlow : 0x80 ≤ b) (hhigh : b ≤ 0xBF) :
    ∃ low high, Lead.of? (a + 224) = some ⟨2, low, high, a⟩ ∧ low ≤ b ∧ b ≤ high := by
  have hbits : a + 224 - 0xE0 = a := by omega
  unfold Lead.of?
  rw [if_neg (by omega)]
  by_cases h0 : a = 0
  · subst h0
    exact ⟨_, _, rfl, hfirst rfl, hhigh⟩
  · rw [if_neg (by omega)]
    by_cases hD : a = 0xD
    · subst hD
      exact ⟨_, _, rfl, hlow, hsurrogate rfl⟩
    · rw [if_neg (by omega), if_pos (by omega), hbits]
      exact ⟨_, _, rfl, hlow, hhigh⟩

theorem lead_of_four {a b : Nat} (ha : a ≤ 4) (hfirst : a = 0 → 0x90 ≤ b) (hlast : a = 4 → b ≤ 0x8F)
    (hlow : 0x80 ≤ b) (hhigh : b ≤ 0xBF) :
    ∃ low high, Lead.of? (a + 240) = some ⟨3, low, high, a⟩ ∧ low ≤ b ∧ b ≤ high := by
  have hbits : a + 240 - 0xF0 = a := by omega
  unfold Lead.of?
  rw [if_neg (by omega), if_neg (by omega), if_neg (by omega), if_neg (by omega)]
  by_cases h0 : a = 0
  · subst h0
    exact ⟨_, _, rfl, hfirst rfl, hhigh⟩
  · rw [if_neg (by omega)]
    by_cases h4 : a = 4
    · subst h4
      exact ⟨_, _, rfl, hlow, hlast rfl⟩
    · rw [if_pos (by omega), hbits]
      exact ⟨_, _, rfl, hlow, hhigh⟩

/-- **A sequence is read back as the character that it was written for**, whatever follows it. -/
theorem piece_encodeChar (c : Char) (rest : List UInt8) :
    ∃ b tail, String.utf8EncodeChar c = b :: tail ∧ piece b (tail ++ rest) = (some c, rest) := by
  have hc : Char.ofNat c.val.toNat = c := Char.ofNat_toNat c
  have hvalid : c.val.toNat < 0xD800 ∨ 0xDFFF < c.val.toNat ∧ c.val.toNat < 0x110000 := c.valid
  unfold String.utf8EncodeChar
  generalize c.val.toNat = v at hc hvalid
  simp only
  split_ifs with h₁ h₂ h₃
  · refine ⟨_, _, rfl, ?_⟩
    rw [piece, toNat_ofNat (by omega), if_pos (by omega), hc]
    rfl
  · refine ⟨_, _, rfl, ?_⟩
    have hlead := lead_of_two (a := v / 64 % 32) (by omega) (by omega)
    have hcode : v / 64 % 32 * 64 + (v % 64 + 128 - 128) = v := by omega
    rw [piece_of_lead (by omega) hlead, List.cons_append, continuation_cons (by omega) (by omega) (by omega), hcode,
      continuation, Option.map_some, hc]
    rfl
  · refine ⟨_, _, rfl, ?_⟩
    obtain ⟨low, high, hlead, hlow, hhigh⟩ := lead_of_three (a := v / 4096 % 16) (b := v / 64 % 64 + 128)
      (by omega) (by omega) (by omega) (by omega) (by omega)
    have hcode : (v / 4096 % 16 * 64 + (v / 64 % 64 + 128 - 128)) * 64 + (v % 64 + 128 - 128) = v := by omega
    rw [piece_of_lead (by omega) hlead, List.cons_append, continuation_cons hlow hhigh (by omega), List.cons_append,
      continuation_cons (by omega) (by omega) (by omega), hcode, continuation, Option.map_some, hc]
    rfl
  · refine ⟨_, _, rfl, ?_⟩
    obtain ⟨low, high, hlead, hlow, hhigh⟩ := lead_of_four (a := v / 262144 % 8) (b := v / 4096 % 64 + 128)
      (by omega) (by omega) (by omega) (by omega) (by omega)
    have hcode : ((v / 262144 % 8 * 64 + (v / 4096 % 64 + 128 - 128)) * 64 + (v / 64 % 64 + 128 - 128)) * 64 +
        (v % 64 + 128 - 128) = v := by omega
    rw [piece_of_lead (by omega) hlead, List.cons_append, continuation_cons hlow hhigh (by omega), List.cons_append,
      continuation_cons (by omega) (by omega) (by omega), List.cons_append,
      continuation_cons (by omega) (by omega) (by omega), hcode, continuation, Option.map_some, hc]
    rfl

theorem pieces_encode (text : List Char) : pieces (encode text) = text.map some := by
  induction text with
  | nil => simp
  | cons c text ih =>
    obtain ⟨b, tail, hc, hpiece⟩ := piece_encodeChar c (encode text)
    rw [encode_cons, hc, List.cons_append, pieces_cons, hpiece, ih, List.map_cons]

/-- **Reading gives back what was written.** -/
theorem decode_encode (text : List Char) : decode (encode text) = text := by
  simp [decode, pieces_encode, Function.comp_def]

/-! ## Line feeds -/

theorem ofNat_eq_lineFeed_iff {b : Nat} (hb : b < 256) : UInt8.ofNat b = 0x0A ↔ b = 0x0A := by
  rw [← UInt8.toNat_inj, toNat_ofNat hb]
  rfl

theorem count_encodeChar (c : Char) : (String.utf8EncodeChar c).count 0x0A = if c = '\n' then 1 else 0 := by
  have hc : c = '\n' ↔ c.val.toNat = 0x0A := by
    rw [← Char.toNat_inj]
    rfl
  simp only [hc]
  have hvalid : c.val.toNat < 0xD800 ∨ 0xDFFF < c.val.toNat ∧ c.val.toNat < 0x110000 := c.valid
  unfold String.utf8EncodeChar
  generalize c.val.toNat = v at hvalid
  simp only
  -- past ASCII every byte of a sequence is at least 0x80
  split_ifs with h₁ h₂ h₃ <;> simp only [List.count_cons, List.count_nil, beq_iff_eq] <;>
    simp (disch := omega) only [ofNat_eq_lineFeed_iff] <;> split_ifs <;> omega

/-- **There are as many line feeds among the bytes as among the characters.** -/
theorem count_encode (text : List Char) : (encode text).count 0x0A = text.count '\n' := by
  induction text with
  | nil => rfl
  | cons c text ih =>
    rw [encode_cons, List.count_append, count_encodeChar, ih, List.count_cons]
    simp only [beq_iff_eq]
    omega

end Utf8
end Cognitive
