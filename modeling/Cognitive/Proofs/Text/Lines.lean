import Cognitive.Text.Lines
import Cognitive.Proofs.Text.Split
/-!
# The lines of a part of a text

When two texts are put together, the last line of the one and the first line of the other become one line, and the
other lines stay as they are (`exists_split_append`).  So a part of a text has no more lines with something in them
than the text (`LineCount.nonBlank_le_of_infix`).
-/
namespace Cognitive
namespace Text
namespace LineCount

theorem nonBlank_le_append (a b : List Char) :
    (ofChars a).nonBlank ≤ (ofChars (a ++ b)).nonBlank ∧ (ofChars b).nonBlank ≤ (ofChars (a ++ b)).nonBlank := by
  obtain ⟨lines, last, first, rest, ha, hb, hab⟩ := exists_split_append '\n' a b
  -- the line where they meet holds something as soon as one of its two parts does
  have hmeets : hasContent (last ++ first) = (hasContent last || hasContent first) := List.any_append
  simp only [ofChars, ha, hb, hab, List.countP_append, List.countP_cons, List.countP_nil, hmeets]
  grind

/-- **A part of a text has no more non-blank lines than the text.** -/
theorem nonBlank_le_of_infix {part text : List Char} (h : part <:+: text) :
    (ofChars part).nonBlank ≤ (ofChars text).nonBlank := by
  obtain ⟨before, after, rfl⟩ := h
  have hbefore := (nonBlank_le_append before part).2
  have hafter := (nonBlank_le_append (before ++ part) after).1
  exact Nat.le_trans hbefore hafter

/-- A text has no more non-blank lines than line feeds and one. -/
theorem nonBlank_le_count (text : List Char) : (ofChars text).nonBlank ≤ text.count '\n' + 1 := by
  rw [← total_ofChars]
  exact nonBlank_le_total text

end LineCount
end Text
end Cognitive
