import Cognitive.Text.Split
import Cognitive.Text.Blank
/-!
# Line counts

Lines are the pieces of a text between line feeds, so the empty text is one line and a final line feed adds an empty
last line.  A line counts as non-blank when it holds some character that is not blank.
-/
namespace Cognitive
namespace Text

/-- How many lines a text has, and how many of them hold something other than blanks. -/
structure LineCount where
  total : Nat
  nonBlank : Nat
deriving DecidableEq, Repr

def hasContent (line : List Char) : Bool := line.any fun c => !isBlank c

def LineCount.ofChars (text : List Char) : LineCount :=
  let lines := split '\n' text
  ⟨lines.length, lines.countP hasContent⟩

def LineCount.of (text : String) : LineCount := LineCount.ofChars text.toList

theorem LineCount.total_ofChars (text : List Char) : (LineCount.ofChars text).total = text.count '\n' + 1 :=
  length_split '\n' text

/-- No more lines are non-blank than there are lines. -/
theorem LineCount.nonBlank_le_total (text : List Char) :
    (LineCount.ofChars text).nonBlank ≤ (LineCount.ofChars text).total :=
  List.countP_le_length

end Text
end Cognitive
