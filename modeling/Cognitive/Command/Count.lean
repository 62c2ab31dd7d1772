import Cognitive.Number.Numeral
import Cognitive.Text.Split
/-!
# Whole numbers on a command line

An option may be given a whole number in ASCII digits.  Blanks around it are passed over, and so are a plus sign, zeros
in front, single underscores between the digits, and a fraction that has zeros only.  What is left must be the number in
its plain form: a minus sign where there is one, and digits of which the first is not zero, or zero alone.
-/
namespace Cognitive
namespace Command

open Number Text

/-- The blanks that may stand around a number; the information separators may not. -/
def isMargin (c : Char) : Bool := isBlank c && !(decide (0x1C ≤ c.toNat) && decide (c.toNat ≤ 0x1F))

/-- The text without one plus sign in front; none when a minus sign follows it. -/
def dropPlus : List Char → Option (List Char)
  | '+' :: '-' :: _ => none
  | '+' :: rest => some rest
  | text => some text

/-- The text after zeros and underscores that `last` ends: from the first other digit on, or from `last` on where no
other digit comes before a point or the end. -/
def afterZeros (last : Char) : List Char → Option (List Char)
  | [] => some [last]
  | c :: rest =>
    if c = '0' ∨ c = '_' then afterZeros c rest
    else if isAsciiDigit c then some (c :: rest)
    else if c = '.' then some (last :: c :: rest)
    else none

/-- The text without zeros in front, where it starts with a digit; a text that starts with a minus sign stays. -/
def dropZeros : List Char → Option (List Char)
  | [] => none
  | c :: rest =>
    if c = '0' then afterZeros '0' rest
    else if isAsciiDigit c ∨ c = '-' then some (c :: rest)
    else none

def dropFraction (text : List Char) : List Char :=
  match text.dropWhile (· != '.') with
  | _ :: zeros => if !zeros.isEmpty && zeros.all (· == '0') then text.takeWhile (· != '.') else text
  | [] => text

/-- The text has an underscore at an end, or two in a row. -/
def hasLooseUnderscore (text : List Char) : Bool :=
  (split '_' text).any List.isEmpty

/-- The text without its underscores, unless some are loose. -/
def joinDigits (text : List Char) : List Char :=
  if hasLooseUnderscore text then text else text.filter (· != '_')

def plainNumber? (text : List Char) : Option Int :=
  if maxDigits < text.length then none
  else
    let (negative, digits) := match text with
      | '-' :: rest => (true, rest)
      | rest => (false, rest)
    if digits.isEmpty || !digits.all isAsciiDigit || (digits.head? == some '0' && digits.length != 1) then none
    else some (if negative then -(ofDigits digits : Int) else ofDigits digits)

def count? (text : String) : Option Int := do
  let unsigned ← dropPlus (trim isMargin text.toList)
  let short ← dropZeros unsigned
  plainNumber? (joinDigits (dropFraction short))

end Command
end Cognitive
