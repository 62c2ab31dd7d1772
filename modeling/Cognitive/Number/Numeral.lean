import Cognitive.Text.Blank
import Cognitive.Text.Digit
import Cognitive.Text.Quoted
import Cognitive.Number.Binary64
/-!
# Numbers written by hand

Whole numbers and doubles as a person may write them in a setting: blanks around them, a sign, decimal digits of any
script, and single underscores between digits.  A whole number has at most 4300 digits.  A refusal quotes the text.
-/
namespace Cognitive
namespace Number

open Text

/-- Why a text is no number. -/
inductive NumeralFault where
  /-- The text is not a whole number. -/
  | notWhole (text : String)
  /-- The text is not a number. -/
  | notNumber (text : String)
  /-- The whole number has more digits than are read. -/
  | tooLong (digits : Nat)
  /-- The whole number has more digits than are written. -/
  | tooLongToWrite
deriving DecidableEq, Repr

/-- The most digits of a whole number that are read or written. -/
def maxDigits : Nat := 4300

def NumeralFault.message : NumeralFault → String
  | .notWhole text =>
    "invalid literal for int() with base 10: " ++ String.ofList ((quotedChars text.toList).take 200)
  | .notNumber text => "could not convert string to float: " ++ quoted text
  | .tooLong digits =>
    "Exceeds the limit (4300 digits) for integer string conversion: value has " ++ toString digits ++
      " digits; use sys.set_int_max_str_digits() to increase the limit"
  | .tooLongToWrite =>
    "Exceeds the limit (4300 digits) for integer string conversion; use sys.set_int_max_str_digits() to increase " ++
      "the limit"

/-- A character with every digit turned into ASCII and every blank beyond ASCII into a space. -/
def plainChar (c : Char) : Char :=
  if c.toNat < 0x80 then c
  else if isBlank c then ' '
  else match digitValue? c with
    | some n => Char.ofNat (0x30 + n)
    | none => '?'

def isOuterBlank (c : Char) : Bool := decide (9 ≤ c.toNat) && decide (c.toNat ≤ 13) || c == ' '

/-- The text of a number without the blanks around it. -/
def plainText (text : String) : List Char := trim isOuterBlank (text.toList.map plainChar)

/-- A sign, if there is one, and the rest; the sign is true for minus. -/
def takeSign : List Char → Bool × List Char
  | '-' :: rest => (true, rest)
  | '+' :: rest => (false, rest)
  | rest => (false, rest)

/-- The text without underscores; none when some underscore does not stand between two digits. -/
def dropUnderscores (before : Bool) : List Char → Option (List Char)
  | [] => some []
  | '_' :: d :: rest => if before && isAsciiDigit d then (dropUnderscores true rest).map (d :: ·) else none
  | c :: rest => if c = '_' then none else (dropUnderscores (isAsciiDigit c) rest).map (c :: ·)

def ofDigits (digits : List Char) : Nat := digits.foldl (fun n c => n * 10 + (c.toNat - 0x30)) 0

/-- The character is an ASCII digit or an underscore. -/
def isDigitOrUnderscore (c : Char) : Bool := isAsciiDigit c || c == '_'

/-- Reads a whole number.  The run of digits in front is judged before what follows it. -/
def wholeNumber (text : String) : Except NumeralFault Int :=
  let (negative, body) := takeSign (plainText text)
  match dropUnderscores false (body.takeWhile isDigitOrUnderscore) with
  | none | some [] => .error (.notWhole text)
  | some digits =>
    if maxDigits < digits.length then .error (.tooLong digits.length)
    else if !(body.dropWhile isDigitOrUnderscore).isEmpty then .error (.notWhole text)
    else .ok (if negative then -(ofDigits digits : Int) else ofDigits digits)

/-- An exponent part: a letter e, a sign and digits. -/
def exponentPart : List Char → Option Int
  | [] => some 0
  | c :: rest =>
    if c = 'e' ∨ c = 'E' then
      let (negative, digits) := takeSign rest
      if digits.isEmpty || !digits.all isAsciiDigit then none
      else some (if negative then -(ofDigits digits : Int) else ofDigits digits)
    else none

/-- The double that digits, a point and digits, and an exponent write. -/
def decimalNumber (negative : Bool) (text : List Char) : Option Binary64 :=
  let whole := text.takeWhile isAsciiDigit
  let afterWhole := text.dropWhile isAsciiDigit
  let (fraction, rest) := match afterWhole with
    | '.' :: r => (r.takeWhile isAsciiDigit, r.dropWhile isAsciiDigit)
    | r => ([], r)
  if whole.isEmpty && fraction.isEmpty then none
  else (exponentPart rest).map fun e =>
    Binary64.ofDecimal negative (ofDigits (whole ++ fraction)) (e - (fraction.length : Nat))

/-- Names of values that have no digits, in lower case. -/
def namedNumber (negative : Bool) (text : List Char) : Option Binary64 :=
  let word := String.ofList (text.map Char.toLower)
  if word = "inf" ∨ word = "infinity" then some (.infinite negative)
  else if word = "nan" then some .nan
  else none

def realNumber (text : String) : Except NumeralFault Binary64 :=
  let number := (dropUnderscores false (plainText text)).bind fun plain =>
    let (negative, body) := takeSign plain
    (namedNumber negative body).or (decimalNumber negative body)
  match number with
  | some x => .ok x
  | none => .error (.notNumber text)

end Number
end Cognitive
