import Cognitive.Number.Numeral
import Cognitive.Value.Moment
/-!
# Dates and times of TOML

A day is written as year, month and day, a time as hour, minute and second with a fraction perhaps, of which six digits
count.  A letter T or a space joins the two, and an offset may follow them.  A reader gives what it read and the text
after it, or nothing where none is written or the calendar has no such day.
-/
namespace Cognitive
namespace Toml

open Number Text

/-- A number of so many digits, and the text after it. -/
def fixedNumber? (count : Nat) (text : List Char) : Option (Nat × List Char) :=
  let digits := text.take count
  if digits.length = count ∧ digits.all isAsciiDigit then some (ofDigits digits, text.drop count) else none

/-- The text after a character that it must start with. -/
def afterChar? (c : Char) : List Char → Option (List Char)
  | [] => none
  | d :: rest => if d = c then some rest else none

def day? (text : List Char) : Option (Day × List Char) := do
  let (year, text) ← fixedNumber? 4 text
  let (month, text) ← fixedNumber? 2 (← afterChar? '-' text)
  let (day, text) ← fixedNumber? 2 (← afterChar? '-' text)
  let d : Day := ⟨year, month, day⟩
  if d.isReal then some (d, text) else none

/-- The digits of a fraction as millionths: six of them count, and missing ones are zero. -/
def millionths (digits : List Char) : Nat :=
  let kept := digits.take 6
  ofDigits (kept ++ List.replicate (6 - kept.length) '0')

/-- The millionths that a point and digits write; none are written when no digit follows. -/
def fractionOfSecond (text : List Char) : Nat × List Char :=
  match text with
  | '.' :: rest =>
    let digits := rest.takeWhile isAsciiDigit
    if digits.isEmpty then (0, text) else (millionths digits, rest.dropWhile isAsciiDigit)
  | _ => (0, text)

def clock? (text : List Char) : Option (Clock × List Char) := do
  let (hour, text) ← fixedNumber? 2 text
  let (minute, text) ← fixedNumber? 2 (← afterChar? ':' text)
  let (second, text) ← fixedNumber? 2 (← afterChar? ':' text)
  let c : Clock := ⟨hour, minute, second, (fractionOfSecond text).1⟩
  if c.isReal then some (c, (fractionOfSecond text).2) else none

/-- The minutes ahead of universal time: a letter Z for none, or a sign, hours and minutes. -/
def offset? (text : List Char) : Option (Int × List Char) :=
  match text with
  | [] => none
  | sign :: rest =>
    if sign = 'Z' ∨ sign = 'z' then some (0, rest)
    else if sign = '+' ∨ sign = '-' then do
      let (hours, rest) ← fixedNumber? 2 rest
      let (minutes, rest) ← fixedNumber? 2 (← afterChar? ':' rest)
      let total : Int := hours * 60 + minutes
      if hours < 24 ∧ minutes < 60 then some (if sign = '-' then -total else total, rest) else none
    else none

/-- The time behind a day. -/
def clockOfDay? : List Char → Option (Clock × List Char)
  | [] => none
  | c :: rest => if c = 'T' ∨ c = 't' ∨ c = ' ' then clock? rest else none

def moment? (text : List Char) : Option (Moment × List Char) :=
  match day? text with
  | none => (clock? text).map fun r => (.clock r.1, r.2)
  | some (d, afterDay) =>
    match clockOfDay? afterDay with
    | none => some (.day d, afterDay)
    | some (c, afterClock) =>
      match offset? afterClock with
      | some (o, rest) => some (.instant d c (some o), rest)
      | none => some (.instant d c none, afterClock)

end Toml
end Cognitive
