import Cognitive.Text.Split
/-!
# Dates and times

A moment is a day of the calendar, a time of day, or both, then perhaps with an offset from universal time.  It has a
name for its kind and two texts: the one it has on its own, and the one inside a list or table, which names the parts
and leaves out a zero fraction, and with it zero seconds.
-/
namespace Cognitive

/-- A day of the calendar. -/
structure Day where
  year : Nat
  month : Nat
  day : Nat
deriving DecidableEq, Repr

namespace Day

def isLeapYear (year : Nat) : Bool := year % 4 == 0 && (year % 100 != 0 || year % 400 == 0)

def daysOfMonth (year month : Nat) : Nat :=
  if month = 2 then if isLeapYear year then 29 else 28
  else if month = 4 ∨ month = 6 ∨ month = 9 ∨ month = 11 then 30
  else 31

/-- The calendar has the day; it starts with the year one. -/
def isReal (d : Day) : Bool :=
  decide (1 ≤ d.year) && decide (1 ≤ d.month) && decide (d.month ≤ 12) && decide (1 ≤ d.day) &&
    decide (d.day ≤ daysOfMonth d.year d.month)

end Day

/-- A time of day. -/
structure Clock where
  hour : Nat
  minute : Nat
  second : Nat
  /-- The millionths of a second. -/
  micro : Nat
deriving DecidableEq, Repr

def Clock.isReal (c : Clock) : Bool := decide (c.hour < 24) && decide (c.minute < 60) && decide (c.second < 60)

/-- A day, a time of day, or both. -/
inductive Moment where
  | day (d : Day)
  | clock (c : Clock)
  /-- A day and a time, with the minutes by which they are ahead of universal time where that is known. -/
  | instant (d : Day) (c : Clock) (offset : Option Int)
deriving DecidableEq, Repr

/-- A number with zeros in front up to some width. -/
def padded (width n : Nat) : String :=
  let digits := Nat.toDigits 10 n
  String.ofList (List.replicate (width - digits.length) '0' ++ digits)

def Day.text (d : Day) : String := padded 4 d.year ++ "-" ++ padded 2 d.month ++ "-" ++ padded 2 d.day

def Day.parts (d : Day) : List Nat := [d.year, d.month, d.day]

def Clock.text (c : Clock) : String :=
  padded 2 c.hour ++ ":" ++ padded 2 c.minute ++ ":" ++ padded 2 c.second ++
    if c.micro = 0 then "" else "." ++ padded 6 c.micro

def Clock.parts (c : Clock) : List Nat :=
  if c.micro ≠ 0 then [c.hour, c.minute, c.second, c.micro]
  else if c.second ≠ 0 then [c.hour, c.minute, c.second]
  else [c.hour, c.minute]

namespace Moment

def offsetText (minutes : Int) : String :=
  (if minutes < 0 then "-" else "+") ++ padded 2 (minutes.natAbs / 60) ++ ":" ++ padded 2 (minutes.natAbs % 60)

def secondsOfDay : Int := 86400

/-- The offset as it is written inside a list: a span of time, in which a day is taken back for an offset below zero. -/
def offsetInner (minutes : Int) : String :=
  if minutes = 0 then "datetime.timezone.utc"
  else
    let span := if minutes < 0 then "days=-1, seconds=" ++ toString (secondsOfDay + minutes * 60)
      else "seconds=" ++ toString (minutes * 60)
    "datetime.timezone(datetime.timedelta(" ++ span ++ "))"

def kindName : Moment → String
  | day _ => "datetime.date"
  | clock _ => "datetime.time"
  | instant .. => "datetime.datetime"

/-- The text of a moment on its own. -/
def text : Moment → String
  | day d => d.text
  | clock c => c.text
  | instant d c offset => d.text ++ " " ++ c.text ++ (offset.map offsetText).getD ""

/-- What the text of a moment inside a list names. -/
def parts : Moment → List String
  | day d => d.parts.map toString
  | clock c => c.parts.map toString
  | instant d c offset =>
    (d.parts ++ c.parts).map toString ++ (offset.map fun o => "tzinfo=" ++ offsetInner o).toList

/-- The text of a moment inside a list or table. -/
def inner (m : Moment) : String := m.kindName ++ "(" ++ Text.join ", " m.parts ++ ")"

end Moment
end Cognitive
