import Cognitive.Json.Basic
import Cognitive.Number.Numeral
/-!
# Reading JSON

A reader of JSON text.  The text may hold lone halves of surrogate pairs inside its strings, and escapes may give such
halves; two escapes that are the halves of one pair give its character.  A number with a point or an exponent is a
double, any other a whole number; the names NaN, Infinity and -Infinity are accepted as doubles.  A key that comes again
in an object keeps its first place and takes the last value.  Control characters inside strings are refused, and so is
anything after the value.  A whole number with too many digits ends the reading where it stands, whatever comes after
it.
-/
namespace Cognitive
namespace Json

open Number Text

/-- Why a text gives no value. -/
inductive Fault where
  | malformed
  /-- A whole number has more digits than are read. -/
  | tooLong (digits : Nat)
deriving DecidableEq, Repr

def orMalformed {α : Type} : Option α → Except Fault α
  | some x => .ok x
  | none => .error .malformed

def isSpace (c : Char) : Bool := c == ' ' || c == '\t' || c == '\n' || c == '\r'

def skipSpace (text : List CodePoint) : List CodePoint := text.dropWhile fun p => p.char?.any isSpace

def afterWord (word : String) (text : List Char) : Option (List Char) :=
  if word.toList.isPrefixOf text then some (text.drop word.length) else none

def hexValue? (c : Char) : Option Nat :=
  if isAsciiDigit c then some (c.toNat - 0x30)
  else if 'a' ≤ c ∧ c ≤ 'f' then some (c.toNat - 0x57)
  else if 'A' ≤ c ∧ c ≤ 'F' then some (c.toNat - 0x37)
  else none

def hexFour (a b c d : Char) : Option Nat := do
  let a ← hexValue? a
  let b ← hexValue? b
  let c ← hexValue? c
  let d ← hexValue? d
  return ((a * 16 + b) * 16 + c) * 16 + d

def isHighSurrogate (n : Nat) : Bool := decide (0xD800 ≤ n) && decide (n ≤ 0xDBFF)

def isLowSurrogate (n : Nat) : Bool := decide (0xDC00 ≤ n) && decide (n ≤ 0xDFFF)

def pairedCode (high low : Nat) : Nat := 0x10000 + (high - 0xD800) * 0x400 + (low - 0xDC00)

/-- The character that a backslash and a letter stand for. -/
def shortEscape? (c : Char) : Option Char :=
  if c = '"' ∨ c = '\\' ∨ c = '/' then some c
  else if c = 'b' then some (Char.ofNat 8)
  else if c = 'f' then some (Char.ofNat 12)
  else if c = 'n' then some '\n'
  else if c = 'r' then some '\r'
  else if c = 't' then some '\t'
  else none

/-- The character that two code units stand for, if they are the halves of a pair. -/
def pairedChar? (high : Nat) (low : Option Nat) : Option Char :=
  match low with
  | some l => if isHighSurrogate high && isLowSurrogate l then some (Char.ofNat (pairedCode high l)) else none
  | none => none

/-- What a code unit that is escaped stands for, where the other half of a pair may follow as an escape of its own.  A
half without the other one stays what it is. -/
def unitPoint (n : Nat) : List CodePoint → CodePoint × List CodePoint
  | .char '\\' :: .char 'u' :: .char a :: .char b :: .char c :: .char d :: rest =>
    match pairedChar? n (hexFour a b c d) with
    | some paired => (.char paired, rest)
    | none => (.ofNat n, .char '\\' :: .char 'u' :: .char a :: .char b :: .char c :: .char d :: rest)
  | rest => (.ofNat n, rest)

def escape : List CodePoint → Option (CodePoint × List CodePoint)
  | .char 'u' :: .char a :: .char b :: .char c :: .char d :: rest =>
    (hexFour a b c d).map fun n => unitPoint n rest
  | .char e :: rest => (shortEscape? e).map fun c => (.char c, rest)
  | _ => none

theorem length_unitPoint_le (n : Nat) (text : List CodePoint) : (unitPoint n text).2.length ≤ text.length := by
  unfold unitPoint
  split
  · split <;> simp only [List.length_cons] <;> omega
  · exact Nat.le_refl _

theorem length_escape_lt {text rest : List CodePoint} {p : CodePoint} (h : escape text = some (p, rest)) :
    rest.length < text.length := by
  unfold escape at h
  split at h
  · next a b c d text =>
    obtain ⟨n, _, hn⟩ := Option.map_eq_some_iff.1 h
    have := length_unitPoint_le n text
    simp only [hn] at this
    simp only [List.length_cons]
    omega
  · obtain ⟨_, _, h⟩ := Option.map_eq_some_iff.1 h
    cases h
    simp
  · cases h

/-- The rest of a string whose code points so far are held in reverse. -/
def stringRest (done : List CodePoint) : List CodePoint → Option (Script × List CodePoint)
  | [] => none
  | .char c :: rest =>
    if c = '"' then some (⟨done.reverse⟩, rest)
    else if c = '\\' then
      match _escaped : escape rest with
      | some (p, rest') => stringRest (p :: done) rest'
      | none => none
    else if c.toNat < 0x20 then none
    else stringRest (.char c :: done) rest
  | .half h :: rest => stringRest (.half h :: done) rest
termination_by text => text.length
decreasing_by
  · have := length_escape_lt _escaped
    simp only [List.length_cons]
    omega
  · simp
  · simp

/-- A string whose opening quote has been read. -/
def string (text : List CodePoint) : Option (Script × List CodePoint) := stringRest [] text

def digitRun (text : List Char) : Option (List Char × List Char) :=
  let ds := text.takeWhile isAsciiDigit
  if ds.isEmpty then none else some (ds, text.dropWhile isAsciiDigit)

/-- A whole part: one zero, or digits that do not start with zero. -/
def wholePart : List Char → Option (List Char × List Char)
  | '0' :: rest => some (['0'], rest)
  | text => digitRun text

/-- A fraction; without one nothing is read. -/
def fractionPart : List Char → Option (List Char) × List Char
  | '.' :: rest => match digitRun rest with
    | some (ds, rest') => (some ds, rest')
    | none => (none, '.' :: rest)
  | text => (none, text)

/-- An exponent; without one nothing is read. -/
def exponent (text : List Char) : Option Int × List Char :=
  match text with
  | e :: rest =>
    if e = 'e' ∨ e = 'E' then
      let (negative, digits) := takeSign rest
      match digitRun digits with
      | some (ds, rest') => (some (if negative then -(ofDigits ds : Int) else ofDigits ds), rest')
      | none => (none, text)
    else (none, text)
  | [] => (none, [])

def number (negative : Bool) (text : List Char) : Except Fault (Json × List Char) := do
  let (whole, afterWhole) ← orMalformed (wholePart text)
  let (fraction, afterFraction) := fractionPart afterWhole
  let (power, rest) := exponent afterFraction
  match fraction, power with
  | none, none =>
    if maxDigits < whole.length then throw (.tooLong whole.length)
    return (.int (if negative then -(ofDigits whole : Int) else ofDigits whole), rest)
  | _, _ =>
    let digits := fraction.getD []
    return (.float (.ofDecimal negative (ofDigits (whole ++ digits)) (power.getD 0 - (digits.length : Nat))), rest)

def named (word : String) (v : Json) (text : List Char) : Except Fault (Json × List Char) :=
  orMalformed ((afterWord word text).map (v, ·))

/-- A name or a number. -/
def word (text : List Char) : Except Fault (Json × List Char) :=
  match text with
  | 'n' :: _ => named "null" .null text
  | 't' :: _ => named "true" (.bool true) text
  | 'f' :: _ => named "false" (.bool false) text
  | 'N' :: _ => named "NaN" (.float .nan) text
  | 'I' :: _ => named "Infinity" (.float (.infinite false)) text
  | '-' :: 'I' :: _ => named "-Infinity" (.float (.infinite true)) text
  | '-' :: rest => number true rest
  | _ => number false text

/-- A name or a number has no other character. -/
def isWordChar (c : Char) : Bool := c.isAlphanum || c == '-' || c == '+' || c == '.'

/-- A value that holds no other, at the front of a text. -/
def scalar (text : List CodePoint) : Except Fault (Json × List CodePoint) :=
  let lead := (text.takeWhile fun p => p.char?.any isWordChar).filterMap CodePoint.char?
  (word lead).map fun r => (r.1, r.2.map .char ++ text.drop lead.length)

mutual
def value : (fuel : Nat) → List CodePoint → Except Fault (Json × List CodePoint)
  | 0, _ => .error .malformed
  | fuel + 1, text =>
    match text with
    | .char '"' :: rest => orMalformed ((string rest).map fun r => (.str r.1, r.2))
    | .char '[' :: rest =>
      match skipSpace rest with
      | .char ']' :: rest' => .ok (.list [], rest')
      | rest' => items fuel [] rest'
    | .char '{' :: rest =>
      match skipSpace rest with
      | .char '}' :: rest' => .ok (.object [], rest')
      | rest' => entries fuel [] rest'
    | _ => scalar text

/-- The rest of a list whose items so far are held in reverse. -/
def items : (fuel : Nat) → (done : List Json) → List CodePoint → Except Fault (Json × List CodePoint)
  | 0, _, _ => .error .malformed
  | fuel + 1, done, text =>
    match value fuel text with
    | .error fault => .error fault
    | .ok (v, rest) =>
      match skipSpace rest with
      | .char ',' :: rest' => items fuel (v :: done) (skipSpace rest')
      | .char ']' :: rest' => .ok (.list (v :: done).reverse, rest')
      | _ => .error .malformed

/-- The rest of an object whose entries so far are given. -/
def entries : (fuel : Nat) → (done : Entries) → List CodePoint → Except Fault (Json × List CodePoint)
  | 0, _, _ => .error .malformed
  | fuel + 1, done, text =>
    match text with
    | .char '"' :: rest =>
      match string rest with
      | none => .error .malformed
      | some (key, rest) =>
        match skipSpace rest with
        | .char ':' :: rest =>
          match value fuel (skipSpace rest) with
          | .error fault => .error fault
          | .ok (v, rest) =>
            match skipSpace rest with
            | .char ',' :: rest' => entries fuel (Entries.put key v done) (skipSpace rest')
            | .char '}' :: rest' => .ok (.object (Entries.put key v done), rest')
            | _ => .error .malformed
        | _ => .error .malformed
    | _ => .error .malformed
end

def read (text : Script) : Except Fault Json := do
  let (v, rest) ← value (text.points.length + 1) (skipSpace text.points)
  if (skipSpace rest).isEmpty then return v else throw .malformed

end Json
end Cognitive
