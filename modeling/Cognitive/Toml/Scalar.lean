import Cognitive.Json.Reader
import Cognitive.Toml.Moment
/-!
# Scalars of TOML

Strings, numbers, truth values, dates and times at the start of a text, and the keys of entries.  A string stands
between quotes (escapes are read) or apostrophes (they are not), on one line or between three of either over several
lines.  Numbers have single underscores between digits, and whole numbers may be written in base two, eight or sixteen.
A reader gives what it read and the text after it.
-/
namespace Cognitive
namespace Toml

open Number Text

/-- Why a text is not read. -/
inductive Fault where
  /-- It is not TOML. -/
  | malformed
  /-- Its bytes are not UTF-8. -/
  | notUtf8
  /-- A whole number has more digits than are read. -/
  | tooLong (digits : Nat)
deriving DecidableEq, Repr

def isSpace (c : Char) : Bool := c == ' ' || c == '\t'

def isSpaceOrLine (c : Char) : Bool := isSpace c || c == '\n'

def skipSpace (text : List Char) : List Char := text.dropWhile isSpace

/-- Control characters that may not stand in a text; a tab may, and a line feed where there are several lines. -/
def isIllegal (lines : Bool) (c : Char) : Bool :=
  (decide (c.toNat < 32) || c.toNat == 127) && c != '\t' && !(lines && c == '\n')

/-! ## Strings -/

def hexCode : (count code : Nat) → List Char → Option (Nat × List Char)
  | 0, code, rest => some (code, rest)
  | n + 1, code, c :: rest => (Json.hexValue? c).bind fun d => hexCode n (code * 16 + d) rest
  | _ + 1, _, [] => none

/-- A character written by its code point in some number of digits. -/
def codePoint (count : Nat) (text : List Char) : Except Fault (List Char × List Char) :=
  match hexCode count 0 text with
  | some (n, rest) => if n.isValidChar then .ok ([Char.ofNat n], rest) else .error .malformed
  | none => .error .malformed

/-- The character that a backslash and a letter stand for. -/
def shortEscape? (c : Char) : Option Char :=
  if c = doubleQuote ∨ c = '\\' then some c
  else if c = 'b' then some (Char.ofNat 8)
  else if c = 't' then some '\t'
  else if c = 'n' then some '\n'
  else if c = 'f' then some (Char.ofNat 12)
  else if c = 'r' then some '\r'
  else none

/-- What follows a backslash.  At the end of one of several lines it removes the space up to the next text. -/
def escape (lines : Bool) : List Char → Except Fault (List Char × List Char)
  | [] => .error .malformed
  | c :: rest =>
    if lines && c == '\n' then .ok ([], rest.dropWhile isSpaceOrLine)
    else if lines && isSpace c then
      match skipSpace rest with
      | [] => .ok ([], [])
      | d :: rest' => if d = '\n' then .ok ([], rest'.dropWhile isSpaceOrLine) else .error .malformed
    else if c = 'u' then codePoint 4 rest
    else if c = 'U' then codePoint 8 rest
    else match shortEscape? c with
      | some d => .ok ([d], rest)
      | none => .error .malformed

def startsTwice (c : Char) : List Char → Bool
  | a :: b :: _ => a == c && b == c
  | _ => false

/-- The rest of a string between quotes, whose characters so far are held in reverse. -/
def quotedRest (lines : Bool) : (fuel : Nat) → (done : List Char) → List Char → Except Fault (List Char × List Char)
  | 0, _, _ => .error .malformed
  | _ + 1, _, [] => .error .malformed
  | fuel + 1, done, c :: rest =>
    if c = doubleQuote then
      if !lines then .ok (done.reverse, rest)
      else if startsTwice doubleQuote rest then .ok (done.reverse, rest.drop 2)
      else quotedRest lines fuel (c :: done) rest
    else if c = '\\' then
      match escape lines rest with
      | .ok (cs, rest') => quotedRest lines fuel (cs.reverse ++ done) rest'
      | .error e => .error e
    else if isIllegal lines c then .error .malformed
    else quotedRest lines fuel (c :: done) rest

/-- The rest of a string between apostrophes, whose characters so far are held in reverse. -/
def literalRest (lines : Bool) (done : List Char) : List Char → Except Fault (List Char × List Char)
  | [] => .error .malformed
  | c :: rest =>
    if c = apostrophe ∧ (!lines || startsTwice apostrophe rest) then
      .ok (done.reverse, if lines then rest.drop 2 else rest)
    else if isIllegal lines c then .error .malformed
    else literalRest lines (c :: done) rest

/-- At most two more quotes right behind the three that end a string belong to it. -/
def extraQuotes (quote : Char) (text rest : List Char) : List Char × List Char :=
  match rest with
  | a :: b :: rest' =>
    if a = quote then if b = quote then (text ++ [a, b], rest') else (text ++ [a], b :: rest') else (text, rest)
  | [a] => if a = quote then (text ++ [a], []) else (text, rest)
  | [] => (text, [])

def dropLine : List Char → List Char
  | '\n' :: rest => rest
  | text => text

def stringBody (quote : Char) (lines : Bool) (text : List Char) : Except Fault (List Char × List Char) :=
  if quote = doubleQuote then quotedRest lines (text.length + 1) [] text else literalRest lines [] text

/-- A string on one line, whose opening quote has been read. -/
def lineString (quote : Char) (text : List Char) : Except Fault (String × List Char) := do
  let (body, rest) ← stringBody quote false text
  return (String.ofList body, rest)

/-- A string of either sort, whose first quote has been read. -/
def anyString (quote : Char) (text : List Char) : Except Fault (String × List Char) := do
  if startsTwice quote text then
    let (body, rest) ← stringBody quote true (dropLine (text.drop 2))
    let (body', rest') := extraQuotes quote body rest
    return (String.ofList body', rest')
  lineString quote text

/-! ## Numbers -/

/-- More digits of some sort, each of which an underscore may precede; without the underscores. -/
def moreDigits (isDigit : Char → Bool) : List Char → List Char × List Char
  | [] => ([], [])
  | '_' :: d :: rest =>
    if isDigit d then
      let r := moreDigits isDigit rest
      (d :: r.1, r.2)
    else ([], '_' :: d :: rest)
  | d :: rest =>
    if isDigit d then
      let r := moreDigits isDigit rest
      (d :: r.1, r.2)
    else ([], d :: rest)

def digitGroup (isDigit : Char → Bool) : List Char → Option (List Char × List Char)
  | d :: rest => if isDigit d then some (d :: (moreDigits isDigit rest).1, (moreDigits isDigit rest).2) else none
  | [] => none

/-- The letter that introduces a base other than ten. -/
def baseOf? (c : Char) : Option Nat :=
  if c = 'x' then some 16 else if c = 'b' then some 2 else if c = 'o' then some 8 else none

/-- The character is a digit of a base up to sixteen. -/
def isDigitOf (base : Nat) (c : Char) : Bool :=
  match Json.hexValue? c with
  | some n => decide (n < base)
  | none => false

def ofDigitsIn (base : Nat) (digits : List Char) : Nat :=
  digits.foldl (fun n c => n * base + (Json.hexValue? c).getD 0) 0

def basedNumber? : List Char → Option (Value × List Char)
  | '0' :: letter :: rest => do
    let base ← baseOf? letter
    let (digits, rest') ← digitGroup (isDigitOf base) rest
    some (.int (ofDigitsIn base digits), rest')
  | _ => none

/-- The whole part of a number: one zero, or digits that do not start with zero. -/
def wholePart? : List Char → Option (List Char × List Char)
  | '0' :: rest => some (['0'], rest)
  | text => digitGroup isAsciiDigit text

def fraction? : List Char → Option (List Char) × List Char
  | '.' :: rest =>
    match digitGroup isAsciiDigit rest with
    | some (ds, rest') => (some ds, rest')
    | none => (none, '.' :: rest)
  | text => (none, text)

def exponent? : List Char → Option Int × List Char
  | [] => (none, [])
  | e :: rest =>
    if e = 'e' ∨ e = 'E' then
      match digitGroup isAsciiDigit (takeSign rest).2 with
      | some (ds, rest') => (some (if (takeSign rest).1 then -(ofDigits ds : Int) else ofDigits ds), rest')
      | none => (none, e :: rest)
    else (none, e :: rest)

def decimal (text : List Char) : Except Fault (Value × List Char) :=
  let (negative, body) := takeSign text
  match wholePart? body with
  | none => .error .malformed
  | some (whole, afterWhole) =>
    let (fraction, afterFraction) := fraction? afterWhole
    let (power, rest) := exponent? afterFraction
    match fraction, power with
    | none, none =>
      if maxDigits < whole.length then .error (.tooLong whole.length)
      else .ok (.int (if negative then -(ofDigits whole : Int) else ofDigits whole), rest)
    | _, _ =>
      let places := fraction.getD []
      .ok (.float (.ofDecimal negative (ofDigits (whole ++ places)) (power.getD 0 - (places.length : Nat))), rest)

def named? (text : List Char) : Option (Value × List Char) :=
  let (negative, body) := takeSign text
  match Json.afterWord "inf" body with
  | some rest => some (.float (.infinite negative), rest)
  | none => (Json.afterWord "nan" body).map (.float .nan, ·)

def scalar (text : List Char) : Except Fault (Value × List Char) :=
  match text with
  | [] => .error .malformed
  | c :: rest =>
    if c = doubleQuote ∨ c = apostrophe then (anyString c rest).map fun r => (.str r.1, r.2)
    else
      let word := ((Json.afterWord "true" text).map (Value.bool true, ·)).or
        ((Json.afterWord "false" text).map (Value.bool false, ·))
      let moment := (moment? text).map fun r => (Value.moment r.1, r.2)
      match word.or (moment.or ((basedNumber? text).or (named? text))) with
      | some r => .ok r
      | none => decimal text

/-! ## Keys -/

def isKeyChar (c : Char) : Bool :=
  decide ('a' ≤ c ∧ c ≤ 'z') || decide ('A' ≤ c ∧ c ≤ 'Z') || isAsciiDigit c || c == '-' || c == '_'

def keyPart (text : List Char) : Except Fault (String × List Char) :=
  match text with
  | [] => .error .malformed
  | c :: rest =>
    if isKeyChar c then .ok (String.ofList (text.takeWhile isKeyChar), text.dropWhile isKeyChar)
    else if c = doubleQuote ∨ c = apostrophe then lineString c rest
    else .error .malformed

/-- The parts of a key after the first ones, which are held in reverse, and the text after the space behind them. -/
def keyRest : (fuel : Nat) → (done : List String) → List Char → Except Fault (List String × List Char)
  | 0, _, _ => .error .malformed
  | fuel + 1, done, text =>
    match skipSpace text with
    | '.' :: rest => do
      let (part, rest') ← keyPart (skipSpace rest)
      keyRest fuel (part :: done) rest'
    | rest => .ok (done.reverse, rest)

/-- A key: parts with dots between them. -/
def key (text : List Char) : Except Fault (List String × List Char) := do
  let (part, rest) ← keyPart text
  keyRest (text.length + 1) [part] rest

end Toml
end Cognitive
