import Cognitive.Text.Printable
/-!
# Quoted text

Text inside a list or a message stands between quotes.  The quote is an apostrophe unless the text holds an apostrophe
and no double quote.  A backslash and the quote in use are escaped, tab, line feed and carriage return have short
escapes, and any other unprintable character is written by its code point in hexadecimal.
-/
namespace Cognitive
namespace Text

/-- The apostrophe, the quote that is used unless it would have to be escaped and the other would not. -/
def apostrophe : Char := Char.ofNat 0x27

def doubleQuote : Char := Char.ofNat 0x22

def quoteFor (text : List Char) : Char :=
  if text.contains apostrophe && !text.contains doubleQuote then doubleQuote else apostrophe

def hexDigit (n : Nat) : Char :=
  if n < 10 then Char.ofNat (0x30 + n) else Char.ofNat (0x57 + n)

def hex : (width n : Nat) → List Char
  | 0, _ => []
  | w + 1, n => hex w (n / 16) ++ [hexDigit (n % 16)]

/-- A backslash, a letter that says how many digits follow, and the code point. -/
def hexEscape (letter : Char) (width n : Nat) : List Char := '\\' :: letter :: hex width n

def quotedChar (quote c : Char) : List Char :=
  if c = quote ∨ c = '\\' then ['\\', c]
  else if c = '\t' then ['\\', 't']
  else if c = '\n' then ['\\', 'n']
  else if c = '\r' then ['\\', 'r']
  else if isPrintable c then [c]
  else if c.toNat < 0x100 then hexEscape 'x' 2 c.toNat
  else if c.toNat < 0x10000 then hexEscape 'u' 4 c.toNat
  else hexEscape 'U' 8 c.toNat

def quotedChars (text : List Char) : List Char :=
  let quote := quoteFor text
  quote :: (text.flatMap (quotedChar quote) ++ [quote])

def quoted (text : String) : String := String.ofList (quotedChars text.toList)

/-- How a byte is written between quotes: as a character when it is printable ASCII, in hexadecimal otherwise. -/
def quotedByte (quote : Char) (b : UInt8) : List Char :=
  if b.toNat < 0x80 then quotedChar quote (Char.ofNat b.toNat) else hexEscape 'x' 2 b.toNat

/-- The quoted form of a byte string, which a letter b introduces. -/
def quotedBytes (bytes : List UInt8) : String :=
  let quote := quoteFor (bytes.map fun b => Char.ofNat b.toNat)
  String.ofList ('b' :: quote :: (bytes.flatMap (quotedByte quote) ++ [quote]))

end Text
end Cognitive
