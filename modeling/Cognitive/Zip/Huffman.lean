import Cognitive.Zip.Bits
/-!
# Prefix codes from lengths

A prefix code is given by the length of the word of each symbol, zero for a symbol without one.  Words of one length
are consecutive numbers in the order of their symbols, and go on from twice the number after the last shorter word.
Such a code is complete when its words leave no bits over; a code may also be a single word of one bit.
-/
namespace Cognitive
namespace Zip

/-- A code: how many words of each length from one up there are, and the symbols by the order of their words. -/
structure Code where
  counts : List Nat
  symbols : Array Nat

namespace Code

/-- How the words fill the space of all words. -/
inductive Fill where
  | complete
  | incomplete
  | oversubscribed
deriving DecidableEq, Repr

/-- What is left of the space after words of each length. -/
def fillFrom (space : Nat) : List Nat → Fill
  | [] => if space = 0 then .complete else .incomplete
  | count :: rest => if 2 * space < count then .oversubscribed else fillFrom (2 * space - count) rest

def longest (lengths : List Nat) : Nat := lengths.foldl max 0

/-- The code with the given word lengths.  A code without words still takes a bit to find that there is none. -/
def ofLengths (lengths : List Nat) : Code where
  counts := (List.range (max 1 (longest lengths))).map fun n => lengths.count (n + 1)
  symbols := (List.range (longest lengths)).flatMap (fun n =>
    lengths.zipIdx.filterMap fun e => if e.1 = n + 1 then some e.2 else none) |>.toArray

def isEmpty (c : Code) : Bool := c.symbols.isEmpty

def fill (c : Code) : Fill := fillFrom 1 c.counts

def isFull (c : Code) : Bool := c.isEmpty || c.fill == .complete

/-- The code is empty, complete, or a single word of one bit. -/
def isUsable (c : Code) : Bool := c.isFull || c.fill == .incomplete && c.counts.length == 1

/-- Reads bits until they are a word, among words of the lengths that are left: `word` is what has been read, `first`
the first word of the length before and `index` how many words were shorter. -/
def search {ε : Type} (c : Code) (invalid : ε) :
    (counts : List Nat) → (word first index : Nat) → Bits → Except (Halt ε) (Nat × Bits)
  | [], _, _, _, _ => .error (.corrupt invalid)
  | count :: rest, word, first, index, bits =>
    match bits.next? with
    | none => .error .ended
    | some (bit, bits) =>
      let word := 2 * word + bit
      if word < first + count then .ok (c.symbols[index + (word - first)]?.getD 0, bits)
      else search c invalid rest word (2 * (first + count)) (index + count) bits

def read {ε : Type} (c : Code) (invalid : ε) (bits : Bits) : Except (Halt ε) (Nat × Bits) :=
  c.search invalid c.counts 0 0 0 bits

end Code
end Zip
end Cognitive
