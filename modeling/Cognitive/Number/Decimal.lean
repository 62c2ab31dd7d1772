import Cognitive.Number.Binary64
/-!
# Doubles in decimal

The shortest text of a double has the fewest significant digits that read back as that double, and of those the digits
nearest to it.  Reading back means lying in the interval of numbers that round to the double; its ends belong to it
when the double's significand is even.  `Layout` then says how the digits are set out.  Text with a fixed number of
places, and rounding to places, start from the exact value.
-/
namespace Cognitive
namespace Number

/-- A decimal: digits as a whole number, times a power of ten. -/
structure Decimal where
  digits : Nat
  exponent : Int
deriving DecidableEq, Repr

/-- How many decimal digits a number has; zero has one. -/
def digitCount (n : Nat) : Nat := (Nat.toDigits 10 n).length

/-- The quotient `n / d`, times a power of ten, as a quotient. -/
def scaleQuotient (n d : Nat) (power : Int) : Nat × Nat :=
  if 0 ≤ power then (n * Nat.pow 10 power.toNat, d) else (n, d * Nat.pow 10 (-power).toNat)

/-- The exponent `e` with `10^(e-1) ≤ n / d < 10^e`, for a positive quotient. -/
def decimalExponent (n d : Nat) : Int :=
  if d ≤ n then digitCount (n / d) else 1 - (digitCount ((d + n - 1) / n - 1) : Int)

/-- The interval of numbers, in quarters of a unit, that round to a count of units; `closed` if its ends belong to
it. -/
structure ReadBack where
  low : Nat
  high : Nat
  closed : Bool

/-- The interval that rounds to a count of units.  Below a power of two the doubles are twice as dense. -/
def ReadBack.of (units : Nat) : ReadBack :=
  let s := Binary64.step units
  let below := if s ≠ 1 ∧ units = s * Nat.pow 2 52 then s else 2 * s
  ⟨4 * units - below, 4 * units + 2 * s, (units / s) % 2 = 0⟩

def ReadBack.holds (r : ReadBack) (x : Decimal) : Bool :=
  let value := scaleQuotient (x.digits * (4 * Binary64.one)) 1 x.exponent
  let low := r.low * value.2
  let high := r.high * value.2
  if r.closed then decide (low ≤ value.1) && decide (value.1 ≤ high)
  else decide (low < value.1) && decide (value.1 < high)

/-- The decimal with the given exponent nearest to a count of units among those that read back as it. -/
def nearestWithExponent (units : Nat) (exponent : Int) : Option Decimal :=
  let r := ReadBack.of units
  let q := scaleQuotient units Binary64.one (-exponent)
  let below : Decimal := ⟨q.1 / q.2, exponent⟩
  let above : Decimal := ⟨q.1 / q.2 + 1, exponent⟩
  match r.holds below, r.holds above with
  | true, true =>
    let up := 2 * (q.1 % q.2)
    some (if up < q.2 then below else if q.2 < up then above else if below.digits % 2 = 0 then below else above)
  | true, false => some below
  | false, true => some above
  | false, false => none

def stripZeros : (fuel : Nat) → Decimal → Decimal
  | 0, x => x
  | fuel + 1, x => if x.digits % 10 = 0 ∧ x.digits ≠ 0 then stripZeros fuel ⟨x.digits / 10, x.exponent + 1⟩ else x

def shortestFrom (units : Nat) (top : Int) : (tries digits : Nat) → Decimal
  | 0, _ => ⟨units, 0⟩
  | tries + 1, n =>
    match nearestWithExponent units (top - n) with
    | some x => stripZeros 20 x
    | none => shortestFrom units top tries (n + 1)

/-- The shortest decimal that reads back as a positive count of units. -/
def shortest (units : Nat) : Decimal :=
  if units = 0 then ⟨0, 0⟩ else shortestFrom units (decimalExponent units Binary64.one) 17 1

/-- How the digits of a decimal are set out. -/
structure Layout where
  /-- The least position of the decimal point, counted from the first digit, that is still written in full. -/
  lowest : Int
  /-- The greatest position of the decimal point that is still written in full. -/
  highest : Int
  /-- The least number of digits of a written exponent. -/
  exponentDigits : Nat

/-- Numbers from 10^-4 up to 10^16 are written in full, always with a point; the others have an exponent of at least
two digits. -/
def Layout.plain : Layout := ⟨-3, 16, 2⟩

def zeros (n : Nat) : List Char := List.replicate n '0'

/-- A number's digits, with zeros in front up to a width. -/
def padded (width n : Nat) : List Char :=
  let ds := Nat.toDigits 10 n
  zeros (width - ds.length) ++ ds

def Layout.write (l : Layout) (x : Decimal) : List Char :=
  let ds := Nat.toDigits 10 x.digits
  let point : Int := ds.length + x.exponent
  if l.lowest ≤ point ∧ point ≤ l.highest then
    if point ≤ 0 then '0' :: '.' :: (zeros (-point).toNat ++ ds)
    else if ds.length ≤ point.toNat then ds ++ zeros (point.toNat - ds.length) ++ ['.', '0']
    else ds.take point.toNat ++ '.' :: ds.drop point.toNat
  else
    let e := point - 1
    let mark := ['e', if e < 0 then '-' else '+']
    ds.take 1 ++ (if ds.length ≤ 1 then [] else '.' :: ds.drop 1) ++ mark ++ padded l.exponentDigits e.natAbs

def signed (negative : Bool) (text : List Char) : List Char := if negative then '-' :: text else text

/-- The shortest text of a double. -/
def Binary64.text : Binary64 → String
  | .nan => "nan"
  | .infinite s => String.ofList (signed s ['i', 'n', 'f'])
  | .finite s u => String.ofList (signed s (if u = 0 then ['0', '.', '0'] else Layout.plain.write (shortest u)))

/-- A quotient rounded to a number of places, as a count of the last place. -/
def atPlaces (tie : Tie) (places n d : Nat) : Nat := roundQuotient tie (n * Nat.pow 10 places) d

/-- The double nearest to a double rounded to some places; a tie goes to the even digit. -/
def Binary64.roundPlaces (places : Nat) : Binary64 → Binary64
  | .finite s u => ofRatio s (atPlaces .toEven places u Binary64.one) (Nat.pow 10 places)
  | other => other

/-- A double with a fixed number of places; a tie goes to the even digit. -/
def Binary64.fixed (places : Nat) : Binary64 → String
  | .finite s u =>
    let ds := padded (places + 1) (atPlaces .toEven places u Binary64.one)
    String.ofList (signed s (ds.take (ds.length - places) ++ '.' :: ds.drop (ds.length - places)))
  | other => other.text

end Number
end Cognitive
