import Cognitive.Number.Rounding
/-!
# Double-precision numbers, exactly

Every finite double is a whole number of units of 2^-1074, so a finite double is kept as its sign and that count of
units.  Each operation takes the exact result, a quotient of natural numbers of units, and rounds it once: to the
nearest number with at most 53 significant bits, a tie to the even one, and to an infinity from 2^1024 on.  The sign
of zero is kept.
-/
namespace Cognitive
namespace Number

/-- A double: a sign and a count of units of 2^-1074, an infinity, or no number at all. -/
inductive Binary64 where
  | finite (negative : Bool) (units : Nat)
  | infinite (negative : Bool)
  | nan
deriving DecidableEq, Repr

namespace Binary64

/-- How many units make one. -/
def one : Nat := Nat.pow 2 1074

/-- The least count of units that is too large for a finite double. -/
def limit : Nat := Nat.pow 2 2098

/-- The distance, in units, between doubles from a whole count of units on. -/
def step (units : Nat) : Nat := Nat.pow 2 (units.log2 - 52)

/-- The count of units nearest to a quotient of units among those that a double can have. -/
def nearestUnits (n d : Nat) : Nat :=
  let s := step (n / d)
  roundQuotient .toEven n (d * s) * s

def ofUnits (negative : Bool) (n d : Nat) : Binary64 :=
  let u := nearestUnits n d
  if u < limit then .finite negative u else .infinite negative

def ofRatio (negative : Bool) (n d : Nat) : Binary64 := ofUnits negative (n * one) d

def zero : Binary64 := .finite false 0

def ofInt (n : Int) : Binary64 := ofRatio (decide (n < 0)) n.natAbs 1

/-- The double nearest to a decimal: a whole number times a power of ten.  Exponents so far out that the result can
only be zero or infinite are answered without computing the power. -/
def ofDecimal (negative : Bool) (digits : Nat) (exponent : Int) : Binary64 :=
  if digits = 0 then .finite negative 0
  else if 400 < exponent then .infinite negative
  else if exponent < -400 - (digits.log2 + 1 : Nat) then .finite negative 0
  else if 0 ≤ exponent then ofRatio negative (digits * Nat.pow 10 exponent.toNat) 1
  else ofRatio negative digits (Nat.pow 10 (-exponent).toNat)

/-- The count of units with its sign; zero for what is not finite. -/
def signedUnits : Binary64 → Int
  | .finite true u => -u
  | .finite false u => u
  | _ => 0

/-- The double with a signed quotient of units, where a zero result takes the given sign. -/
def ofSigned (zeroSign : Bool) (n : Int) (d : Nat) : Binary64 :=
  ofUnits (if n = 0 then zeroSign else decide (n < 0)) n.natAbs d

def neg : Binary64 → Binary64
  | .finite s u => .finite (!s) u
  | .infinite s => .infinite (!s)
  | .nan => .nan

def add : Binary64 → Binary64 → Binary64
  | .finite s u, .finite t v =>
    ofSigned (s && t) ((Binary64.finite s u).signedUnits + (Binary64.finite t v).signedUnits) 1
  | .infinite s, .infinite t => if s = t then .infinite s else .nan
  | .infinite s, .finite _ _ => .infinite s
  | .finite _ _, .infinite t => .infinite t
  | _, _ => .nan

def sub (x y : Binary64) : Binary64 := x.add y.neg

def mul : Binary64 → Binary64 → Binary64
  | .finite s u, .finite t v => ofUnits (s != t) (u * v) one
  | .infinite s, .infinite t => .infinite (s != t)
  | .infinite s, .finite t v => if v = 0 then .nan else .infinite (s != t)
  | .finite s u, .infinite t => if u = 0 then .nan else .infinite (s != t)
  | _, _ => .nan

/-- The quotient by a positive whole number, rounded. -/
def divNat (x : Binary64) (n : Nat) : Binary64 :=
  match x with
  | .finite s u => ofUnits s u n
  | other => other

/-- The order of two numbers; what is no number is not below anything. -/
def lt : Binary64 → Binary64 → Bool
  | .finite s u, .finite t v =>
    decide ((Binary64.finite s u).signedUnits < (Binary64.finite t v).signedUnits)
  | .finite _ _, .infinite t => !t
  | .infinite s, .finite _ _ => s
  | .infinite s, .infinite t => s && !t
  | _, _ => false

def le (x y : Binary64) : Bool :=
  match x, y with
  | .nan, _ => false
  | _, .nan => false
  | x, y => !y.lt x

/-- The number is below a whole number, compared exactly. -/
def ltInt (x : Binary64) (n : Int) : Bool :=
  match x with
  | .finite .. => decide (x.signedUnits < n * one)
  | .infinite s => s
  | .nan => false

/-- A whole number is below the number, compared exactly. -/
def intLt (n : Int) (x : Binary64) : Bool :=
  match x with
  | .finite .. => decide (n * one < x.signedUnits)
  | .infinite s => !s
  | .nan => false

/-- The number is at most a whole number, compared exactly. -/
def leInt (x : Binary64) (n : Int) : Bool :=
  match x with
  | .finite .. => decide (x.signedUnits ≤ n * one)
  | .infinite s => s
  | .nan => false

/-- The whole number that is left when the fraction is cut off; none for what is not finite. -/
def truncate? (x : Binary64) : Option Int :=
  match x with
  | .finite .. => some (x.signedUnits.tdiv one)
  | _ => none

def isFinite : Binary64 → Bool
  | .finite .. => true
  | _ => false

theorem step_pos (units : Nat) : 0 < step units := Nat.two_pow_pos _

/-- A quotient of units is rounded to a count within half a step of it. -/
theorem nearestUnits_near (n d : Nat) (hd : 0 < d) :
    2 * n ≤ 2 * nearestUnits n d * d + d * step (n / d) ∧
      2 * nearestUnits n d * d ≤ 2 * n + d * step (n / d) := by
  have h := roundQuotient_near .toEven n (d * step (n / d)) (Nat.mul_pos hd (step_pos _))
  unfold nearestUnits
  simp only
  constructor
  · calc 2 * n ≤ (2 * roundQuotient .toEven n (d * step (n / d)) + 1) * (d * step (n / d)) := h.1
      _ = _ := by grind
  · calc _ = (2 * roundQuotient .toEven n (d * step (n / d))) * (d * step (n / d)) := by grind
      _ ≤ _ := h.2

end Binary64
end Number
end Cognitive
