/-!
# Rounding a quotient

A quotient of natural numbers is rounded to a natural number: to the nearest one, and a quotient that lies halfway
goes to the even neighbour or away from zero, as asked.
-/
namespace Cognitive
namespace Number

/-- Where a quotient halfway between two numbers goes. -/
inductive Tie where
  /-- To the even neighbour. -/
  | toEven
  /-- To the larger neighbour. -/
  | away
deriving DecidableEq, Repr

/-- The quotient `n / d` rounded to the nearest natural number. -/
def roundQuotient (tie : Tie) (n d : Nat) : Nat :=
  let q := n / d
  let twice := 2 * (n % d)
  if twice < d then q
  else if d < twice then q + 1
  else match tie with
    | .away => q + 1
    | .toEven => if q % 2 = 0 then q else q + 1

/-- A rounded quotient is within half a unit of the quotient. -/
theorem roundQuotient_near (tie : Tie) (n d : Nat) (hd : 0 < d) :
    2 * n ≤ (2 * roundQuotient tie n d + 1) * d ∧ (2 * roundQuotient tie n d) * d ≤ 2 * n + d := by
  have hdiv := Nat.div_add_mod n d
  have hmod := Nat.mod_lt n hd
  have key : ∀ r, r = n / d ∧ 2 * (n % d) ≤ d ∨ r = n / d + 1 ∧ d ≤ 2 * (n % d) →
      2 * n ≤ (2 * r + 1) * d ∧ (2 * r) * d ≤ 2 * n + d := by
    intro r hr
    rcases hr with ⟨rfl, h⟩ | ⟨rfl, h⟩
    · constructor <;> grind
    · constructor <;> grind
  apply key
  unfold roundQuotient
  simp only
  split
  · left; omega
  · split
    · right; omega
    · cases tie with
      | away => right; simp; omega
      | toEven =>
        simp only
        split
        · left; omega
        · right; omega

theorem roundQuotient_mul (tie : Tie) (q d : Nat) (hd : 0 < d) : roundQuotient tie (q * d) d = q := by
  simp [roundQuotient, Nat.mul_div_cancel _ hd, hd]

end Number
end Cognitive
