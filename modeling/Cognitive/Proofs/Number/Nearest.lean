import Cognitive.Proofs.Number.Scaled
/-!
# Nearest doubles and nearest hundredths

A quotient is rounded to the double nearest to it, and of two such doubles to the one with an even last digit
(`Binary64.isNearest_ofRatio`): the step between doubles around the quotient is the least there, and doubles that are
no multiples of it lie below a power of two that is one (`Binary64.step_dvd_or_lt`).  The hundredth nearest to a number,
halves going away from zero, is known by the interval that the number lies in (`isNearestHundredth_iff`).
-/
namespace Cognitive
namespace Number

/-! ## Rounded quotients -/

theorem roundQuotient_abs_le (tie : Tie) (n : Nat) {d : Nat} (hd : 0 < d) :
    |(roundQuotient tie n d : ℚ) - n / d| ≤ 1 / 2 := by
  obtain ⟨hlow, hhigh⟩ := roundQuotient_near tie n d hd
  have hpos : (0 : ℚ) < d := Nat.cast_pos.2 hd
  have hlow : (2 * n : ℚ) ≤ (2 * roundQuotient tie n d + 1) * d := by exact_mod_cast hlow
  have hhigh : (2 * roundQuotient tie n d * d : ℚ) ≤ 2 * n + d := by exact_mod_cast hhigh
  have habove : (n / d : ℚ) ≤ roundQuotient tie n d + 1 / 2 := by
    rw [div_le_iff₀ hpos]
    linarith
  have hbelow : (roundQuotient tie n d - 1 / 2 : ℚ) ≤ n / d := by
    rw [le_div_iff₀ hpos]
    linarith
  rw [abs_le]
  constructor <;> linarith

/-- A quotient halfway between two numbers goes to the even one. -/
theorem roundQuotient_even_of_half {n d : Nat} (hd : 0 < d)
    (h : |(roundQuotient .toEven n d : ℚ) - n / d| = 1 / 2) : 2 ∣ roundQuotient .toEven n d := by
  have hpos : (d : ℚ) ≠ 0 := Nat.cast_ne_zero.2 hd.ne'
  have hhalf : 2 * n = 2 * (roundQuotient .toEven n d * d) + d ∨ 2 * n + d = 2 * (roundQuotient .toEven n d * d) := by
    rcases (abs_eq (by norm_num)).1 h with h | h
    · right
      field_simp at h
      have hq : (2 * n + d : ℚ) = 2 * (roundQuotient .toEven n d * d) := by linarith
      exact_mod_cast hq
    · left
      field_simp at h
      have hq : (2 * n : ℚ) = 2 * (roundQuotient .toEven n d * d) + d := by linarith
      exact_mod_cast hq
  have hdiv : n / d * d + n % d = n := Nat.div_add_mod' n d
  have hmod : n % d < d := Nat.mod_lt n hd
  have hnext : (n / d + 1) * d = n / d * d + d := Nat.succ_mul _ _
  clear h
  unfold roundQuotient at hhalf ⊢
  simp only at hhalf ⊢
  split_ifs at hhalf ⊢ with hless hmore heven <;> omega

/-- A quotient halfway between two numbers goes to the larger one where ties go away from zero. -/
theorem roundQuotient_away (n : Nat) {d : Nat} (hd : 0 < d) :
    2 * roundQuotient .away n d * d ≤ 2 * n + d ∧ 2 * n < (2 * roundQuotient .away n d + 1) * d := by
  refine ⟨(roundQuotient_near .away n d hd).2, ?_⟩
  have hdiv : n / d * d + n % d = n := Nat.div_add_mod' n d
  have hmod : n % d < d := Nat.mod_lt n hd
  unfold roundQuotient
  simp only
  split_ifs with hless hmore
  · linarith
  · linarith
  · linarith

namespace Binary64

/-! ## Doubles around a count of units -/

/-- A double is a multiple of the step around a count of units, or it lies below a power of two that is one and is no
more than the count. -/
theorem step_dvd_or_lt {v : Nat} (q : Nat) (hv : step v ∣ v) :
    step q ∣ v ∨ v < 2 ^ 52 * step q ∧ 2 ^ 52 * step q ≤ q := by
  have hstep : ∀ n, step n = 2 ^ (n.log2 - 52) := fun n => rfl
  by_cases hsmall : q.log2 ≤ 52
  · left
    rw [hstep, Nat.sub_eq_zero_of_le hsmall]
    exact one_dvd v
  · have hpower : 2 ^ 52 * step q = 2 ^ q.log2 := by
      rw [hstep, ← pow_add]
      congr 1
      omega
    have hq : q ≠ 0 := by
      rintro rfl
      exact hsmall (by decide)
    by_cases hbelow : v < 2 ^ q.log2
    · right
      rw [hpower]
      exact ⟨hbelow, Nat.log2_self_le hq⟩
    · left
      have hne : v ≠ 0 := by
        rintro rfl
        exact hbelow (Nat.two_pow_pos _)
      have hlog : q.log2 ≤ v.log2 := (Nat.le_log2 hne).2 (not_lt.1 hbelow)
      refine dvd_trans ?_ hv
      rw [hstep, hstep]
      exact pow_dvd_pow 2 (by omega)

variable {n d v : Nat}

theorem nearestUnits_sub (n : Nat) (hd : 0 < d) : (nearestUnits n d : ℚ) - n / d =
    (roundQuotient .toEven n (d * step (n / d)) - n / (d * step (n / d) : Nat)) * step (n / d) := by
  have hs : (step (n / d) : ℚ) ≠ 0 := Nat.cast_ne_zero.2 (step_pos _).ne'
  rw [nearestUnits]
  push_cast
  field_simp

theorem nearestUnits_abs_le (n : Nat) (hd : 0 < d) : |(nearestUnits n d : ℚ) - n / d| ≤ step (n / d) / 2 := by
  have hs : (0 : ℚ) < step (n / d) := Nat.cast_pos.2 (step_pos _)
  have hround := roundQuotient_abs_le .toEven n (Nat.mul_pos hd (step_pos (n / d)))
  rw [nearestUnits_sub n hd, abs_mul, abs_of_pos hs]
  calc _ ≤ 1 / 2 * (step (n / d) : ℚ) := mul_le_mul_of_nonneg_right hround hs.le
    _ = _ := by ring

theorem step_le_abs_sub {s j k : Nat} (h : j ≠ k) : (s : ℚ) ≤ |((j * s : Nat) : ℚ) - (k * s : Nat)| := by
  have hapart : (1 : ℚ) ≤ |(j : ℚ) - k| := by
    have hint : (1 : ℤ) ≤ |(j : ℤ) - k| := Int.one_le_abs (by omega)
    exact_mod_cast hint
  have hs : (0 : ℚ) ≤ s := Nat.cast_nonneg s
  rw [Nat.cast_mul, Nat.cast_mul, ← sub_mul, abs_mul, abs_of_nonneg hs]
  calc (s : ℚ) = 1 * s := (one_mul _).symm
    _ ≤ _ := mul_le_mul_of_nonneg_right hapart hs

/-- A multiple of the step that is not the rounded count is at least half a step away. -/
theorem half_step_le {k : Nat} (hd : 0 < d) (hne : k * step (n / d) ≠ nearestUnits n d) :
    (step (n / d) : ℚ) / 2 ≤ |((k * step (n / d) : Nat) : ℚ) - n / d| := by
  have hapart : (step (n / d) : ℚ) ≤ |((k * step (n / d) : Nat) : ℚ) - nearestUnits n d| :=
    step_le_abs_sub fun h => hne (by rw [h, nearestUnits])
  have hnear := nearestUnits_abs_le n hd
  have htriangle := abs_sub_le ((k * step (n / d) : Nat) : ℚ) (n / d) (nearestUnits n d)
  rw [abs_sub_comm (n / d : ℚ)] at htriangle
  linarith

theorem nearestUnits_le_multiple (hd : 0 < d) (k : Nat) :
    |(nearestUnits n d : ℚ) - n / d| ≤ |((k * step (n / d) : Nat) : ℚ) - n / d| := by
  by_cases hk : k * step (n / d) = nearestUnits n d
  · rw [hk]
  · exact (nearestUnits_abs_le n hd).trans (half_step_le hd hk)

/-- What lies below a power of two up to the quotient is farther away than the rounded count. -/
theorem nearestUnits_lt_below (hd : 0 < d) (hbelow : v < 2 ^ 52 * step (n / d))
    (hpower : 2 ^ 52 * step (n / d) ≤ n / d) : |(nearestUnits n d : ℚ) - n / d| < |(v : ℚ) - n / d| := by
  have hquotient : ((2 ^ 52 * step (n / d) : Nat) : ℚ) ≤ n / d := (Nat.cast_le.2 hpower).trans Nat.cast_div_le
  have hbelow : (v : ℚ) < (2 ^ 52 * step (n / d) : Nat) := Nat.cast_lt.2 hbelow
  refine (nearestUnits_le_multiple hd (2 ^ 52)).trans_lt ?_
  rw [abs_of_nonpos (by linarith), abs_of_nonpos (by linarith)]
  linarith

/-- **No count that a double can have is nearer than the rounded one.** -/
theorem nearestUnits_least (hd : 0 < d) (hv : step v ∣ v) : |(nearestUnits n d : ℚ) - n / d| ≤ |(v : ℚ) - n / d| := by
  rcases step_dvd_or_lt (n / d) hv with ⟨k, hk⟩ | ⟨hbelow, hpower⟩
  · rw [hk, mul_comm]
    exact nearestUnits_le_multiple hd k
  · exact (nearestUnits_lt_below hd hbelow hpower).le

theorem two_mul_step_dvd {r : Nat} (k : Nat) (hr : r ≤ 2 ^ 53) (heven : 2 ∣ r) :
    2 * step (r * 2 ^ k) ∣ r * 2 ^ k := by
  by_cases hz : r = 0
  · rw [hz, Nat.zero_mul]
    exact dvd_zero _
  · have hstep : step (r * 2 ^ k) = 2 ^ (r.log2 + k - 52) := by
      rw [← log2_mul_two_pow k hz]
      rfl
    rw [hstep]
    by_cases htop : r = 2 ^ 53
    · rw [htop, Nat.log2_two_pow, ← pow_succ', ← pow_add]
      exact pow_dvd_pow 2 (by omega)
    · have hlog : r.log2 < 53 := (Nat.log2_lt hz).2 (lt_of_le_of_ne hr htop)
      exact Nat.mul_dvd_mul heven (pow_dvd_pow 2 (by omega))

/-- **A rounded count that another double is as near as has an even last digit.** -/
theorem nearestUnits_even (hd : 0 < d) (hv : step v ∣ v) (hne : v ≠ nearestUnits n d)
    (heq : |(v : ℚ) - n / d| = |(nearestUnits n d : ℚ) - n / d|) : 2 * step (nearestUnits n d) ∣ nearestUnits n d := by
  rcases step_dvd_or_lt (n / d) hv with ⟨k, hk⟩ | ⟨hbelow, hpower⟩
  · -- two multiples of the step are as near only halfway between them
    rw [mul_comm] at hk
    rw [hk] at hne heq
    have hhalf : |(nearestUnits n d : ℚ) - n / d| = step (n / d) / 2 :=
      le_antisymm (nearestUnits_abs_le n hd) (heq ▸ half_step_le hd hne)
    have hs : (0 : ℚ) < step (n / d) := Nat.cast_pos.2 (step_pos _)
    rw [nearestUnits_sub n hd, abs_mul, abs_of_pos hs] at hhalf
    have hsteps : |(roundQuotient .toEven n (d * step (n / d)) : ℚ) - n / (d * step (n / d) : Nat)| = 1 / 2 :=
      mul_right_cancel₀ hs.ne' (hhalf.trans (by ring))
    have heven := roundQuotient_even_of_half (Nat.mul_pos hd (step_pos (n / d))) hsteps
    have hcount : nearestUnits n d = roundQuotient .toEven n (d * step (n / d)) * 2 ^ ((n / d).log2 - 52) := rfl
    rw [hcount]
    exact two_mul_step_dvd _ (roundQuotient_step_le n hd) heven
  · exact absurd heq (nearestUnits_lt_below hd hbelow hpower).ne'

/-! ## Doubles as rational numbers -/

-- powers this large are not to be computed
attribute [local irreducible] one limit

/-- The rational number that a finite double is. -/
def value (x : Binary64) : ℚ := x.signedUnits / one

/-- The last binary digit of a finite double is even. -/
def HasEvenDigit : Binary64 → Prop
  | .finite _ units => 2 * step units ∣ units
  | _ => False

/-- **The double nearest to a number**; of two that are as near, the one with the even last digit. -/
structure IsNearest (x : Binary64) (q : ℚ) : Prop where
  finite : x.isFinite = true
  isDouble : x.IsDouble
  least : ∀ y : Binary64, y.isFinite = true → y.IsDouble → |x.value - q| ≤ |y.value - q|
  even : ∀ y : Binary64, y.isFinite = true → y.IsDouble → |y.value - q| = |x.value - q| → y.value ≠ x.value →
    x.HasEvenDigit

/-- What a double is is its own nearest double. -/
theorem IsNearest.value_eq {x y : Binary64} (h : x.IsNearest y.value) (hfin : y.isFinite = true)
    (hdouble : y.IsDouble) : x.value = y.value := by
  have hleast := h.least y hfin hdouble
  rw [sub_self, abs_zero, abs_nonpos_iff, sub_eq_zero] at hleast
  exact hleast

theorem value_finite (u : Nat) : (finite false u).value = u / one := by simp [value, signedUnits]

theorem value_zero : (finite false 0).value = 0 := by rw [value_finite, Nat.cast_zero, zero_div]

theorem value_nonneg (u : Nat) : 0 ≤ (finite false u).value := by
  rw [value_finite]
  positivity

theorem value_neg (x : Binary64) : x.neg.value = -x.value := by
  cases x with
  | finite s u => cases s <;> simp [value, neg, signedUnits, neg_div]
  | infinite s => simp [value, neg, signedUnits]
  | nan => simp [value, neg, signedUnits]

theorem neg_neg_eq (x : Binary64) : x.neg.neg = x := by cases x <;> simp [neg]

theorem isFinite_neg (x : Binary64) : x.neg.isFinite = x.isFinite := by cases x <;> rfl

theorem IsDouble.neg {x : Binary64} (h : x.IsDouble) : x.neg.IsDouble := by
  cases h with
  | finite digits below => exact .finite digits below
  | infinite => exact .infinite
  | nan => exact .nan

/-- Rounding to the nearest double is the same on both sides of zero. -/
theorem IsNearest.neg {x : Binary64} {q : ℚ} (h : x.IsNearest q) : x.neg.IsNearest (-q) := by
  have hdistance : ∀ y : Binary64, |y.value - -q| = |y.neg.value - q| := by
    intro y
    rw [value_neg, ← abs_neg]
    congr 1
    ring
  refine ⟨(isFinite_neg x).trans h.finite, h.isDouble.neg, ?_, ?_⟩
  · intro y hy hdouble
    rw [hdistance, hdistance, neg_neg_eq]
    exact h.least y.neg ((isFinite_neg y).trans hy) hdouble.neg
  · intro y hy hdouble heq hne
    rw [hdistance, hdistance, neg_neg_eq] at heq
    have heven : x.HasEvenDigit := by
      refine h.even y.neg ((isFinite_neg y).trans hy) hdouble.neg heq fun h => hne ?_
      rw [value_neg] at h ⊢
      linarith
    cases x with
    | finite s u => exact heven
    | infinite s => exact heven
    | nan => exact heven

theorem ofRatio_eq_of_finite {negative : Bool} (h : (ofRatio negative n d).isFinite = true) :
    ofRatio negative n d = .finite negative (nearestUnits (n * one) d) := by
  unfold ofRatio ofUnits at h ⊢
  simp only at h ⊢
  by_cases hbelow : nearestUnits (n * one) d < limit
  · rw [if_pos hbelow]
  · rw [if_neg hbelow] at h
    cases h

/-- The distance of a double from a quotient is that of its units from the quotient in units. -/
theorem abs_value_sub (u n d : Nat) :
    |(finite false u).value - (n / d : ℚ)| = |(u : ℚ) - (n * one : Nat) / d| / one := by
  have hone : (0 : ℚ) < one := Nat.cast_pos.2 one_pos
  rw [value_finite, ← abs_of_pos hone, ← abs_div, abs_of_pos hone]
  congr 1
  push_cast
  field_simp

/-- What is below zero is farther from a quotient than zero. -/
theorem abs_value_sub_of_negative (u n d : Nat) :
    |(finite true u).value - (n / d : ℚ)| = (finite false u).value + |(finite false 0).value - (n / d : ℚ)| := by
  have hq : (0 : ℚ) ≤ n / d := by positivity
  have hu := value_nonneg u
  have hvalue : (finite true u).value = -(finite false u).value := value_neg (finite false u)
  rw [hvalue, value_zero, zero_sub, abs_neg, abs_of_nonneg hq, abs_of_nonpos (by linarith)]
  ring

theorem nearestUnits_value_least (hd : 0 < d) (hv : step v ∣ v) :
    |(finite false (nearestUnits (n * one) d)).value - (n / d : ℚ)| ≤ |(finite false v).value - (n / d : ℚ)| := by
  rw [abs_value_sub, abs_value_sub]
  exact div_le_div_of_nonneg_right (nearestUnits_least hd hv) (Nat.cast_nonneg one)

theorem nearestUnits_value_even (hd : 0 < d) (hv : step v ∣ v)
    (heq : |(finite false v).value - (n / d : ℚ)| = |(finite false (nearestUnits (n * one) d)).value - (n / d : ℚ)|)
    (hne : (finite false v).value ≠ (finite false (nearestUnits (n * one) d)).value) :
    2 * step (nearestUnits (n * one) d) ∣ nearestUnits (n * one) d := by
  have hone : (one : ℚ) ≠ 0 := Nat.cast_ne_zero.2 one_pos.ne'
  rw [abs_value_sub, abs_value_sub, div_left_inj' hone] at heq
  exact nearestUnits_even hd hv (fun h => hne (by rw [h])) heq

theorem isNearest_ofRatio_of_nonneg (hd : 0 < d) (hfin : (ofRatio false n d).isFinite = true) :
    (ofRatio false n d).IsNearest (n / d) := by
  have hdouble := isDouble_ofRatio false n hd
  have hx := ofRatio_eq_of_finite hfin
  have hzero := nearestUnits_value_least (n := n) hd (dvd_zero (step 0))
  rw [hx] at hfin hdouble ⊢
  refine ⟨hfin, hdouble, ?_, ?_⟩
  · intro y hy hydouble
    cases hydouble with
    | infinite => cases hy
    | nan => cases hy
    | @finite s u digits _ =>
      cases s with
      | false => exact nearestUnits_value_least hd digits
      | true =>
        have hu := value_nonneg u
        rw [abs_value_sub_of_negative]
        linarith
  · intro y hy hydouble heq hne
    cases hydouble with
    | infinite => cases hy
    | nan => cases hy
    | @finite s u digits _ =>
      cases s with
      | false => exact nearestUnits_value_even hd digits heq hne
      | true =>
        -- it is as near only if it is zero
        have hu := value_nonneg u
        have hvalue : (finite true u).value = -(finite false u).value := value_neg (finite false u)
        rw [abs_value_sub_of_negative] at heq
        have hnone : (finite false u).value = 0 := by linarith
        rw [hvalue, hnone, neg_zero, ← value_zero] at hne
        rw [hnone, zero_add] at heq
        exact nearestUnits_value_even hd (dvd_zero (step 0)) heq hne

end Binary64

/-- A number with the sign that is given. -/
def withSign {α : Type} [Neg α] (negative : Bool) (a : α) : α := if negative then -a else a

theorem abs_withSign (negative : Bool) {q : ℚ} (hq : 0 ≤ q) : |withSign negative q| = q := by
  cases negative with
  | false => exact abs_of_nonneg hq
  | true => exact (abs_neg q).trans (abs_of_nonneg hq)

namespace Binary64

attribute [local irreducible] one limit

variable {n d : Nat}

theorem value_withSign (negative : Bool) (u : Nat) : (finite negative u).value = withSign negative (u / one : ℚ) := by
  cases negative with
  | false => exact value_finite u
  | true =>
    have hvalue : (finite true u).value = -(finite false u).value := value_neg (finite false u)
    rw [hvalue, value_finite]
    rfl

/-- **A quotient that is not too large is rounded to the nearest double**, on either side of zero. -/
theorem isNearest_ofRatio (negative : Bool) (hd : 0 < d) (hfin : (ofRatio negative n d).isFinite = true) :
    (ofRatio negative n d).IsNearest (withSign negative (n / d : ℚ)) := by
  cases negative with
  | false => exact isNearest_ofRatio_of_nonneg hd hfin
  | true =>
    have hneg : ofRatio true n d = (ofRatio false n d).neg := by
      unfold ofRatio ofUnits
      simp only
      split <;> rfl
    rw [hneg, isFinite_neg] at hfin
    rw [hneg]
    exact (isNearest_ofRatio_of_nonneg hd hfin).neg

/-- Quotients up to 2 ^ 200 are rounded to finite doubles. -/
theorem isFinite_ofRatio (negative : Bool) (hd : 0 < d) (h : n ≤ 2 ^ 200 * d) :
    (ofRatio negative n d).isFinite = true := by
  have hstep : step (n * one / d) ≤ n * one / d + 1 := by
    have hform : step (n * one / d) = 2 ^ ((n * one / d).log2 - 52) := rfl
    by_cases hz : n * one / d = 0
    · rw [hz]
      decide
    · have hlog := Nat.log2_self_le hz
      have hpow : 2 ^ ((n * one / d).log2 - 52) ≤ 2 ^ (n * one / d).log2 := Nat.pow_le_pow_right (by decide) (by omega)
      omega
  have hfloor : d * (n * one / d) ≤ n * one := Nat.mul_div_le _ _
  have hbelow : nearestUnits (n * one) d < limit := by
    by_contra hlarge
    have hscaled : 2 * limit * d ≤ (3 * (2 ^ 200 * one) + 1) * d := by
      calc 2 * limit * d ≤ 2 * nearestUnits (n * one) d * d :=
            Nat.mul_le_mul_right d (Nat.mul_le_mul_left 2 (not_lt.1 hlarge))
        _ ≤ 2 * (n * one) + d * step (n * one / d) := (nearestUnits_near (n * one) d hd).2
        _ ≤ 2 * (n * one) + d * (n * one / d + 1) := Nat.add_le_add_left (Nat.mul_le_mul_left d hstep) _
        _ ≤ 3 * (n * one) + d := by
          rw [Nat.mul_succ]
          omega
        _ ≤ 3 * (2 ^ 200 * d * one) + d := Nat.add_le_add_right (Nat.mul_le_mul_left 3 (Nat.mul_le_mul_right one h)) d
        _ = (3 * (2 ^ 200 * one) + 1) * d := by ring
    have hroom : 2 ^ 202 * one < limit := two_pow_mul_one_lt_limit (by decide)
    have hnumbers : 3 * (2 ^ 200 * one) + 1 < 2 * limit := by omega
    exact absurd (Nat.le_of_mul_le_mul_right hscaled hd) (not_le.2 hnumbers)
  unfold ofRatio ofUnits
  simp only
  rw [if_pos hbelow]
  rfl

/-- **A rounded quotient is near in proportion**, unless it is so small that doubles are equally spaced there. -/
theorem abs_nearestUnits_sub_le (hd : 0 < d) (h : 2 ^ 52 ≤ n * one / d) :
    |(finite false (nearestUnits (n * one) d)).value - (n / d : ℚ)| ≤ n / d / 2 ^ 53 := by
  have hone : (0 : ℚ) < one := Nat.cast_pos.2 one_pos
  have hpower : 2 ^ 52 * step (n * one / d) ≤ n * one / d := by
    have hz : n * one / d ≠ 0 := fun hz => by
      rw [hz] at h
      cases h
    have hlog : 52 ≤ (n * one / d).log2 := (Nat.le_log2 hz).2 h
    have hform : 2 ^ 52 * step (n * one / d) = 2 ^ (n * one / d).log2 := by
      have hstep : step (n * one / d) = 2 ^ ((n * one / d).log2 - 52) := rfl
      rw [hstep, ← pow_add]
      congr 1
      omega
    rw [hform]
    exact Nat.log2_self_le hz
  have hquotient : (2 ^ 52 * step (n * one / d) : ℚ) ≤ (n * one : Nat) / d := by
    have hcast : ((2 ^ 52 * step (n * one / d) : Nat) : ℚ) ≤ (n * one : Nat) / d :=
      (Nat.cast_le.2 hpower).trans Nat.cast_div_le
    push_cast at hcast ⊢
    exact hcast
  rw [abs_value_sub, div_le_iff₀ hone]
  calc |(nearestUnits (n * one) d : ℚ) - (n * one : Nat) / d| ≤ step (n * one / d) / 2 :=
        nearestUnits_abs_le (n * one) hd
    _ ≤ (n * one : Nat) / d / 2 ^ 53 := by linarith
    _ = n / d / 2 ^ 53 * one := by
      push_cast
      ring

end Binary64

/-! ## Hundredths -/

/-- **The hundredth nearest to a number**; of two that are as near, the one farther from zero. -/
structure IsNearestHundredth (h : ℤ) (q : ℚ) : Prop where
  least : ∀ k : ℤ, |(h / 100 : ℚ) - q| ≤ |(k / 100 : ℚ) - q|
  away : ∀ k : ℤ, |(k / 100 : ℚ) - q| = |(h / 100 : ℚ) - q| → |k| ≤ |h|

theorem IsNearestHundredth.neg {h : ℤ} {q : ℚ} (hnear : IsNearestHundredth h q) : IsNearestHundredth (-h) (-q) := by
  have hdistance : ∀ k : ℤ, |(k / 100 : ℚ) - -q| = |((-k : ℤ) / 100 : ℚ) - q| := by
    intro k
    rw [← abs_neg]
    congr 1
    push_cast
    ring
  refine ⟨fun k => ?_, fun k heq => ?_⟩
  · rw [hdistance, hdistance, neg_neg]
    exact hnear.least (-k)
  · rw [hdistance, hdistance, neg_neg] at heq
    rw [abs_neg, ← abs_neg k]
    exact hnear.away (-k) heq

theorem isNearestHundredth_withSign_iff (negative : Bool) {h : ℤ} {q : ℚ} :
    IsNearestHundredth (withSign negative h) (withSign negative q) ↔ IsNearestHundredth h q := by
  cases negative with
  | false => rfl
  | true =>
    constructor
    · intro hnear
      have hback := IsNearestHundredth.neg hnear
      simp only [withSign, if_true, neg_neg] at hback
      exact hback
    · exact IsNearestHundredth.neg

/-- **The hundredth nearest to a number is known by the interval that the number lies in.** -/
theorem isNearestHundredth_iff {h : ℤ} {q : ℚ} (hq : 0 ≤ q) :
    IsNearestHundredth h q ↔ 2 * h - 1 ≤ 200 * q ∧ 200 * q < 2 * h + 1 := by
  constructor
  · intro hnear
    -- squares of distances from one number differ by something linear
    have habove := sq_le_sq.2 (hnear.least (h + 1))
    have hbelow := sq_le_sq.2 (hnear.least (h - 1))
    push_cast at habove hbelow
    have hlow : 2 * h - 1 ≤ 200 * q := by linarith
    have hhigh : 200 * q ≤ 2 * h + 1 := by linarith
    refine ⟨hlow, lt_of_le_of_ne hhigh fun heq => ?_⟩
    -- halfway the next hundredth is as near and farther from zero
    have hsame : |((h + 1 : ℤ) / 100 : ℚ) - q| = |(h / 100 : ℚ) - q| := by
      rw [← abs_neg]
      congr 1
      push_cast
      linarith
    have haway := hnear.away (h + 1) hsame
    have hnonneg : (0 : ℤ) ≤ 2 * h + 1 := by
      have hcast : (0 : ℚ) ≤ 2 * h + 1 := by linarith
      exact_mod_cast hcast
    rw [abs_of_nonneg (by omega), abs_of_nonneg (by omega)] at haway
    omega
  · rintro ⟨hlow, hhigh⟩
    have hdistance : |(h / 100 : ℚ) - q| ≤ 1 / 200 := by
      rw [abs_le]
      constructor <;> linarith
    have habove : ∀ k : ℤ, h < k → (1 / 200 : ℚ) < |(k / 100 : ℚ) - q| := by
      intro k hk
      have hcast : (h + 1 : ℚ) ≤ k := by exact_mod_cast hk
      rw [abs_of_nonneg (by linarith)]
      linarith
    have hbelow : ∀ k : ℤ, k < h → (1 / 200 : ℚ) ≤ q - k / 100 := by
      intro k hk
      have hcast : (k + 1 : ℚ) ≤ h := by exact_mod_cast hk
      linarith
    refine ⟨fun k => ?_, fun k heq => ?_⟩
    · rcases lt_trichotomy k h with hk | rfl | hk
      · have hfar := hbelow k hk
        rw [abs_sub_comm (k / 100 : ℚ), abs_of_nonneg (by linarith : (0 : ℚ) ≤ q - k / 100)]
        linarith
      · exact le_refl _
      · exact hdistance.trans (habove k hk).le
    · rcases lt_trichotomy k h with hk | rfl | hk
      · -- only the hundredth before is as near, and it is nearer to zero
        have hfar := hbelow k hk
        rw [abs_sub_comm, abs_of_nonneg (by linarith)] at heq
        have hnonneg : (-1 : ℚ) < k := by linarith
        have hk0 : (-1 : ℤ) < k := by exact_mod_cast hnonneg
        rw [abs_of_nonneg (by omega), abs_of_nonneg (by omega)]
        exact hk.le
      · exact le_refl _
      · have hfar := habove k hk
        rw [heq] at hfar
        linarith

theorem IsNearestHundredth.unique {h k : ℤ} {q : ℚ} (hq : 0 ≤ q) (hh : IsNearestHundredth h q)
    (hk : IsNearestHundredth k q) : h = k := by
  obtain ⟨hlow, hhigh⟩ := (isNearestHundredth_iff hq).1 hh
  obtain ⟨hlow', hhigh'⟩ := (isNearestHundredth_iff hq).1 hk
  have hle : 2 * h - 1 < 2 * k + 1 := by exact_mod_cast hlow.trans_lt hhigh'
  have hge : 2 * k - 1 < 2 * h + 1 := by exact_mod_cast hlow'.trans_lt hhigh
  omega

end Number
end Cognitive
