import Cognitive.Number.Binary64
import Mathlib
/-!
# Doubles times a power of two

Rounding gives a count of units that a double can have (`Binary64.step_dvd_nearestUnits`), so every decimal is read as a
double.  Such a count is not rounded again (`Binary64.nearestUnits_of_dvd`), and times a power of two it is one that a
double can have too (`Binary64.step_mul_two_pow_dvd`).  So whole numbers of at most 53 bits are doubles as they are
(`Binary64.ofInt_of_natAbs_le`) and in their order (`Binary64.le_ofInt`).  The bytes of a size in mebibytes are exact up
to where doubles end (`Binary64.isFinite_mebibytes_iff`), and they are no number only when the size is none.
-/
namespace Cognitive
namespace Number
namespace Binary64

theorem one_eq : one = 2 ^ 1074 := by decide +kernel

theorem limit_eq_two_pow : limit = 2 ^ 2098 := by decide +kernel

theorem one_pos : 0 < one := by
  rw [one_eq]
  exact pow_pos (by decide) 1074

theorem two_pow_mul_one_lt_limit {k : Nat} (hk : k < 1024) : 2 ^ k * one < limit := by
  rw [one_eq, limit_eq_two_pow, ← pow_add]
  exact pow_lt_pow_right₀ (by decide) (by omega)

/-- **A number that fits a double**: at most 53 significant bits, and not as large as an infinity. -/
inductive IsDouble : Binary64 → Prop where
  | finite {negative : Bool} {units : Nat} (digits : step units ∣ units) (below : units < limit) :
    IsDouble (.finite negative units)
  | infinite {negative : Bool} : IsDouble (.infinite negative)
  | nan : IsDouble .nan

theorem nearestUnits_of_dvd {units d : Nat} (hd : 0 < d) (h : step units ∣ units) :
    nearestUnits (units * d) d = units := by
  obtain ⟨q, hq⟩ := h
  have hscaled : units * d = q * (d * step units) := by
    conv => lhs; rw [hq]
    ring
  unfold nearestUnits
  simp only [Nat.mul_div_cancel _ hd]
  rw [hscaled, roundQuotient_mul _ _ _ (Nat.mul_pos hd (step_pos units)), mul_comm, ← hq]

theorem log2_mul_two_pow {units : Nat} (k : Nat) (hu : units ≠ 0) : (units * 2 ^ k).log2 = units.log2 + k := by
  have hne : units * 2 ^ k ≠ 0 := Nat.mul_ne_zero hu (Nat.two_pow_pos k).ne'
  rw [Nat.log2_eq_iff hne, Nat.add_right_comm, pow_add, pow_add]
  exact ⟨Nat.mul_le_mul_right _ (Nat.log2_self_le hu),
    Nat.mul_lt_mul_of_pos_right Nat.lt_log2_self (Nat.two_pow_pos k)⟩

theorem step_mul_two_pow_dvd {units : Nat} (k : Nat) (h : step units ∣ units) :
    step (units * 2 ^ k) ∣ units * 2 ^ k := by
  by_cases hu : units = 0
  · subst hu
    rw [Nat.zero_mul]
    exact dvd_zero _
  · have hlog := log2_mul_two_pow k hu
    have hstep : ∀ n, step n = 2 ^ (n.log2 - 52) := fun n => rfl
    rw [hstep] at h ⊢
    rw [hlog]
    by_cases hlarge : 52 ≤ units.log2
    · rw [Nat.sub_add_comm hlarge, pow_add]
      exact Nat.mul_dvd_mul_right h _
    · -- the last digit is worth no more than the power itself
      have hsmall : units.log2 + k - 52 ≤ k := by omega
      exact dvd_mul_of_dvd_right (pow_dvd_pow 2 hsmall) units

/-! ## What rounding gives -/

theorem step_dvd_of_le {units : Nat} (h : units ≤ 2 ^ 53) : step units ∣ units := by
  have hstep : step units = 2 ^ (units.log2 - 52) := rfl
  by_cases hu : units = 2 ^ 53
  · rw [hstep, hu, Nat.log2_two_pow]
    exact pow_dvd_pow 2 (by omega)
  · have hlog : units.log2 ≤ 52 := by
      by_cases hz : units = 0
      · subst hz
        decide
      · exact Nat.lt_succ_iff.1 ((Nat.log2_lt hz).2 (lt_of_le_of_ne h hu))
    rw [hstep, Nat.sub_eq_zero_of_le hlog]
    exact one_dvd _

/-- A quotient over the step around it has at most 53 bits when it is rounded. -/
theorem roundQuotient_step_le (n : Nat) {d : Nat} (hd : 0 < d) :
    roundQuotient .toEven n (d * step (n / d)) ≤ 2 ^ 53 := by
  have hs := step_pos (n / d)
  have hstep : step (n / d) = 2 ^ ((n / d).log2 - 52) := rfl
  have hquotient : n < d * (2 ^ 53 * step (n / d)) := by
    have hlog : n / d < 2 ^ ((n / d).log2 + 1) := Nat.lt_log2_self
    have hpow : 2 ^ ((n / d).log2 + 1) ≤ 2 ^ 53 * step (n / d) := by
      rw [hstep, ← pow_add]
      exact Nat.pow_le_pow_right (by decide) (by omega)
    exact (Nat.div_lt_iff_lt_mul hd).1 (hlog.trans_le hpow) |>.trans_eq (mul_comm _ _)
  have hnear := (roundQuotient_near .toEven n (d * step (n / d)) (Nat.mul_pos hd hs)).2
  have hdouble : 2 * roundQuotient .toEven n (d * step (n / d)) * (d * step (n / d)) <
      (2 * 2 ^ 53 + 1) * (d * step (n / d)) := by
    rw [Nat.mul_left_comm] at hquotient
    refine hnear.trans_lt ?_
    rw [Nat.add_mul, Nat.one_mul, Nat.mul_assoc]
    omega
  have hless := Nat.lt_of_mul_lt_mul_right hdouble
  omega

/-- **Rounded counts of units are counts that a double can have.** -/
theorem step_dvd_nearestUnits (n : Nat) {d : Nat} (hd : 0 < d) : step (nearestUnits n d) ∣ nearestUnits n d := by
  unfold nearestUnits
  exact step_mul_two_pow_dvd _ (step_dvd_of_le (roundQuotient_step_le n hd))

theorem isDouble_ofUnits (negative : Bool) (n : Nat) {d : Nat} (hd : 0 < d) : (ofUnits negative n d).IsDouble := by
  unfold ofUnits
  simp only
  split
  · next h => exact .finite (step_dvd_nearestUnits n hd) h
  · exact .infinite

theorem isDouble_ofRatio (negative : Bool) (n : Nat) {d : Nat} (hd : 0 < d) : (ofRatio negative n d).IsDouble :=
  isDouble_ofUnits negative (n * one) hd

/-- **Every decimal is read as a double.** -/
theorem isDouble_ofDecimal (negative : Bool) (digits : Nat) (exponent : Int) :
    (ofDecimal negative digits exponent).IsDouble := by
  have hzero : (finite negative 0).IsDouble := by
    refine .finite (dvd_zero _) ?_
    rw [limit_eq_two_pow]
    exact pow_pos (by decide) 2098
  unfold ofDecimal
  split
  · exact hzero
  · split
    · exact .infinite
    · split
      · exact hzero
      · split
        · exact isDouble_ofRatio negative _ Nat.one_pos
        · exact isDouble_ofRatio negative _ (Nat.pow_pos (by decide))

/-! ## Whole numbers -/

/-- **Whole numbers of at most 53 bits are doubles as they are.** -/
theorem ofInt_of_natAbs_le {n : Int} (h : n.natAbs ≤ 2 ^ 53) : ofInt n = .finite (decide (n < 0)) (n.natAbs * one) := by
  have hdigits : step (n.natAbs * one) ∣ n.natAbs * one := by
    rw [one_eq]
    exact step_mul_two_pow_dvd 1074 (step_dvd_of_le h)
  have hbelow : n.natAbs * one < limit := by
    calc n.natAbs * one ≤ 2 ^ 53 * one := Nat.mul_le_mul_right _ h
      _ < limit := two_pow_mul_one_lt_limit (by decide)
  have hunits := nearestUnits_of_dvd Nat.one_pos hdigits
  rw [Nat.mul_one] at hunits
  rw [ofInt, ofRatio, ofUnits, hunits, if_pos hbelow]

theorem signedUnits_ofInt {n : Int} (h : n.natAbs ≤ 2 ^ 53) : (ofInt n).signedUnits = n * one := by
  rw [ofInt_of_natAbs_le h]
  by_cases hn : n < 0
  · rw [decide_eq_true hn, signedUnits, Nat.cast_mul, Int.ofNat_natAbs_of_nonpos hn.le, Int.neg_mul, Int.neg_neg]
  · rw [decide_eq_false hn, signedUnits, Nat.cast_mul, Int.natAbs_of_nonneg (not_lt.1 hn)]

theorem truncate?_ofInt {n : Int} (h : n.natAbs ≤ 2 ^ 53) : (ofInt n).truncate? = some n := by
  have hunits := signedUnits_ofInt h
  rw [ofInt_of_natAbs_le h] at hunits ⊢
  rw [truncate?, hunits, Int.mul_tdiv_cancel _ (Int.natCast_ne_zero.2 one_pos.ne')]

/-- Whole numbers of at most 53 bits are in order as doubles. -/
theorem le_ofInt {a b : Int} (ha : a.natAbs ≤ 2 ^ 53) (hb : b.natAbs ≤ 2 ^ 53) :
    le (ofInt a) (ofInt b) = decide (a ≤ b) := by
  have hone : (0 : Int) < one := Int.natCast_pos.2 one_pos
  have hunits := signedUnits_ofInt ha
  have hunits' := signedUnits_ofInt hb
  rw [ofInt_of_natAbs_le ha] at hunits ⊢
  rw [ofInt_of_natAbs_le hb] at hunits' ⊢
  simp only [le, lt, hunits, hunits', Int.mul_lt_mul_right hone]
  by_cases hab : a ≤ b
  · simp [hab]
  · simp [hab, not_le.1 hab]

/-! ## Mebibytes -/

theorem ofInt_1024 : ofInt 1024 = .finite false (2 ^ 10 * one) := by
  have hsize : (1024 : Int).natAbs = 2 ^ 10 := by decide
  rw [ofInt_of_natAbs_le (by decide), hsize, decide_eq_false (by decide)]

/-- The bytes of a size in mebibytes. -/
def mebibytes (x : Binary64) : Binary64 := (x.mul (.ofInt 1024)).mul (.ofInt 1024)

theorem ofUnits_ne_nan (negative : Bool) (n d : Nat) : ofUnits negative n d ≠ .nan := by
  unfold ofUnits
  simp only
  split <;> exact nofun

theorem kibi_ne_zero : 2 ^ 10 * one ≠ 0 := Nat.mul_ne_zero (by decide) one_pos.ne'

theorem mul_1024_eq_nan_iff {x : Binary64} : x.mul (.ofInt 1024) = .nan ↔ x = .nan := by
  rw [ofInt_1024]
  cases x with
  | finite s u =>
    rw [mul]
    exact iff_of_false (ofUnits_ne_nan _ _ _) nofun
  | infinite s =>
    rw [mul, if_neg kibi_ne_zero]
    exact iff_of_false nofun nofun
  | nan => exact iff_of_true rfl rfl

theorem mebibytes_eq_nan_iff {x : Binary64} : x.mebibytes = .nan ↔ x = .nan := by
  rw [mebibytes, mul_1024_eq_nan_iff, mul_1024_eq_nan_iff]

theorem mul_1024_of_dvd {negative : Bool} {units : Nat} (h : step units ∣ units) :
    (finite negative units).mul (.ofInt 1024) =
      if units * 2 ^ 10 < limit then .finite negative (units * 2 ^ 10) else .infinite negative := by
  have hunits : nearestUnits (units * (2 ^ 10 * one)) one = units * 2 ^ 10 := by
    rw [← mul_assoc]
    exact nearestUnits_of_dvd one_pos (step_mul_two_pow_dvd 10 h)
  rw [ofInt_1024, mul, ofUnits, hunits, Bool.bne_false]

theorem infinite_mul_1024 (negative : Bool) : (infinite negative).mul (.ofInt 1024) = .infinite negative := by
  rw [ofInt_1024, mul, if_neg kibi_ne_zero, Bool.bne_false]

/-- The least size in mebibytes that has too many bytes for a double: 2 ^ 1004. -/
def sizeLimit : Nat := Nat.pow 2 1004

theorem limit_eq : limit = sizeLimit * one * 2 ^ 10 * 2 ^ 10 := by
  have hsize : sizeLimit = 2 ^ 1004 := by decide +kernel
  rw [hsize, one_eq, limit_eq_two_pow, ← pow_add, ← pow_add, ← pow_add]

/-- **The bytes of a positive size are finite exactly for what lies below the limit of sizes.** -/
theorem isFinite_mebibytes_iff {x : Binary64} (hx : x.IsDouble) (hpos : x.leInt 0 = false) :
    x.mebibytes.isFinite = true ↔ x.ltInt sizeLimit = true := by
  cases hx with
  | nan => exact iff_of_false nofun nofun
  | @infinite negative =>
    cases negative with
    | true => cases hpos
    | false =>
      rw [mebibytes, infinite_mul_1024, infinite_mul_1024]
      exact iff_of_false nofun nofun
  | @finite negative units hdigits =>
    have hpositive : negative = false := by
      cases negative with
      | false => rfl
      | true =>
        rw [leInt, Int.zero_mul, decide_eq_false_iff_not] at hpos
        exact absurd (Int.neg_nonpos_of_nonneg (Int.natCast_nonneg units)) hpos
    subst hpositive
    have hbelow : (finite false units).ltInt sizeLimit = true ↔ units * 2 ^ 10 * 2 ^ 10 < limit := by
      rw [limit_eq, Nat.mul_lt_mul_right (Nat.two_pow_pos 10), Nat.mul_lt_mul_right (Nat.two_pow_pos 10), ltInt,
        decide_eq_true_iff, signedUnits, ← Nat.cast_mul, Nat.cast_lt]
    rw [hbelow, mebibytes, mul_1024_of_dvd hdigits]
    by_cases hkibi : units * 2 ^ 10 < limit
    · rw [if_pos hkibi, mul_1024_of_dvd (step_mul_two_pow_dvd 10 hdigits)]
      by_cases hmebi : units * 2 ^ 10 * 2 ^ 10 < limit
      · rw [if_pos hmebi]
        exact iff_of_true rfl hmebi
      · rw [if_neg hmebi]
        exact iff_of_false nofun hmebi
    · rw [if_neg hkibi, infinite_mul_1024]
      have hmore : units * 2 ^ 10 ≤ units * 2 ^ 10 * 2 ^ 10 := Nat.le_mul_of_pos_right _ (Nat.two_pow_pos 10)
      exact iff_of_false nofun fun h => hkibi (lt_of_le_of_lt hmore h)

end Binary64
end Number
end Cognitive
