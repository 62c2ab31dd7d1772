import Cognitive.Report.Average
import Cognitive.Proofs.Number.Nearest
/-!
# The average score, against the exact mean

An average is rounded twice: the mean to a double, and that double to a hundredth.  The second rounding works on the
exact value of the first (`IsAverage`), so what it gives is the hundredth nearest to the mean itself unless a number
halfway between two hundredths separates the mean from its double (`isNearestHundredth_iff_not_tieBetween`).  While the
total of the scores is not too large, the only such number that the mean's double can be across is the mean
(`tieBetween_iff_of_near`).  `FileMetrics.average_nearest` says all of this.
-/
namespace Cognitive

open Number
open Number.Binary64

/-! ## Ties -/

/-- A number halfway between two hundredths. -/
def IsTie (q : ℚ) : Prop := ∃ k : ℤ, Odd k ∧ q = k / 200

/-- A tie lies above the smaller of two magnitudes and up to the greater. -/
def TieBetween (a b : ℚ) : Prop := ∃ z, IsTie z ∧ min |a| |b| < z ∧ z ≤ max |a| |b|

theorem isTie_withSign_iff (negative : Bool) {q : ℚ} : IsTie (withSign negative q) ↔ IsTie q := by
  have hneg : ∀ {q : ℚ}, IsTie q → IsTie (-q) := by
    rintro _ ⟨k, hodd, rfl⟩
    refine ⟨-k, hodd.neg, ?_⟩
    push_cast
    ring
  cases negative with
  | false => rfl
  | true => exact ⟨fun h => neg_neg q ▸ hneg h, hneg⟩

theorem tieBetween_withSign (negative : Bool) (a b : ℚ) :
    TieBetween (withSign negative a) (withSign negative b) ↔ TieBetween a b := by
  cases negative with
  | false => rfl
  | true => simp only [TieBetween, withSign, if_true, abs_neg]

/-- **Numbers have the same nearest hundredth exactly when no tie separates them.** -/
theorem isNearestHundredth_iff_not_tieBetween {h : ℤ} {a b : ℚ} (ha : 0 ≤ a) (hb : 0 ≤ b)
    (hnear : IsNearestHundredth h b) : IsNearestHundredth h a ↔ ¬TieBetween a b := by
  rw [isNearestHundredth_iff hb] at hnear
  rw [isNearestHundredth_iff ha, TieBetween, abs_of_nonneg ha, abs_of_nonneg hb]
  obtain ⟨hlow, hhigh⟩ := hnear
  constructor
  · rintro ⟨hlow', hhigh'⟩ ⟨_, ⟨k, hodd, rfl⟩, hmin, hmax⟩
    -- the only whole number strictly between the ends of the interval is even
    have hbelow : (2 * h - 1 : ℚ) < k := by
      rcases min_lt_iff.1 hmin with hmin | hmin <;> linarith
    have habove : (k : ℚ) < 2 * h + 1 := by
      rcases le_max_iff.1 hmax with hmax | hmax <;> linarith
    have hbelow : 2 * h - 1 < k := by exact_mod_cast hbelow
    have habove : k < 2 * h + 1 := by exact_mod_cast habove
    obtain ⟨j, hj⟩ := hodd
    omega
  · intro hnone
    constructor
    · by_contra hless
      have hodd : Odd (2 * h - 1) := ⟨h - 1, by ring⟩
      refine hnone ⟨_, ⟨2 * h - 1, hodd, rfl⟩, min_lt_iff.2 (.inl ?_), le_max_iff.2 (.inr ?_)⟩
      · push_cast
        linarith
      · push_cast
        linarith
    · by_contra hmore
      have hodd : Odd (2 * h + 1) := ⟨h, rfl⟩
      refine hnone ⟨_, ⟨2 * h + 1, hodd, rfl⟩, min_lt_iff.2 (.inr ?_), le_max_iff.2 (.inl ?_)⟩
      · push_cast
        linarith
      · push_cast
        linarith

/-- A fraction that is no tie is not too near to one. -/
theorem one_div_le_abs_tie_sub {z : ℚ} {t n : Nat} (hn : 0 < n) (hz : IsTie z) (hne : z ≠ t / n) :
    1 / (200 * n : ℚ) ≤ |z - t / n| := by
  obtain ⟨k, -, rfl⟩ := hz
  have hpos : (0 : ℚ) < 200 * n := by positivity
  have hquotient : (k / 200 - t / n : ℚ) = (k * n - 200 * t : ℤ) / (200 * n) := by
    push_cast
    field_simp
  have hapart : (k * n - 200 * t : ℤ) ≠ 0 := by
    intro h
    rw [h, Int.cast_zero, zero_div, sub_eq_zero] at hquotient
    exact hne hquotient
  have hone : (1 : ℚ) ≤ |((k * n - 200 * t : ℤ) : ℚ)| := by exact_mod_cast Int.one_le_abs hapart
  rw [hquotient, abs_div, abs_of_pos hpos]
  exact div_le_div_of_nonneg_right hone hpos.le

/-- **A tie separates a small fraction from its double only where the fraction is that tie.** -/
theorem tieBetween_iff_of_near {t n : Nat} {b : ℚ} (hn : 0 < n) (hb : 0 ≤ b)
    (hnear : |b - t / n| ≤ t / n / 2 ^ 53) (hsmall : 200 * t < 2 ^ 53) :
    TieBetween (t / n) b ↔ IsTie (t / n) ∧ b < t / n := by
  have hpos : (0 : ℚ) < n := Nat.cast_pos.2 hn
  have ha : (0 : ℚ) ≤ t / n := by positivity
  rw [TieBetween, abs_of_nonneg ha, abs_of_nonneg hb]
  constructor
  · rintro ⟨z, hz, hmin, hmax⟩
    have hwithin : |z - t / n| ≤ |b - t / n| := by
      rcases le_total b (t / n) with hba | hab
      · rw [min_eq_right hba] at hmin
        rw [max_eq_left hba] at hmax
        rw [abs_of_nonpos (by linarith), abs_of_nonpos (by linarith)]
        linarith
      · rw [min_eq_left hab] at hmin
        rw [max_eq_right hab] at hmax
        rw [abs_of_nonneg (by linarith), abs_of_nonneg (by linarith)]
        linarith
    have hsame : z = t / n := by
      by_contra hne
      have hfar := (one_div_le_abs_tie_sub hn hz hne).trans (hwithin.trans hnear)
      have hcast : (200 * t : ℚ) < 2 ^ 53 := by exact_mod_cast hsmall
      have hscaled := mul_lt_mul_of_pos_right hcast hpos
      rw [div_div, div_le_div_iff₀ (by positivity) (by positivity)] at hfar
      linarith
    subst hsame
    exact ⟨hz, (min_lt_iff.1 hmin).resolve_left (lt_irrefl _)⟩
  · rintro ⟨htie, hless⟩
    exact ⟨t / n, htie, min_lt_iff.2 (.inr hless), le_max_left _ _⟩

/-! ## The two roundings -/

-- powers this large are not to be computed
attribute [local irreducible] Binary64.one Binary64.limit

theorem isNearestHundredth_atPlaces (u : Nat) :
    IsNearestHundredth (atPlaces .away 2 u Binary64.one) (u / Binary64.one) := by
  have hone : (0 : ℚ) < Binary64.one := Nat.cast_pos.2 Binary64.one_pos
  obtain ⟨hlow, hhigh⟩ := roundQuotient_away (u * Nat.pow 10 2) Binary64.one_pos
  have hlow : (2 * atPlaces .away 2 u Binary64.one * Binary64.one : ℚ) ≤ 2 * (u * 10 ^ 2) + Binary64.one := by
    exact_mod_cast hlow
  have hhigh : (2 * (u * 10 ^ 2) : ℚ) < (2 * atPlaces .away 2 u Binary64.one + 1) * Binary64.one := by
    exact_mod_cast hhigh
  rw [isNearestHundredth_iff (by positivity), mul_div_assoc', le_div_iff₀ hone, div_lt_iff₀ hone]
  push_cast
  constructor <;> linarith

theorem quotient_eq_withSign (t : Int) (n : Nat) : (t / n : ℚ) = withSign (decide (t < 0)) (t.natAbs / n : ℚ) := by
  rw [Nat.cast_natAbs, Int.cast_abs]
  by_cases ht : t < 0
  · rw [decide_eq_true ht, abs_of_neg (Int.cast_lt_zero.2 ht), neg_div]
    exact (neg_neg _).symm
  · rw [decide_eq_false ht, abs_of_nonneg (Int.cast_nonneg (not_lt.1 ht))]
    rfl

theorem intCast_withSign_div (negative : Bool) (r : Nat) (d : ℚ) :
    ((withSign negative (r : ℤ) : ℤ) / d : ℚ) = withSign negative (r / d) := by
  cases negative with
  | false => exact congrArg (· / d) (Int.cast_natCast r)
  | true =>
    simp only [withSign, if_true]
    push_cast
    exact neg_div d r

theorem meanOf_eq {t : Int} {n : Nat} (hn : 0 < n) (ht : t.natAbs < 2 ^ 53) :
    meanOf t n = .finite (decide (t < 0)) (nearestUnits (t.natAbs * Binary64.one) n) ∧
      (meanOf t n).IsNearest (t / n) := by
  have hsize : t.natAbs ≤ 2 ^ 200 * n := by
    calc t.natAbs ≤ 2 ^ 53 * 1 := ht.le
      _ ≤ 2 ^ 200 * n := Nat.mul_le_mul (by decide) hn
  have hfinite := isFinite_ofRatio (decide (t < 0)) hn hsize
  rw [quotient_eq_withSign]
  exact ⟨ofRatio_eq_of_finite hfinite, isNearest_ofRatio _ hn hfinite⟩

/-- Few means are so near to zero that doubles are equally spaced there. -/
theorem abs_meanUnits_sub_le (t : Nat) {n : Nat} (hn : 0 < n) (hcount : n < 2 ^ 53) :
    |(nearestUnits (t * Binary64.one) n / Binary64.one : ℚ) - t / n| ≤ t / n / 2 ^ 53 := by
  rw [← value_finite]
  by_cases ht : t = 0
  · subst ht
    have hzero := nearestUnits_value_least (n := 0) hn (dvd_zero (step 0))
    rw [value_zero] at hzero
    simpa using hzero
  · apply abs_nearestUnits_sub_le hn
    rw [Nat.le_div_iff_mul_le hn]
    calc 2 ^ 52 * n ≤ 2 ^ 52 * 2 ^ 53 := Nat.mul_le_mul_left _ hcount.le
      _ ≤ Binary64.one := by decide +kernel
      _ ≤ t * Binary64.one := Nat.le_mul_of_pos_left _ (Nat.pos_of_ne_zero ht)

theorem meanUnits_le {t n : Nat} (hn : 0 < n) (ht : t < 2 ^ 53) (hcount : n < 2 ^ 53) :
    (nearestUnits (t * Binary64.one) n / Binary64.one : ℚ) ≤ 2 ^ 54 := by
  have hquotient : (t / n : ℚ) ≤ 2 ^ 53 := by
    refine (div_le_self (Nat.cast_nonneg t) (Nat.one_le_cast.2 hn)).trans ?_
    exact_mod_cast ht.le
  have habove := (abs_le.1 (abs_meanUnits_sub_le t hn hcount)).2
  linarith

/-- A mean that is not too large has few enough digits to be rounded to two places. -/
theorem roundAverage_finite (negative : Bool) {u : Nat} (hu : (u / Binary64.one : ℚ) ≤ 2 ^ 54) :
    ∃ average, roundAverage (.finite negative u) = .ok average ∧
      average.IsNearest ((withSign negative (atPlaces .away 2 u Binary64.one : ℤ) : ℤ) / 100) := by
  have hone : (0 : ℚ) < Binary64.one := Nat.cast_pos.2 Binary64.one_pos
  have hbound : atPlaces .away 2 u Binary64.one < 10 ^ 19 := by
    have hnear := ((isNearestHundredth_iff (by positivity)).1 (isNearestHundredth_atPlaces u)).1
    have hcast : (atPlaces .away 2 u Binary64.one : ℚ) < 10 ^ 19 := by
      push_cast at hnear
      linarith
    exact_mod_cast hcast
  have hdigits : digitCount (atPlaces .away 2 u Binary64.one) ≤ averageDigits := by
    rw [digitCount, Nat.length_toDigits_le_iff (by decide) (by decide)]
    exact hbound.trans (by decide)
  have hfinite := isFinite_ofRatio (n := atPlaces .away 2 u Binary64.one) negative (d := 100) (by decide) (by omega)
  refine ⟨_, if_neg (not_lt.2 hdigits), ?_⟩
  have hnearest := isNearest_ofRatio negative (by decide) hfinite
  rw [Nat.cast_ofNat] at hnearest
  rw [intCast_withSign_div]
  exact hnearest

namespace FileMetrics

/-- The mean of the scores. -/
def exactMean (m : FileMetrics) : ℚ := m.totalComplexity / m.functionCount

/-- What an average is: the double nearest to the hundredth that is nearest to the double nearest to the mean. -/
structure IsAverage (m : FileMetrics) (mean : Binary64) (hundredth : ℤ) (average : Binary64) : Prop where
  nearestMean : mean.IsNearest m.exactMean
  nearestHundredth : IsNearestHundredth hundredth mean.value
  nearest : average.IsNearest (hundredth / 100)

/-- **An average is rounded twice, and mostly that is the nearest hundredth.**  It is the hundredth nearest to the mean
exactly unless a tie separates the mean from its double.  While the total is not too large, that is so only for a mean
that is a tie, and only if its double is nearer to zero. -/
theorem average_nearest (m : FileMetrics) (hne : m.functions ≠ []) (htotal : m.totalComplexity.natAbs < 2 ^ 53)
    (hcount : m.functionCount < 2 ^ 53) :
    ∃ mean hundredth average, m.IsAverage mean hundredth average ∧ m.average = .ok average ∧
      (IsNearestHundredth hundredth m.exactMean ↔ ¬TieBetween m.exactMean mean.value) ∧
      (200 * m.totalComplexity.natAbs < 2 ^ 53 →
        (TieBetween m.exactMean mean.value ↔ IsTie m.exactMean ∧ |mean.value| < |m.exactMean|)) := by
  have hn : 0 < m.functionCount := List.length_pos_iff.2 hne
  obtain ⟨hmean, hnearest⟩ := meanOf_eq hn htotal
  rw [hmean] at hnearest
  have hexact : m.exactMean = withSign _ _ := quotient_eq_withSign m.totalComplexity m.functionCount
  have hnear := abs_meanUnits_sub_le m.totalComplexity.natAbs hn hcount
  have hlarge := meanUnits_le hn htotal hcount
  set negative := decide (m.totalComplexity < 0)
  set units := nearestUnits (m.totalComplexity.natAbs * Binary64.one) m.functionCount
  obtain ⟨average, haverage, hrounded⟩ := roundAverage_finite negative hlarge
  have hq : (0 : ℚ) ≤ m.totalComplexity.natAbs / m.functionCount := by positivity
  have hv : (0 : ℚ) ≤ units / Binary64.one := by positivity
  have hhundredth := isNearestHundredth_atPlaces units
  refine ⟨.finite negative units, withSign negative (atPlaces .away 2 units Binary64.one : ℤ), average,
    ⟨hnearest, ?_, hrounded⟩, ?_, ?_, ?_⟩
  · rw [value_withSign]
    exact (isNearestHundredth_withSign_iff negative).2 hhundredth
  · have hsome : ¬m.functions.isEmpty = true := fun h => hne (List.isEmpty_iff.1 h)
    rw [FileMetrics.average, if_neg hsome, hmean, haverage]
  · rw [hexact, value_withSign, isNearestHundredth_withSign_iff, tieBetween_withSign]
    exact isNearestHundredth_iff_not_tieBetween hq hv hhundredth
  · intro hsmall
    rw [hexact, value_withSign, tieBetween_withSign, isTie_withSign_iff, abs_withSign _ hq, abs_withSign _ hv]
    exact tieBetween_iff_of_near hn hv hnear hsmall

/-- A file with functions of score one and functions of score zero. -/
def ofScores (ones zeros : Nat) : FileMetrics where
  totalLines := 10
  nonBlankLines := 8
  functions := List.replicate ones ⟨"f", 1, 1, none, none⟩ ++ List.replicate zeros ⟨"f", 1, 0, none, none⟩

theorem average_nearest_eighth :
    (ofScores 1 7).functions ≠ [] ∧ (ofScores 1 7).totalComplexity.natAbs < 2 ^ 53 ∧
      (ofScores 1 7).functionCount < 2 ^ 53 ∧
      ∃ average, (ofScores 1 7).average = .ok average ∧ average.IsNearest (13 / 100) := by
  have hne : (ofScores 1 7).functions ≠ [] := by decide
  have htotal : (ofScores 1 7).totalComplexity.natAbs < 2 ^ 53 := by decide
  have hcount : (ofScores 1 7).functionCount < 2 ^ 53 := by decide
  obtain ⟨mean, hundredth, average, hthe, haverage, hsame, hties⟩ := average_nearest (ofScores 1 7) hne htotal hcount
  have hexact : (ofScores 1 7).exactMean = 1 / 8 := by
    have ht : (ofScores 1 7).totalComplexity = 1 := by decide
    have hn : (ofScores 1 7).functionCount = 8 := by decide
    rw [exactMean, ht, hn, Int.cast_one, Nat.cast_ofNat]
  rw [hexact] at hsame hties
  -- the mean is a double itself
  have hmean : mean.value = 1 / 8 := by
    obtain ⟨u, heighth, hu⟩ : ∃ u, ofRatio false 1 8 = .finite false u ∧ u * 8 = Binary64.one :=
      ⟨Nat.pow 2 1071, by decide +kernel, by decide +kernel⟩
    have hone : (Binary64.one : ℚ) ≠ 0 := Nat.cast_ne_zero.2 one_pos.ne'
    have hvalue : (finite false u).value = 1 / 8 := by
      rw [value_finite, div_eq_div_iff hone (by decide), one_mul]
      exact_mod_cast hu
    have hnearest := hthe.nearestMean
    rw [hexact, ← hvalue] at hnearest
    exact (hnearest.value_eq rfl (heighth ▸ isDouble_ofRatio false 1 (by decide))).trans hvalue
  have hhundredth : hundredth = 13 := by
    rw [hties (by decide), hmean] at hsame
    refine IsNearestHundredth.unique (by norm_num) (hsame.2 fun h => lt_irrefl _ h.2) ?_
    exact (isNearestHundredth_iff (by norm_num)).2 (by norm_num)
  have hnearest := hthe.nearest
  rw [hhundredth] at hnearest
  exact ⟨hne, htotal, hcount, average, haverage, hnearest⟩

/-- Three fortieths lie halfway between 0.07 and 0.08, and their double is below. -/
theorem average_three_fortieths :
    (ofScores 3 37).functions ≠ [] ∧ (ofScores 3 37).totalComplexity.natAbs < 2 ^ 53 ∧
      (ofScores 3 37).functionCount < 2 ^ 53 ∧
      ¬∃ hundredth average, IsNearestHundredth hundredth (ofScores 3 37).exactMean ∧
        (ofScores 3 37).average = .ok average ∧ average.IsNearest (hundredth / 100) := by
  have haverage : (ofScores 3 37).average = .ok (.ofRatio false 7 100) := by decide +kernel
  refine ⟨by decide, by decide, by decide, ?_⟩
  rintro ⟨hundredth, average, hnear, hok, hnearest⟩
  have hexact : (ofScores 3 37).exactMean = 3 / 40 := by
    have ht : (ofScores 3 37).totalComplexity = 3 := by decide
    have hn : (ofScores 3 37).functionCount = 40 := by decide
    rw [exactMean, ht, hn, Int.cast_ofNat, Nat.cast_ofNat]
  have hhundredth : hundredth = 8 := by
    rw [hexact] at hnear
    exact hnear.unique (by norm_num) ((isNearestHundredth_iff (by norm_num)).2 (by norm_num))
  have hround : ∀ k : Nat, k ≤ 8 → |(ofRatio false k 100).value - (k / 100 : ℚ)| ≤ k / 100 / 2 ^ 53 := by
    intro k hk
    have hfinite := isFinite_ofRatio (n := k) false (d := 100) (by decide) (by omega)
    rw [ofRatio_eq_of_finite hfinite, value_finite]
    exact_mod_cast abs_meanUnits_sub_le k (n := 100) (by decide) (by decide)
  -- the double of 0.08 is nearer to 0.08 than the average is
  have hseven := abs_le.1 (hround 7 (by decide))
  have height := hround 8 (by decide)
  have hleast := hnearest.least (.ofRatio false 8 100) (by decide +kernel) (isDouble_ofRatio _ _ (by decide))
  rw [← Except.ok.inj (haverage.symm.trans hok), hhundredth, Int.cast_ofNat] at hleast
  rw [Nat.cast_ofNat] at hseven height
  have hfar := abs_le.1 (hleast.trans height)
  linarith

end FileMetrics

end Cognitive
