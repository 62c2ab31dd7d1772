import Cognitive.Metrics.Record
/-!
# The average score

The average of a file's scores is their mean as a double, and then the two-place number nearest to the exact value of
that double, halves going away from zero, again as a double.  The sign of a mean that rounds to zero is kept.
-/
namespace Cognitive

open Number

def averageDigits : Nat := 28

/-- A mean rounded to two places, halves away from zero. -/
def roundAverage : Binary64 → Outcome Binary64
  | .finite s u =>
    let hundredths := atPlaces .away 2 u Binary64.one
    if averageDigits < digitCount hundredths then breakDown .averageTooLong
    else .ok (.ofRatio s hundredths 100)
  | _ => breakDown .quotientTooLarge

/-- The quotient of a total and a positive count as a double. -/
def meanOf (total : Int) (count : Nat) : Binary64 := .ofRatio (decide (total < 0)) total.natAbs count

/-- The average of the scores; zero for a file without functions. -/
def FileMetrics.average (m : FileMetrics) : Outcome Binary64 :=
  if m.functions.isEmpty then .ok .zero else roundAverage (meanOf m.totalComplexity m.functionCount)

end Cognitive
