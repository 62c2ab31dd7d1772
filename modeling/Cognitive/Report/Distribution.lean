import Cognitive.Metrics.Record
/-!
# The distribution of scores

Over all functions of a batch: the mean, the median and the ninetieth percentile of their scores as doubles, the
greatest score, and the functions with the greatest scores.  Sums are taken in blocks: long lists are halved, and a
block is summed in eight lanes, so that rounding errors stay small.  A percentile between two scores lies on the line
between them.  The ranking is stable: equal scores keep the order in which the functions were found.
-/
namespace Cognitive

open Number

namespace Distribution

/-- The sum of some doubles and a first one, from left to right. -/
def sumFrom (first : Binary64) (xs : List Binary64) : Binary64 := xs.foldl Binary64.add first

/-- Adds items to the lanes, one to each, while there are enough for all lanes; gives the items left over too. -/
def fillLanes (lanes xs : List Binary64) : List Binary64 × List Binary64 :=
  if 8 ≤ xs.length then fillLanes (List.zipWith Binary64.add lanes (xs.take 8)) (xs.drop 8) else (lanes, xs)
termination_by xs.length
decreasing_by
  simp only [List.length_drop]
  omega

def pairSums : List Binary64 → List Binary64
  | x :: y :: rest => x.add y :: pairSums rest
  | rest => rest

def blockSum (xs : List Binary64) : Binary64 :=
  if xs.length < 8 then sumFrom .zero xs
  else
    let (lanes, rest) := fillLanes (xs.take 8) (xs.drop 8)
    sumFrom ((pairSums (pairSums (pairSums lanes))).headD .zero) rest

def blockSize : Nat := 128

/-- Where a long list is halved: at a multiple of eight. -/
def middle (n : Nat) : Nat := n / 2 - n / 2 % 8

/-- The sum of a list: of its two halves when it is long. -/
def sum (xs : List Binary64) : Binary64 :=
  if _fits : xs.length ≤ blockSize then blockSum xs
  else (sum (xs.take (middle xs.length))).add (sum (xs.drop (middle xs.length)))
termination_by xs.length
decreasing_by
  · simp only [blockSize, List.length_take, middle] at _fits ⊢
    omega
  · simp only [blockSize, List.length_drop, middle] at _fits ⊢
    omega

def mean (xs : List Binary64) : Binary64 := (Binary64.zero.add (sum xs)).divNat xs.length

def item (sorted : List Binary64) (i : Nat) : Binary64 := sorted[i]?.getD .zero

/-- The item in the middle of a sorted list, or half the sum of the two there. -/
def median (sorted : List Binary64) : Binary64 :=
  let n := sorted.length
  if n % 2 = 1 then item sorted (n / 2)
  else ((item sorted (n / 2 - 1)).add (item sorted (n / 2))).divNat 2

/-- The point between two numbers at some part of the way, reckoned from the nearer one. -/
def between (a b part : Binary64) : Binary64 :=
  let way := b.sub a
  if Binary64.le (.ofRatio false 1 2) part then b.sub (way.mul ((Binary64.ofInt 1).sub part)) else a.add (way.mul part)

def nineTenths : Binary64 := .ofRatio false 9 10

/-- The number that nine tenths of a sorted list lie below. -/
def ninetieth (sorted : List Binary64) : Binary64 :=
  let last := sorted.length - 1
  let position := (Binary64.ofInt last).mul nineTenths
  let i := (position.truncate?.getD 0).toNat
  if last ≤ i then item sorted last
  else between (item sorted i) (item sorted (i + 1)) (position.sub (.ofInt i))

end Distribution

/-- A function and the file it is in. -/
structure Spot where
  fileName : String
  name : String
  complexity : Int
  startLine : Option Int
deriving DecidableEq, Repr

/-- The figures of a batch. -/
structure Statistics where
  fileCount : Nat
  failedCount : Nat
  functionCount : Nat
  totalLines : Int
  nonBlankLines : Int
  mean : Binary64
  median : Binary64
  ninetieth : Binary64
  greatest : Int
  hotspots : List Spot
deriving Repr

namespace FileResult

def spots (r : FileResult) : List Spot :=
  match r.metrics? with
  | some m => m.functions.map fun f => ⟨r.fileName, f.name, f.complexity, f.startLine⟩
  | none => []

end FileResult

def scoreAsDouble (n : Int) : Outcome Binary64 :=
  let x := Binary64.ofInt n
  if x.isFinite then .ok x else breakDown .wholeTooLarge

/-- The functions from the greatest score down; equal scores keep their order. -/
def rank (spots : List Spot) : List Spot := spots.mergeSort fun a b => decide (b.complexity ≤ a.complexity)

/-- So many items from the front; a negative number leaves out so many at the end. -/
def takeTop {α : Type} (top : Int) (items : List α) : List α :=
  if 0 ≤ top then items.take top.toNat else items.take (items.length - top.natAbs)

namespace Summary

/-- All functions of the batch, in the order in which they were found. -/
def spots (s : Summary) : List Spot := s.results.flatMap FileResult.spots

def measured (s : Summary) : List FileMetrics := s.results.filterMap FileResult.metrics?

/-- The figures of the batch, all zero where there is no function. -/
def statistics (s : Summary) (top : Int) : Outcome Statistics := do
  let spots := s.spots
  let base : Statistics := {
    fileCount := s.results.length
    failedCount := s.failures.length
    functionCount := spots.length
    totalLines := (s.measured.map (·.totalLines)).foldr (· + ·) 0
    nonBlankLines := (s.measured.map (·.nonBlankLines)).foldr (· + ·) 0
    mean := .zero
    median := .zero
    ninetieth := .zero
    greatest := 0
    hotspots := [] }
  if spots.isEmpty then return base
  let scores ← spots.mapM fun spot => scoreAsDouble spot.complexity
  let sorted := scores.mergeSort Binary64.le
  return { base with
    mean := (Distribution.mean scores).roundPlaces 2
    median := Distribution.median sorted
    ninetieth := (Distribution.ninetieth sorted).roundPlaces 2
    greatest := ((sorted.getLast?.getD .zero).truncate?).getD 0
    hotspots := takeTop top (rank spots) }

end Summary
end Cognitive
