import Cognitive.Proofs.Number.Scaled
import Cognitive.Proofs.Outcome
import Cognitive.Report.Distribution
/-!
# Hot spots

The hot spots of a batch are the top of a stable ranking.  A merge sort that is stable keeps whatever order the list had
among equals (`pairwise_mergeSort_stable`), so the functions are ranked by their scores and then by where they were
found (`Summary.isTop_ranked`).  The greatest score comes from a sort of doubles, which order scores of at most 53 bits
as whole numbers do; it is the score of the first hot spot (`Summary.greatestOf_eq`).  Files that failed are counted and
have no other part in the figures (`Summary.statistics_congr`).  `Summary.hotspots_ranked` says all of this.
-/
namespace Cognitive

open Number (Binary64)

/-! ## A stable sort -/

/-- **A stable sort orders a list, and keeps among equals what holds of each item and those after it.** -/
theorem pairwise_mergeSort_stable {α : Type} {le : α → α → Bool} {R : α → α → Prop} {l : List α}
    (trans : ∀ a b c, le a b = true → le b c = true → le a c = true) (total : ∀ a b, (le a b || le b a) = true)
    (h : l.Pairwise R) : (l.mergeSort le).Pairwise fun a b => le a b = true ∧ (le b a = true → R a b) := by
  have hperm := List.mergeSort_perm l.zipIdx (List.zipIdxLE le)
  have hsorted := List.pairwise_mergeSort (List.zipIdxLE_trans trans) (List.zipIdxLE_total total) l.zipIdx
  have hplaces : (l.zipIdx.mergeSort (List.zipIdxLE le)).Pairwise fun a b => a.2 ≠ b.2 := by
    have hnodup : (l.zipIdx.map Prod.snd).Nodup := by
      rw [List.zipIdx_map_snd]
      exact List.nodup_range'
    exact List.pairwise_map.1 ((hperm.map Prod.snd).nodup_iff.2 hnodup)
  rw [← List.mergeSort_zipIdx, List.pairwise_map]
  refine (hsorted.and hplaces).imp_of_mem ?_
  rintro ⟨a, i⟩ ⟨b, j⟩ ha hb ⟨hle, hne⟩
  simp only [List.zipIdxLE] at hle
  split at hle
  · next hab =>
    refine ⟨hab, fun hba => ?_⟩
    rw [if_pos hba, decide_eq_true_eq] at hle
    obtain ⟨hi, hia⟩ := List.getElem?_eq_some_iff.1 (List.mem_zipIdx_iff_getElem?.1 (hperm.mem_iff.1 ha))
    obtain ⟨hj, hjb⟩ := List.getElem?_eq_some_iff.1 (List.mem_zipIdx_iff_getElem?.1 (hperm.mem_iff.1 hb))
    rw [← hia, ← hjb]
    exact List.pairwise_iff_getElem.1 h i j hi hj (Nat.lt_of_le_of_ne hle hne)
  · cases hle

section Key

variable {α : Type} (key : α → Int)

theorem decide_le_trans (a b c : α) (hab : decide (key a ≤ key b) = true) (hbc : decide (key b ≤ key c) = true) :
    decide (key a ≤ key c) = true :=
  decide_eq_true ((of_decide_eq_true hab).trans (of_decide_eq_true hbc))

theorem decide_le_total (a b : α) : (decide (key a ≤ key b) || decide (key b ≤ key a)) = true := by
  rw [Bool.or_eq_true, decide_eq_true_eq, decide_eq_true_eq]
  exact Int.le_total _ _

end Key

/-! ## Where functions are found -/

/-- A function of a batch, and where it is found: in which of the files, and as which of its functions. -/
structure Found where
  file : Nat
  place : Nat
  spot : Spot

namespace Found

def score (a : Found) : Int := a.spot.complexity

/-- The first function is found before the second: in an earlier file, or earlier in the same file. -/
def Before (a b : Found) : Prop := a.file < b.file ∨ a.file = b.file ∧ a.place < b.place

/-- The ranking: greater scores first, and equal ones as they were found. -/
def RanksAbove (a b : Found) : Prop := b.score ≤ a.score ∧ (a.score = b.score → a.Before b)

end Found

/-- **The top of a ranking**: so many of the functions found, and those left out. -/
structure IsTop (found : List Found) (top : Nat) (kept left : List Found) : Prop where
  /-- Every function is kept or left out, once. -/
  all : (kept ++ left).Perm found
  length : kept.length = min top found.length
  /-- No function stands behind one with a lower score. -/
  descending : kept.Pairwise fun a b => b.score ≤ a.score
  /-- Functions of one score stand as they were found. -/
  inOrder : kept.Pairwise fun a b => a.score = b.score → a.Before b
  /-- What is left out has no greater score than what is kept. -/
  atMost : ∀ a ∈ kept, ∀ b ∈ left, b.score ≤ a.score
  /-- What is left out with the score of the last one kept was found after it. -/
  later : ∀ a, kept.getLast? = some a → ∀ b ∈ left, b.score = a.score → a.Before b

theorem isTop_of_pairwise {found ranked : List Found} (hperm : ranked.Perm found)
    (h : ranked.Pairwise Found.RanksAbove) (top : Nat) :
    IsTop found top (ranked.take top) (ranked.drop top) := by
  rw [← List.take_append_drop top ranked, List.pairwise_append] at h
  obtain ⟨hkept, -, hacross⟩ := h
  exact {
    all := by rwa [List.take_append_drop]
    length := by rw [List.length_take, hperm.length_eq]
    descending := hkept.imp fun hab => hab.1
    inOrder := hkept.imp fun hab => hab.2
    atMost := fun a ha b hb => (hacross a ha b hb).1
    later := fun a ha b hb heq => (hacross a (List.mem_of_getLast? ha) b hb).2 heq.symm }

namespace Summary

variable {s s' : Summary} {top : Int}

/-- The functions of a batch with where they are found, file by file. -/
def found (s : Summary) : List Found :=
  s.results.zipIdx.flatMap fun r => r.1.spots.zipIdx.map fun f => ⟨r.2, f.2, f.1⟩

theorem map_spot_found (s : Summary) : s.found.map (·.spot) = s.spots := by
  have hfile : ∀ r : FileResult × Nat,
      (r.1.spots.zipIdx.map fun f => Found.mk r.2 f.2 f.1).map (·.spot) = r.1.spots := by
    intro r
    rw [List.map_map]
    exact List.zipIdx_map_fst 0 r.1.spots
  rw [found, List.map_flatMap, spots]
  simp only [hfile]
  rw [← List.flatMap_map, List.zipIdx_map_fst]

theorem found_inOrder (s : Summary) : s.found.Pairwise Found.Before := by
  have hzip : ∀ {α : Type} (l : List α), l.zipIdx.Pairwise fun a b => a.2 < b.2 := by
    intro α l
    rw [← List.pairwise_map (R := (· < ·)), List.zipIdx_map_snd]
    exact List.pairwise_lt_range'
  rw [found, List.pairwise_flatMap]
  constructor
  · intro r _
    exact List.pairwise_map.2 ((hzip _).imp fun hab => .inr ⟨rfl, hab⟩)
  · refine (hzip _).imp ?_
    intro r r' hfile a ha b hb
    obtain ⟨_, -, rfl⟩ := List.mem_map.1 ha
    obtain ⟨_, -, rfl⟩ := List.mem_map.1 hb
    exact .inl hfile

/-- The functions of a batch ranked by their scores. -/
def ranked (s : Summary) : List Found := s.found.mergeSort fun a b => decide (b.score ≤ a.score)

theorem ranked_perm (s : Summary) : s.ranked.Perm s.found := List.mergeSort_perm _ _

theorem ranked_pairwise (s : Summary) : s.ranked.Pairwise Found.RanksAbove := by
  have hstable := pairwise_mergeSort_stable (fun a b c hab hbc => decide_le_trans Found.score c b a hbc hab)
    (fun a b => decide_le_total Found.score b a) s.found_inOrder
  refine hstable.imp fun {a b} hab => ?_
  simp only [decide_eq_true_eq] at hab
  exact ⟨hab.1, fun heq => hab.2 (by omega)⟩

theorem map_spot_ranked (s : Summary) : s.ranked.map (·.spot) = rank s.spots := by
  rw [← map_spot_found]
  exact List.map_mergeSort fun a _ b _ => rfl

theorem isTop_ranked (s : Summary) (top : Nat) : IsTop s.found top (s.ranked.take top) (s.ranked.drop top) :=
  isTop_of_pairwise s.ranked_perm s.ranked_pairwise top

theorem takeTop_rank (s : Summary) (top : Nat) :
    takeTop top (rank s.spots) = (s.ranked.take top).map (·.spot) := by
  rw [takeTop, if_pos (Int.natCast_nonneg top), Int.toNat_natCast, ← map_spot_ranked, List.map_take]

/-! ## The greatest score -/

/-- No score has more than 53 bits. -/
def FitsDoubles (s : Summary) : Prop := ∀ m ∈ s.measured, ∀ f ∈ m.functions, f.complexity.natAbs ≤ 2 ^ 53

theorem FitsDoubles.spots (h : s.FitsDoubles) : ∀ spot ∈ s.spots, spot.complexity.natAbs ≤ 2 ^ 53 := by
  intro spot hspot
  obtain ⟨r, hr, hmem⟩ := List.mem_flatMap.1 hspot
  unfold FileResult.spots at hmem
  split at hmem
  · next m hm =>
    obtain ⟨f, hf, rfl⟩ := List.mem_map.1 hmem
    exact h m (List.mem_filterMap.2 ⟨r, hr, hm⟩) f hf
  · cases hmem

theorem mapM_scoreAsDouble {spots : List Spot} (h : ∀ spot ∈ spots, spot.complexity.natAbs ≤ 2 ^ 53) :
    (spots.mapM fun spot => scoreAsDouble spot.complexity) = .ok (spots.map fun spot => .ofInt spot.complexity) := by
  rw [Outcome.mapM_eq_ok_iff, List.forall₂_map_right_iff, List.forall₂_same]
  intro spot hspot
  rw [scoreAsDouble, Binary64.ofInt_of_natAbs_le (h spot hspot)]
  rfl

theorem exists_last_of_mergeSort {spots : List Spot} (h : spots ≠ []) :
    ∃ last ∈ spots, (spots.mergeSort fun a b => decide (a.complexity ≤ b.complexity)).getLast? = some last ∧
      ∀ spot ∈ spots, spot.complexity ≤ last.complexity := by
  have hperm := List.mergeSort_perm spots fun a b => decide (a.complexity ≤ b.complexity)
  have hsorted := List.pairwise_mergeSort (decide_le_trans Spot.complexity) (decide_le_total Spot.complexity) spots
  generalize spots.mergeSort (fun a b => decide (a.complexity ≤ b.complexity)) = sorted at hperm hsorted
  cases hlast : sorted.getLast? with
  | none =>
    rw [List.getLast?_eq_none_iff] at hlast
    rw [hlast, List.nil_perm] at hperm
    exact absurd hperm h
  | some last =>
    obtain ⟨front, rfl⟩ := List.getLast?_eq_some_iff.1 hlast
    refine ⟨last, hperm.mem_iff.1 (List.mem_append_right front List.mem_cons_self), rfl, fun spot hspot => ?_⟩
    rcases List.mem_append.1 (hperm.mem_iff.2 hspot) with hfront | hend
    · simpa using (List.pairwise_append.1 hsorted).2.2 spot hfront last List.mem_cons_self
    · rw [List.mem_singleton.1 hend]

/-- The greatest of some doubles: the last of them in order. -/
def greatestOf (scores : List Binary64) : Int := (((scores.mergeSort Binary64.le).getLast?.getD .zero).truncate?).getD 0

/-- **The greatest of the scores as doubles is the score of the function that is ranked first.** -/
theorem greatestOf_eq (h : s.FitsDoubles) {first : Found} {rest : List Found} (hranked : s.ranked = first :: rest) :
    greatestOf (s.spots.map fun spot => .ofInt spot.complexity) = first.score := by
  have hspots := h.spots
  have hperm : (first :: rest).map (·.spot) |>.Perm s.spots := by
    rw [← hranked, map_spot_ranked]
    exact List.mergeSort_perm _ _
  have hfirst : first.spot ∈ s.spots := hperm.mem_iff.1 List.mem_cons_self
  -- the doubles are in the order of the whole numbers
  have hmap : (s.spots.mergeSort fun a b => decide (a.complexity ≤ b.complexity)).map
        (fun spot => Binary64.ofInt spot.complexity) =
      (s.spots.map fun spot => Binary64.ofInt spot.complexity).mergeSort Binary64.le :=
    List.map_mergeSort fun a ha b hb => (Binary64.le_ofInt (hspots a ha) (hspots b hb)).symm
  obtain ⟨last, hlast, hend, hmost⟩ := exists_last_of_mergeSort (List.ne_nil_of_mem hfirst)
  have hsame : last.complexity = first.score := by
    refine le_antisymm ?_ (hmost first.spot hfirst)
    obtain ⟨b, hb, rfl⟩ := List.mem_map.1 (hperm.mem_iff.2 hlast)
    have hpairwise := s.ranked_pairwise
    rw [hranked] at hpairwise
    rcases List.mem_cons.1 hb with rfl | hb
    · exact Int.le_refl _
    · exact (List.rel_of_pairwise_cons hpairwise hb).1
  rw [greatestOf, ← hmap, List.getLast?_map, hend, Option.map_some, Option.getD_some,
    Binary64.truncate?_ofInt (hspots last hlast), Option.getD_some, hsame]

/-! ## The figures -/

/-- The batch without the files that failed. -/
def parsed (s : Summary) : Summary := { s with results := s.results.filter fun r => r.metrics?.isSome }

theorem measured_parsed (s : Summary) : s.parsed.measured = s.measured := by
  rw [measured, parsed, List.filterMap_filter]
  refine List.filterMap_congr fun r _ => ?_
  cases r.metrics? <;> rfl

/-- **Batches with the same functions and metrics have the same figures**, but for the numbers of their files. -/
theorem statistics_congr (hspots : s'.spots = s.spots) (hmeasured : s'.measured = s.measured) :
    s'.statistics top = (s.statistics top).map fun st =>
      { st with fileCount := s'.results.length, failedCount := s'.failures.length } := by
  unfold statistics
  simp only [hspots, hmeasured]
  split
  · rfl
  · cases s.spots.mapM fun spot => scoreAsDouble spot.complexity <;> rfl

theorem exists_statistics (h : s.FitsDoubles) (top : Int) : ∃ st, s.statistics top = .ok st := by
  unfold statistics
  simp only [mapM_scoreAsDouble h.spots]
  split <;> exact ⟨_, rfl⟩

theorem of_statistics {st : Statistics} (h : s.FitsDoubles) (hst : s.statistics top = .ok st) :
    st.fileCount = s.results.length ∧ st.failedCount = s.failures.length ∧ st.functionCount = s.spots.length ∧
      st.hotspots = takeTop top (rank s.spots) ∧
      (s.spots ≠ [] → st.greatest = greatestOf (s.spots.map fun spot => .ofInt spot.complexity)) := by
  unfold statistics at hst
  simp only [mapM_scoreAsDouble h.spots] at hst
  split at hst
  · next hnone =>
    rw [List.isEmpty_iff] at hnone
    cases hst
    refine ⟨rfl, rfl, rfl, ?_, fun hsome => absurd hnone hsome⟩
    simp [hnone, rank, takeTop]
  · cases hst
    exact ⟨rfl, rfl, rfl, rfl, fun _ => rfl⟩

theorem length_spots (s : Summary) : s.spots.length = (s.measured.map (·.functionCount)).sum := by
  rw [spots, measured]
  induction s.results with
  | nil => rfl
  | cons r results ih =>
    rw [List.flatMap_cons, List.length_append, ih, List.filterMap_cons, FileResult.spots]
    cases r.metrics? with
    | none => exact Nat.zero_add _
    | some m => rw [List.length_map, List.map_cons, List.sum_cons, FileMetrics.functionCount]

theorem spots_parsed (s : Summary) : s.parsed.spots = s.spots := by
  rw [spots, spots, parsed]
  induction s.results with
  | nil => rfl
  | cons r results ih =>
    cases hr : r.metrics? with
    | none =>
      have hspots : r.spots = [] := by rw [FileResult.spots, hr]
      rw [List.filter_cons_of_neg (by simp [hr]), List.flatMap_cons, hspots, List.nil_append, ih]
    | some m => rw [List.filter_cons_of_pos (by simp [hr]), List.flatMap_cons, List.flatMap_cons, ih]

theorem error?_isSome_eq (r : FileResult) : r.error?.isSome = !r.metrics?.isSome := by
  unfold FileResult.error? FileResult.metrics?
  cases r.verdict <;> rfl

theorem length_results (s : Summary) : s.results.length = s.measured.length + s.failures.length := by
  rw [measured, failures, List.length_eq_length_filter_add fun r => r.metrics?.isSome, List.length_filterMap_eq_countP,
    List.countP_eq_length_filter]
  simp only [error?_isSome_eq]

theorem failures_parsed (s : Summary) : s.parsed.failures = [] := by
  rw [failures, List.filter_eq_nil_iff]
  intro r hr
  rw [error?_isSome_eq, (List.mem_filter.1 hr).2]
  exact Bool.false_ne_true

/-- **Figures with the top of a ranking**: so many hot spots of a batch, and what its files have to do with them. -/
structure HasTop (s : Summary) (top : Nat) (st : Statistics) : Prop where
  /-- The hot spots are the top of a stable ranking of the functions found. -/
  ranked : ∃ kept left, IsTop s.found top kept left ∧ st.hotspots = kept.map (·.spot)
  length : st.hotspots.length = min top st.functionCount
  functions : st.functionCount = (s.measured.map (·.functionCount)).sum
  /-- The first hot spot has the greatest score. -/
  first : 1 ≤ top → 0 < st.functionCount → ∃ spot, st.hotspots.head? = some spot ∧ spot.complexity = st.greatest
  failed : st.failedCount = s.failures.length
  files : st.fileCount = s.measured.length + st.failedCount
  /-- Without the files that failed, the figures are the same but for how many those are. -/
  parsedOnly : s.parsed.statistics top = .ok { st with fileCount := s.measured.length, failedCount := 0 }

theorem exists_first {st : Statistics} {top : Nat} (h : s.FitsDoubles) (hst : s.statistics top = .ok st)
    (hpositive : 1 ≤ top) (hsome : 0 < st.functionCount) :
    ∃ spot, st.hotspots.head? = some spot ∧ spot.complexity = st.greatest := by
  obtain ⟨-, -, hfunctions, hhotspots, hgreatest⟩ := of_statistics h hst
  have hne : s.spots ≠ [] := by
    rw [← List.length_pos_iff, ← hfunctions]
    exact hsome
  cases hranked : s.ranked with
  | nil =>
    have hspots := s.ranked_perm.map (·.spot)
    rw [hranked, map_spot_found, List.map_nil, List.nil_perm] at hspots
    exact absurd hspots hne
  | cons first rest =>
    obtain ⟨n, rfl⟩ := Nat.exists_eq_add_of_le' hpositive
    rw [takeTop_rank, hranked, List.take_succ_cons, List.map_cons] at hhotspots
    exact ⟨first.spot, by rw [hhotspots, List.head?_cons], by rw [hgreatest hne, greatestOf_eq h hranked, Found.score]⟩

/-- **The hot spots of a batch are the top of a stable ranking of its functions.**  The functions are those of the files
that did not fail; a file that failed is counted as such and changes nothing else.  Where there is a function and one is
asked for, the first hot spot has the greatest score. -/
theorem hotspots_ranked (s : Summary) (top : Nat) (h : s.FitsDoubles) :
    ∃ st, s.statistics top = .ok st ∧ s.HasTop top st := by
  obtain ⟨st, hst⟩ := exists_statistics h top
  obtain ⟨hfiles, hfailed, hfunctions, hhotspots, -⟩ := of_statistics h hst
  rw [takeTop_rank] at hhotspots
  have htop := s.isTop_ranked top
  have hfound : s.found.length = st.functionCount := by rw [hfunctions, ← map_spot_found, List.length_map]
  exact ⟨st, hst, {
    ranked := ⟨_, _, htop, hhotspots⟩
    length := by rw [hhotspots, List.length_map, htop.length, hfound]
    functions := by rw [hfunctions, length_spots]
    first := exists_first h hst
    failed := hfailed
    files := by rw [hfiles, hfailed, length_results]
    parsedOnly := by
      rw [statistics_congr s.spots_parsed s.measured_parsed, hst, length_results, failures_parsed, measured_parsed]
      rfl }⟩

/-- Two files with three functions of one score among them, and a file between that failed. -/
def levelBatch : Summary where
  rootFolder := none
  results :=
    [⟨"a.js", .measured ⟨9, 7, [⟨"low", 1, 1, some 1, some 2⟩, ⟨"first", 2, 5, some 3, some 6⟩]⟩⟩,
     ⟨"b.js", .failed "Unexpected token (1:3)"⟩,
     ⟨"c.js", .measured ⟨9, 8, [⟨"second", 2, 5, some 1, some 4⟩, ⟨"third", 2, 5, some 5, some 9⟩]⟩⟩]

theorem hotspots_ranked_levelBatch :
    levelBatch.FitsDoubles ∧ ∃ st, levelBatch.statistics 2 = .ok st ∧ levelBatch.HasTop 2 st ∧ st.functionCount = 4 ∧
      st.hotspots.map (·.name) = ["first", "second"] ∧ st.failedCount = 1 := by
  have hfits : levelBatch.FitsDoubles := by
    intro m hm f hf
    fin_cases hm <;> fin_cases hf <;> decide
  obtain ⟨st, hst, htop⟩ := hotspots_ranked levelBatch 2 hfits
  have hcount : st.functionCount = 4 := htop.functions
  have hnames : st.hotspots.map (·.name) = ["first", "second"] := by
    obtain ⟨-, -, -, hhotspots, -⟩ := of_statistics hfits hst
    rw [hhotspots]
    cbv
  exact ⟨hfits, st, hst, htop, hcount, hnames, htop.failed⟩

end Summary
end Cognitive
