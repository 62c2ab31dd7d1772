import Cognitive.Proofs.Outcome
import Cognitive.Proofs.Scoring.Sum
/-!
# What a score has entered

The work that a walk still has to do comes to certain visits (`Work.visits`), and every step that succeeds takes the
first of them off (`Walk.step_visits`).  So a walk that ends has made them all, and its points are what they cost
(`Walk.entries_of_finish`).  A score that is given at all has therefore entered what its function owns, each site at the
nesting that the sites between open (`Site.entries_of_score`); of the functions inside nothing need be known.
-/
namespace Cognitive

/-- The visits that pending work comes to, from some nesting on. -/
def Work.visits (nesting : Int) : List Work → List (Site × Int)
  | [] => []
  | .enter s :: rest => s.visits nesting ++ visits nesting rest
  | .close levels :: rest => visits (nesting - levels) rest

theorem Work.visits_enterAll (nesting : Int) (sites : List Site) (rest : List Work) :
    Work.visits nesting (sites.map .enter ++ rest) =
      (sites.flatMap fun s => s.visits nesting) ++ Work.visits nesting rest := by
  induction sites with
  | nil => rfl
  | cons s sites ih => rw [List.map_cons, List.cons_append, Work.visits, ih, List.flatMap_cons, List.append_assoc]

namespace Walk

variable {src : Source} {name : Option String} {w w' : Walk}

/-- **A step takes what it applies the rules to off the visits that are left**, and adds what that costs. -/
theorem step_visits {t : Work} {rest : List Work} (hs : w.step src name rest t = .ok w') :
    Work.visits w.nesting (t :: rest) = t.applied w.nesting ++ Work.visits w'.nesting w'.pending ∧
      w'.points = w.points + Site.cost src name (t.applied w.nesting) := by
  cases t with
  | close levels =>
    cases hs
    exact ⟨rfl, (Int.add_zero _).symm⟩
  | enter s =>
    simp only [step] at hs
    split at hs
    · next hf =>
      cases hs
      simp [Work.visits, Site.visits_eq, Work.applied, hf, Site.cost]
    · next hf =>
      split at hs
      · cases hs
        refine ⟨?_, by simp [enter, Work.applied, hf, Site.cost]⟩
        -- the close that is put behind the children takes back the levels that the node opens
        simp [Work.visits, Work.visits_enterAll, Site.visits_eq s, Work.applied, hf, enter, Site.effect_opened]
      · cases hs

/-- **A walk that ends has made all visits that were left**, and has added what they cost. -/
theorem entries_of_finish {w w' : Walk} (h : w.finish src name = .ok w') :
    w.entries src name = Work.visits w.nesting w.pending ∧
      w'.points = w.points + Site.cost src name (w.entries src name) := by
  match hw : w.pending with
  | [] =>
    rw [finish_done hw] at h
    cases h
    rw [entries_done hw]
    exact ⟨rfl, (Int.add_zero _).symm⟩
  | t :: rest =>
    cases hs : w.step src name rest t with
    | error fault =>
      rw [finish_fault hw hs] at h
      cases h
    | ok next =>
      rw [finish_next hw hs] at h
      have _shorter : Work.totalWeight next.pending < Work.totalWeight w.pending := hw ▸ weight_step hs
      obtain ⟨hentries, hpoints⟩ := entries_of_finish h
      obtain ⟨hvisits, hstep⟩ := step_visits hs
      rw [entries_next hw hs, hpoints, hstep, Site.cost_append, Int.add_assoc, hentries, hvisits]
      exact ⟨rfl, rfl⟩
termination_by Work.totalWeight w.pending

end Walk

namespace Site

variable {src : Source} {name : Option String} {f v : Site} {nesting p n : Int}

/-- **What a score has entered**: the sites that its function owns, in order, each at the nesting that is given and the
levels that the sites between open.  The score is what they cost. -/
theorem entries_of_score (hs : f.score src nesting name = .ok p) :
    (Walk.start f nesting).entries src name = (f.own.map fun v => (v, nesting + (f.levelsTo v : Int))) ∧
      p = cost src name ((Walk.start f nesting).entries src name) := by
  rw [score] at hs
  split at hs
  · obtain ⟨w, hw, rfl⟩ := Outcome.map_eq_ok_iff.1 hs
    obtain ⟨hentries, hpoints⟩ := Walk.entries_of_finish hw
    have hvisits := Work.visits_enterAll nesting f.children []
    rw [List.append_nil, visits_children, Work.visits, List.append_nil] at hvisits
    exact ⟨hentries.trans hvisits, hpoints.trans (Int.zero_add _)⟩
  · cases hs

theorem mem_entries_iff (hs : f.score src nesting name = .ok p) :
    (v, n) ∈ (Walk.start f nesting).entries src name ↔ v ∈ f.own ∧ n = nesting + (f.levelsTo v : Int) := by
  rw [(entries_of_score hs).1, List.mem_map]
  constructor
  · rintro ⟨u, hu, h⟩
    cases h
    exact ⟨hu, rfl⟩
  · rintro ⟨hv, rfl⟩
    exact ⟨v, hv, rfl⟩

end Site
end Cognitive
