import Cognitive.Proofs.Tree.Below
import Cognitive.Scoring.Walk
import Mathlib
/-!
# Runs of the walk

A run is a sequence of steps of the walk, with the sites whose rules it applies and the nesting each is found at.  What
a run from a site's children does before it comes to the rest of the work is said by `Site.visits`, which has no list of
pending work: it passes the nesting down the tree instead.  The run adds the costs of the visits to the points and
leaves nesting and rest as they were (`run_enter`), so the walk's result can be read off the visits (`score_eq_cost`).
-/
namespace Cognitive

namespace Site

/-- What the rules are applied to at or below a site that is entered at some nesting, each site with its own nesting. -/
def visits (s : Site) (nesting : Int) : List (Site × Int) :=
  if s.node.isFunctionLike then []
  else (s, nesting) :: s.children.attach.flatMap fun c => c.1.visits (nesting + pointIf s.opensLevel)
termination_by s.node.size
decreasing_by exact size_lt_of_mem_children c.2

theorem visits_eq (s : Site) (nesting : Int) :
    s.visits nesting = if s.node.isFunctionLike then []
      else (s, nesting) :: s.children.flatMap fun c => c.visits (nesting + pointIf s.opensLevel) := by
  rw [visits, List.flatMap_subtype (g := fun c => c.visits (nesting + pointIf s.opensLevel)) (fun c _ => rfl),
    List.unattach_attach]

def cost (src : Source) (name : Option String) (visits : List (Site × Int)) : Int :=
  (visits.map fun v => (v.1.effect src name v.2).points).sum

theorem cost_append (src : Source) (name : Option String) (a b : List (Site × Int)) :
    cost src name (a ++ b) = cost src name a + cost src name b := by
  simp [cost]

theorem cost_cons (src : Source) (name : Option String) (v : Site × Int) (visits : List (Site × Int)) :
    cost src name (v :: visits) = (v.1.effect src name v.2).points + cost src name visits := by
  rw [cost, List.map_cons, List.sum_cons]
  rfl

theorem cost_flatMap (src : Source) (name : Option String) (sites : List Site) (visits : Site → List (Site × Int)) :
    cost src name (sites.flatMap visits) = (sites.map fun c => cost src name (visits c)).sum := by
  induction sites with
  | nil => rfl
  | cons c sites ih => rw [List.flatMap_cons, cost_append, ih, List.map_cons, List.sum_cons]

end Site

/-- What a piece of work applies the rules to, at the nesting that it finds: the site to enter, unless it is skipped. -/
def Work.applied (nesting : Int) : Work → List (Site × Int)
  | .enter s => if s.node.isFunctionLike then [] else [(s, nesting)]
  | .close _ => []

namespace Walk

variable {src : Source} {name : Option String}

/-- Steps lead from one state of a walk to another, and apply the rules to some sites on the way. -/
inductive Run (src : Source) (name : Option String) : Walk → List (Site × Int) → Walk → Prop where
  | refl (w : Walk) : Run src name w [] w
  | next {w w' w'' : Walk} {t : Work} {rest : List Work} {l : List (Site × Int)} (hw : w.pending = t :: rest)
      (hs : w.step src name rest t = .ok w') (hr : Run src name w' l w'') :
      Run src name w (t.applied w.nesting ++ l) w''

theorem Run.trans {w w' w'' : Walk} {l l' : List (Site × Int)} (h : Run src name w l w') (h' : Run src name w' l' w'') :
    Run src name w (l ++ l') w'' := by
  induction h with
  | refl w => exact h'
  | next hw hs _ ih =>
    rw [List.append_assoc]
    exact .next hw hs (ih h')

theorem Run.single {w w' : Walk} {t : Work} {rest : List Work} (hw : w.pending = t :: rest)
    (hs : w.step src name rest t = .ok w') : Run src name w (t.applied w.nesting) w' := by
  simpa using Run.next hw hs (.refl w')

/-! ## The walk along a run -/

theorem finish_done {w : Walk} (h : w.pending = []) : w.finish src name = .ok w := by
  rw [finish]
  split
  · rfl
  · rename_i he
    rw [h] at he
    cases he

theorem finish_next {w w' : Walk} {t : Work} {rest : List Work} (hw : w.pending = t :: rest)
    (hs : w.step src name rest t = .ok w') : w.finish src name = w'.finish src name := by
  rw [finish]
  split
  · rename_i he
    rw [hw] at he
    cases he
  · rename_i t' rest' he
    rw [hw] at he
    cases he
    split
    · rename_i hf
      rw [hs] at hf
      cases hf
    · rename_i hf
      rw [hs] at hf
      cases hf
      rfl

theorem finish_fault {w : Walk} {t : Work} {rest : List Work} {fault : TreeFault} (hw : w.pending = t :: rest)
    (hs : w.step src name rest t = .error fault) : w.finish src name = .error fault := by
  rw [finish]
  split
  · rename_i he
    rw [hw] at he
    cases he
  · rename_i t' rest' he
    rw [hw] at he
    cases he
    split
    · rename_i hf
      rw [hs] at hf
      cases hf
      rfl
    · rename_i hf
      rw [hs] at hf
      cases hf

/-- **A walk ends where every state on its run ends.** -/
theorem Run.finish_eq {w w' : Walk} {l : List (Site × Int)} (h : Run src name w l w') :
    w.finish src name = w'.finish src name := by
  induction h with
  | refl w => rfl
  | next hw hs _ ih => rw [finish_next hw hs, ih]

/-- The sites that a walk applies the rules to until it ends, in order, each with the nesting it is found at. -/
def entries (src : Source) (name : Option String) (w : Walk) : List (Site × Int) :=
  match _work : w.pending with
  | [] => []
  | t :: rest =>
    t.applied w.nesting ++ match _taken : w.step src name rest t with
    | .error _ => []
    | .ok w' => entries src name w'
termination_by Work.totalWeight w.pending
decreasing_by
  rw [_work]
  exact weight_step _taken

theorem entries_done {w : Walk} (h : w.pending = []) : w.entries src name = [] := by
  rw [entries]
  split
  · rfl
  · rename_i he
    rw [h] at he
    cases he

theorem entries_next {w w' : Walk} {t : Work} {rest : List Work} (hw : w.pending = t :: rest)
    (hs : w.step src name rest t = .ok w') :
    w.entries src name = t.applied w.nesting ++ w'.entries src name := by
  rw [entries]
  split
  · rename_i he
    rw [hw] at he
    cases he
  · rename_i t' rest' he
    rw [hw] at he
    cases he
    congr 1
    split
    · rename_i hf
      rw [hs] at hf
      cases hf
    · rename_i hf
      rw [hs] at hf
      cases hf
      rfl

/-- **A walk applies the rules to what a run applies them to, and then to what comes after the run.** -/
theorem Run.entries_eq {w w' : Walk} {l : List (Site × Int)} (h : Run src name w l w') :
    w.entries src name = l ++ w'.entries src name := by
  induction h with
  | refl w => rfl
  | next hw hs _ ih => rw [entries_next hw hs, ih, List.append_assoc]

/-! ## The run through a site -/

variable (src : Source) (name : Option String)

theorem step_close (w : Walk) (rest : List Work) (levels : Int) :
    w.step src name rest (.close levels) = .ok ⟨w.points, w.nesting - levels, rest⟩ := rfl

theorem step_skip {s : Site} (w : Walk) (rest : List Work) (hf : s.node.isFunctionLike = true) :
    w.step src name rest (.enter s) = .ok ⟨w.points, w.nesting, rest⟩ := by
  simp [step, hf]

theorem step_enter {s : Site} (w : Walk) (rest : List Work) (hf : s.node.isFunctionLike = false)
    (hk : s.node.label.childrenKnown = true) :
    w.step src name rest (.enter s) = .ok (w.enter src name s rest) := by
  simp [step, hf, hk]

/-- What a step that enters a site comes to: a function is skipped, and everything else is entered. -/
theorem step_enter_cases {src : Source} {name : Option String} {w w' : Walk} {rest : List Work} {s : Site}
    (hs : w.step src name rest (.enter s) = .ok w') :
    (s.node.isFunctionLike = true ∧ w' = ⟨w.points, w.nesting, rest⟩) ∨
      (s.node.isFunctionLike = false ∧ s.node.label.childrenKnown = true ∧ w' = w.enter src name s rest) := by
  simp only [step] at hs
  split at hs
  · next hf =>
    cases hs
    exact .inl ⟨hf, rfl⟩
  · next hf =>
    split at hs
    · next hk =>
      cases hs
      exact .inr ⟨by simpa using hf, hk, rfl⟩
    · cases hs

theorem run_enterAll (sites : List Site) (points nesting : Int) (rest : List Work)
    (h : ∀ s ∈ sites, ∀ points rest, Run src name ⟨points, nesting, .enter s :: rest⟩ (s.visits nesting)
      ⟨points + Site.cost src name (s.visits nesting), nesting, rest⟩) :
    Run src name ⟨points, nesting, sites.map .enter ++ rest⟩ (sites.flatMap fun s => s.visits nesting)
      ⟨points + Site.cost src name (sites.flatMap fun s => s.visits nesting), nesting, rest⟩ := by
  induction sites generalizing points with
  | nil => simpa [Site.cost] using Run.refl _
  | cons s sites ih =>
    have first := h s (by simp) points (sites.map .enter ++ rest)
    have others := ih (points + Site.cost src name (s.visits nesting)) fun t ht => h t (by simp [ht])
    rw [List.flatMap_cons, Site.cost_append, ← Int.add_assoc]
    exact first.trans others

/-- **The run through a site**: the rules are applied to its visits, their cost is added, and the nesting and the rest
of the work are left as they were. -/
theorem run_enter (s : Site) (hs : s.node.isWalkable = true) (points nesting : Int) (rest : List Work) :
    Run src name ⟨points, nesting, .enter s :: rest⟩ (s.visits nesting)
      ⟨points + Site.cost src name (s.visits nesting), nesting, rest⟩ := by
  induction s using Site.children_induction generalizing points nesting rest with
  | step s ih =>
    rw [Site.visits_eq]
    cases hf : s.node.isFunctionLike with
    | true =>
      have skip := Run.single rfl (step_skip src name ⟨points, nesting, .enter s :: rest⟩ rest hf)
      simpa [Site.cost, Work.applied, hf] using skip
    | false =>
      have hk := ((Node.isWalkable_iff s.node).1 hs).1
      have enter := Run.single rfl (step_enter src name ⟨points, nesting, .enter s :: rest⟩ rest hf hk)
      have through := run_enterAll src name s.children
        (points + (s.effect src name nesting).points) (nesting + Site.pointIf s.opensLevel)
        (.close (Site.pointIf s.opensLevel) :: rest)
        fun c hc points rest => ih c hc (Site.isWalkable_child hs hc) points _ rest
      have close := Run.single rfl (step_close src name
        ⟨points + (s.effect src name nesting).points + Site.cost src name
            (s.children.flatMap fun c => c.visits (nesting + Site.pointIf s.opensLevel)),
          nesting + Site.pointIf s.opensLevel, .close (Site.pointIf s.opensLevel) :: rest⟩ rest _)
      -- what the node opens is what its kind and place say, so the close undoes just that
      simp only [Walk.enter, Site.effect_opened] at enter
      have all := (enter.trans through).trans close
      simpa [Work.applied, hf, Site.cost, Int.add_assoc] using all

theorem run_start (s : Site) (hs : s.node.isWalkable = true) (nesting : Int) :
    Run src name (start s nesting) (s.children.flatMap fun c => c.visits nesting)
      ⟨Site.cost src name (s.children.flatMap fun c => c.visits nesting), nesting, []⟩ := by
  have := run_enterAll src name s.children 0 nesting []
    fun c hc points rest => run_enter src name c (Site.isWalkable_child hs hc) points nesting rest
  simpa [start] using this

end Walk

/-- **A score is the cost of the visits to the children.** -/
theorem Site.score_eq_cost (src : Source) (s : Site) (nesting : Int) (name : Option String)
    (hs : s.node.isWalkable = true) :
    s.score src nesting name = .ok (cost src name (s.children.flatMap fun c => c.visits nesting)) := by
  have hk := ((Node.isWalkable_iff s.node).1 hs).1
  rw [score, if_pos hk, (Walk.run_start src name s hs nesting).finish_eq, Walk.finish_done rfl]
  rfl

end Cognitive
