import Cognitive.Proofs.Scoring.Entered
import Cognitive.Proofs.Scoring.Skipped
/-!
# The counter of a walk, and the least a score comes to

While a walk goes through a function, its counter is the nesting given and the levels that the pending closes will take
back (`Walk.Run.nesting_eq`), so it never falls below the nesting given and is back there at the end.  The branch of an
else is only met inside the conditional at the head of its chain (`Site.one_le_levelsTo`), so it is entered at one level
more at least, and the level that it costs less is made up for.  Every step therefore adds no less than nothing, and no
less than one and the nesting given where it enters a conditional, a loop, a handler or a ternary
(`Walk.step_points_le`).  A score is at least that many points for each of them (`Site.walk_steady`).
-/
namespace Cognitive

/-- The levels that the pending closes will take back. -/
def Work.levels : List Work → Int
  | [] => 0
  | .enter _ :: rest => levels rest
  | .close n :: rest => n + levels rest

@[simp] theorem Work.levels_enterAll (sites : List Site) (rest : List Work) :
    Work.levels (sites.map .enter ++ rest) = Work.levels rest := by
  induction sites with
  | nil => rfl
  | cons s sites ih => exact ih

namespace Site

/-- The site costs more the deeper it stands: it is a conditional, a loop, a handler or a ternary. -/
def paysNesting (v : Site) : Bool := v.node.kind == .conditional || v.node.kind.isStructural

theorem pointIf_nonneg (b : Bool) : 0 ≤ pointIf b := by cases b <;> decide

theorem paysNesting_of_isFunctionLike {v : Site} (h : v.node.isFunctionLike = true) : v.paysNesting = false := by
  unfold Node.isFunctionLike at h
  unfold paysNesting
  cases hk : v.node.kind <;> simp [hk, Kind.isFunctionLike, Kind.isStructural] at h ⊢

/-! ## Else branches stand in conditionals -/

theorem type_ne_of_isFunctionLike {n : Node} (h : n.isFunctionLike = true) : n.type ≠ "else_clause" := by
  intro htype
  have hkind : n.kind = .other := by
    unfold Node.kind
    rw [htype]
    cases n.label.named <;> rfl
  rw [Node.isFunctionLike, hkind] at h
  cases h

theorem up_child {s c : Site} (h : c ∈ s.children) : c.up = s.node :: s.up := by
  obtain ⟨i, n, -, rfl⟩ := mem_children.1 h
  rfl

/-- The branch of an else below a function is the child of a child of a conditional below the function. -/
theorem exists_conditional_of_isElseIf {f v : Site} (hf : f.node.isFunctionLike = true) (hv : v ∈ f.below)
    (h : v.isElseIf = true) :
    ∃ o ∈ f.below, ∃ clause ∈ o.children, v ∈ clause.children ∧ o.node.kind = .conditional := by
  obtain ⟨clause, hclause, hchild⟩ := Relation.TransGen.tail'_iff.1 (mem_below_iff.1 hv)
  rw [isElseIf, up_child hchild] at h
  rcases Relation.reflTransGen_iff_eq_or_transGen.1 hclause with rfl | hclause
  · -- a function is no else
    cases hup : clause.up with
    | nil =>
      rw [hup] at h
      cases h
    | cons outer rest =>
      rw [hup, Bool.and_eq_true, beq_iff_eq] at h
      exact absurd h.1 (type_ne_of_isFunctionLike hf)
  · obtain ⟨o, ho, hparent⟩ := Relation.TransGen.tail'_iff.1 hclause
    rw [up_child hparent, Bool.and_eq_true, beq_iff_eq, beq_iff_eq] at h
    rcases Relation.reflTransGen_iff_eq_or_transGen.1 ho with rfl | ho
    · rw [Node.isFunctionLike, h.2] at hf
      cases hf
    · exact ⟨o, mem_below_iff.2 ho, clause, hparent, hchild, h.2⟩

/-- **On the way from a function to the branch of an else a level opens**: at the head of the chain at the latest. -/
theorem one_le_levelsTo {f v : Site} (hf : f.node.isFunctionLike = true) (hv : v ∈ f.below)
    (h : v.isElseIf = true) : 1 ≤ f.levelsTo v := by
  obtain ⟨o, ho, clause, hclause, hchild, hkind⟩ := exists_conditional_of_isElseIf hf hv h
  have hbetween : f.between v = clause :: o :: f.between o := by
    rw [between_child (mem_below_child ho hclause) hchild, between_child ho hclause]
  have hlevels : f.levelsTo o + (if o.opensLevel then 1 else 0) ≤ f.levelsTo v := by
    unfold levelsTo
    rw [hbetween, List.countP_cons, List.countP_cons]
    omega
  cases hnext : o.isElseIf with
  | false =>
    have hopens : o.opensLevel = true := by simp [opensLevel, hkind, hnext]
    rw [hopens, if_pos rfl] at hlevels
    omega
  | true =>
    -- the conditional is itself the branch of an else, nearer to the function
    have _nearer : o.up.length < v.up.length := by
      rw [up_child hchild, up_child hclause, List.length_cons, List.length_cons]
      omega
    have hhead := one_le_levelsTo hf ho hnext
    omega
termination_by v.up.length

/-! ## What a step adds -/

/-- Where the nesting is at least a base, and above it at the branch of an else, a site costs nothing less than nothing,
and no less than one and the base if it pays for its nesting. -/
theorem points_le (src : Source) (name : Option String) {v : Site} {base nesting : Int} (hbase : 0 ≤ base)
    (hnesting : base ≤ nesting) (helse : v.isElseIf = true → base + 1 ≤ nesting) :
    0 ≤ (v.effect src name nesting).points ∧
      (v.paysNesting = true → 1 + base ≤ (v.effect src name nesting).points) := by
  have hplain := pointIf_nonneg v.hasPlainElse
  unfold effect paysNesting
  cases v.node.kind with
  | conditional =>
    cases hv : v.isElseIf with
    | true =>
      have habove := helse hv
      exact ⟨by simp; omega, fun _ => by simp; omega⟩
    | false => exact ⟨by simp; omega, fun _ => by simp; omega⟩
  | forLoop | whileLoop | doWhileLoop | handler | ternary => exact ⟨by simp; omega, fun _ => by simp; omega⟩
  | logical | call | breakJump | continueJump => exact ⟨pointIf_nonneg _, nofun⟩
  | switchCase => exact ⟨Int.one_nonneg, nofun⟩
  | _ => exact ⟨Int.le_refl 0, nofun⟩

end Site

namespace Walk

variable {src : Source} {name : Option String} {f : Site} {base : Int} {w w' : Walk}

/-! ## The counter -/

/-- A step changes the counter by as much as the levels that the pending closes will take back. -/
theorem step_levels {t : Work} {rest : List Work} (hs : w.step src name rest t = .ok w') :
    w'.nesting - Work.levels w'.pending = w.nesting - Work.levels (t :: rest) := by
  cases t with
  | close levels =>
    cases hs
    simp only [Work.levels]
    omega
  | enter s =>
    rcases step_enter_cases hs with ⟨-, rfl⟩ | ⟨-, -, rfl⟩
    · rfl
    · simp only [enter, Work.levels_enterAll, Work.levels]
      omega

theorem Run.levels_eq {visits : List (Site × Int)} (hr : Run src name w visits w') :
    w'.nesting - Work.levels w'.pending = w.nesting - Work.levels w.pending := by
  induction hr with
  | refl w => rfl
  | next hw hs _ ih => rw [ih, step_levels hs, hw]

/-- **The counter is the nesting given and the levels that the pending closes will take back.** -/
theorem Run.nesting_eq {visits : List (Site × Int)} (hr : Run src name (start f base) visits w) :
    w.nesting = base + Work.levels w.pending := by
  have hstart : Work.levels (start f base).pending = 0 := by
    have h := Work.levels_enterAll f.children []
    rwa [List.append_nil] at h
  have hkept := hr.levels_eq
  rw [hstart] at hkept
  simp only [start] at hkept
  omega

theorem step_closes {t : Work} {rest : List Work} (h : ∀ n, .close n ∈ t :: rest → 0 ≤ n)
    (hs : w.step src name rest t = .ok w') : ∀ n, .close n ∈ w'.pending → 0 ≤ n := by
  have hrest : ∀ n, .close n ∈ rest → 0 ≤ n := fun n hn => h n (List.mem_cons_of_mem t hn)
  cases t with
  | close levels =>
    cases hs
    exact hrest
  | enter s =>
    rcases step_enter_cases hs with ⟨-, rfl⟩ | ⟨-, -, rfl⟩
    · exact hrest
    · intro n hn
      simp only [enter, List.mem_append, List.mem_map, List.mem_cons, reduceCtorEq, and_false, exists_false, false_or,
        Work.close.injEq, Site.effect_opened] at hn
      rcases hn with rfl | hn
      · exact Site.pointIf_nonneg _
      · exact hrest n hn

theorem Run.closes {visits : List (Site × Int)} (hr : Run src name w visits w')
    (h : ∀ n, .close n ∈ w.pending → 0 ≤ n) :
    ∀ n, .close n ∈ w'.pending → 0 ≤ n := by
  induction hr with
  | refl w => exact h
  | next hw hs _ ih =>
    rw [hw] at h
    exact ih (step_closes h hs)

theorem levels_nonneg : ∀ {work : List Work}, (∀ n, .close n ∈ work → 0 ≤ n) → 0 ≤ Work.levels work
  | [], _ => Int.le_refl 0
  | .enter s :: rest, h => by
    rw [Work.levels]
    exact levels_nonneg fun n hn => h n (List.mem_cons_of_mem _ hn)
  | .close n :: rest, h => by
    have hrest : 0 ≤ Work.levels rest := levels_nonneg fun n hn => h n (List.mem_cons_of_mem _ hn)
    have hn := h n List.mem_cons_self
    rw [Work.levels]
    omega

/-- The counter never falls below the nesting given. -/
theorem Run.le_nesting {visits : List (Site × Int)} (hr : Run src name (start f base) visits w) : base ≤ w.nesting := by
  have hlevels := levels_nonneg (hr.closes fun n hn => by simp [start] at hn)
  have hcounter := hr.nesting_eq
  omega

/-! ## The points -/

theorem Run.stands {visits : List (Site × Int)} {t : Work} {rest : List Work}
    (hr : Run src name (start f base) visits w) (hw : w.pending = t :: rest) : Stands f base w.nesting (t :: rest) :=
  hw ▸ run_stands hr (stands_start f base)

/-- The branch of an else is entered above the nesting given. -/
theorem Stands.above_of_isElseIf {s : Site} {rest : List Work} {nesting : Int} (hf : f.node.isFunctionLike = true)
    (h : Stands f base nesting (.enter s :: rest)) (helse : s.isElseIf = true) : base + 1 ≤ nesting := by
  obtain ⟨hbelow, hnesting, -⟩ := h
  have hlevels := Site.one_le_levelsTo hf hbelow helse
  omega

/-- **No step lowers the points**, and one that enters what pays for its nesting adds one and the nesting given. -/
theorem step_points_le {t : Work} {rest : List Work} (hf : f.node.isFunctionLike = true) (hbase : 0 ≤ base)
    (h : Stands f base w.nesting (t :: rest)) (hs : w.step src name rest t = .ok w') :
    w.points ≤ w'.points ∧ ∀ s, t = .enter s → s.paysNesting = true → w.points + (1 + base) ≤ w'.points := by
  cases t with
  | close levels =>
    cases hs
    exact ⟨Int.le_refl _, nofun⟩
  | enter s =>
    rcases step_enter_cases hs with ⟨hskip, rfl⟩ | ⟨-, -, rfl⟩
    · refine ⟨Int.le_refl _, fun s' hs' hpays => ?_⟩
      cases hs'
      rw [Site.paysNesting_of_isFunctionLike hskip] at hpays
      cases hpays
    · have hnesting := h.2.1
      have hcost := Site.points_le src name hbase (by omega) (h.above_of_isElseIf hf)
      refine ⟨by simp only [enter]; omega, fun s' hs' hpays => ?_⟩
      cases hs'
      have hpaid := hcost.2 hpays
      simp only [enter]
      omega

/-- **What a run adds**: at least one and the nesting given for each site that pays for its nesting. -/
theorem Run.points_le {visits : List (Site × Int)} (hf : f.node.isFunctionLike = true) (hbase : 0 ≤ base)
    (hr : Run src name w visits w') (h : Stands f base w.nesting w.pending) :
    w.points + (1 + base) * (visits.countP fun v => v.1.paysNesting : Nat) ≤ w'.points := by
  induction hr with
  | refl w => simp
  | @next w w' w'' t rest visits hw hs _ ih =>
    rw [hw] at h
    have hlater := ih (step_stands h hs)
    obtain ⟨hkept, hpaid⟩ := step_points_le hf hbase h hs
    have hstep : w.points + (1 + base) * ((t.applied w.nesting).countP fun v => v.1.paysNesting : Nat) ≤ w'.points := by
      cases t with
      | close levels => simpa [Work.applied] using hkept
      | enter s =>
        cases hskip : s.node.isFunctionLike with
        | true => simpa [Work.applied, hskip] using hkept
        | false =>
          cases hpays : s.paysNesting with
          | true => simpa [Work.applied, hskip, hpays] using hpaid s rfl hpays
          | false => simpa [Work.applied, hskip, hpays] using hkept
    rw [List.countP_append, Nat.cast_add, Int.mul_add]
    omega

/-- A walk that ends has made a run to its end. -/
theorem exists_run_of_finish (h : w.finish src name = .ok w') :
    ∃ visits, Run src name w visits w' ∧ w'.pending = [] := by
  induction w using finish.induct src name with
  | case1 w hdone =>
    rw [finish_done hdone] at h
    cases h
    exact ⟨[], .refl _, hdone⟩
  | case2 w t rest hw fault hs =>
    rw [finish_fault hw hs] at h
    cases h
  | case3 w t rest hw v hs ih =>
    rw [finish_next hw hs] at h
    obtain ⟨visits, hr, hdone⟩ := ih h
    exact ⟨_, .next hw hs hr, hdone⟩

/-- **A walk through a function that keeps its counter**: what holds in every state that the walk reaches, and of every
step it makes from there. -/
structure IsSteady (src : Source) (name : Option String) (f : Site) (base : Int) : Prop where
  /-- The counter is the nesting given and the levels that pending closes will take back. -/
  counter : ∀ visits w, Run src name (start f base) visits w → w.nesting = base + Work.levels w.pending
  /-- The counter is never below the nesting given. -/
  floor : ∀ visits w, Run src name (start f base) visits w → base ≤ w.nesting
  /-- The branch of an else is entered above the nesting given. -/
  branches : ∀ visits w s rest, Run src name (start f base) visits w → w.pending = .enter s :: rest →
    s.node.kind = .conditional → s.isElseIf = true → base + 1 ≤ w.nesting
  /-- No step lowers the points. -/
  kept : ∀ visits w t rest w', Run src name (start f base) visits w → w.pending = t :: rest →
    w.step src name rest t = .ok w' → w.points ≤ w'.points
  /-- A conditional, loop, handler or ternary that is entered adds at least one and the nesting given. -/
  paid : ∀ visits w s rest w', Run src name (start f base) visits w → w.pending = .enter s :: rest →
    s.paysNesting = true → w.step src name rest (.enter s) = .ok w' → w.points + (1 + base) ≤ w'.points
  /-- When nothing is pending any more, the counter is back at the nesting given. -/
  back : ∀ visits w, Run src name (start f base) visits w → w.pending = [] → w.nesting = base

theorem isSteady (src : Source) (name : Option String) (hf : f.node.isFunctionLike = true) (hbase : 0 ≤ base) :
    IsSteady src name f base where
  counter visits w hr := hr.nesting_eq
  floor visits w hr := hr.le_nesting
  branches visits w s rest hr hw _ helse := (hr.stands hw).above_of_isElseIf hf helse
  kept visits w t rest w' hr hw hs := (step_points_le hf hbase (hr.stands hw) hs).1
  paid visits w s rest w' hr hw hpays hs := (step_points_le hf hbase (hr.stands hw) hs).2 s rfl hpays
  back visits w hr hdone := by
    have hcounter := hr.nesting_eq
    rw [hdone] at hcounter
    exact hcounter.trans (Int.add_zero base)

end Walk

namespace Site

/-- **A score is at least one and the nesting given for each site that pays for its nesting.** -/
theorem score_ge {src : Source} {name : Option String} {f : Site} {base p : Int} (hf : f.node.isFunctionLike = true)
    (hbase : 0 ≤ base) (hs : f.score src base name = .ok p) : (1 + base) * (f.own.countP paysNesting : Nat) ≤ p := by
  have hentries := (entries_of_score hs).1
  unfold score at hs
  split at hs
  · obtain ⟨w, hw, rfl⟩ := Outcome.map_eq_ok_iff.1 hs
    obtain ⟨visits, hr, hdone⟩ := Walk.exists_run_of_finish hw
    rw [hr.entries_eq, Walk.entries_done hdone, List.append_nil] at hentries
    have hpoints := hr.points_le hf hbase (Walk.stands_start f base)
    have hcount : (visits.countP fun v => v.1.paysNesting) = f.own.countP paysNesting := by
      rw [hentries, List.countP_map]
      rfl
    rw [hcount] at hpoints
    simpa [Walk.start] using hpoints
  · cases hs

/-- **The walk through a function keeps its counter, and its score is at least one and the nesting given for each
conditional, loop, handler and ternary that the function owns**; so it is never negative.  There is a score wherever the
function can be walked. -/
theorem walk_steady (src : Source) (name : Option String) {f : Site} {base : Int} (hf : f.node.isFunctionLike = true)
    (hbase : 0 ≤ base) :
    Walk.IsSteady src name f base ∧ (f.node.isWalkable = true → ∃ p, f.score src base name = .ok p) ∧
      ∀ p, f.score src base name = .ok p → (1 + base) * (f.own.countP paysNesting : Nat) ≤ p ∧ 0 ≤ p := by
  refine ⟨Walk.isSteady src name hf hbase, ?_, ?_⟩
  · intro hwalkable
    exact ⟨_, score_eq_cost src f base name hwalkable⟩
  · intro p hs
    have hleast := score_ge hf hbase hs
    have hnonneg : 0 ≤ (1 + base) * (f.own.countP paysNesting : Nat) :=
      Int.mul_nonneg (by omega) (Int.natCast_nonneg _)
    exact ⟨hleast, hnonneg.trans hleast⟩

theorem walk_steady_ladder :
    (root ladder).node.isFunctionLike = true ∧ (0 : Int) ≤ 1 ∧ Walk.IsSteady (.ofString "f") none (root ladder) 1 ∧
      (root ladder).score (.ofString "f") 1 none = .ok 16 ∧ (root ladder).own.countP paysNesting = 5 ∧
      (1 + 1 : Int) * 5 ≤ 16 := by
  obtain ⟨hsteady, -, hleast⟩ :=
    walk_steady (.ofString "f") none (f := root ladder) (by decide) (by decide : (0 : Int) ≤ 1)
  have hs : (root ladder).score (.ofString "f") 1 none = .ok 16 :=
    (score_eq_own_cost (.ofString "f") (root ladder) 1 none (by decide)).trans (congrArg Except.ok (by decide +kernel))
  have hcount : (root ladder).own.countP paysNesting = 5 := by decide +kernel
  have hsum := (hleast 16 hs).1
  rw [hcount] at hsum
  exact ⟨by decide, by decide, hsteady, hs, hcount, hsum⟩

end Site
end Cognitive
