import Cognitive.Proofs.Scoring.ElseChain
import Cognitive.Proofs.Scoring.Shares
/-!
# Where a walk comes to a function inside

A function inside another is skipped by the walk through the outer one and starts at a nesting of its own, which counts
the ancestors that deepen.  The walk keeps its stack in order (`Walk.Stands`): whatever is pending will be met at the
nesting given and the levels that open on the way to it (`Walk.nesting_of_run`).  So both numbers are counts over the
sites between the two functions, and they differ by what the two rules count differently: the outer function itself,
the branches of elses, and the ternaries (`Tree.baseNesting_of_met`).
-/
namespace Cognitive

/-! ## The stack in order -/

namespace Walk

variable {src : Source} {name : Option String} {f g : Site} {base : Int}

/-- Pending sites lie below the function, and each will be met at the nesting given and the levels that open on the way
to it, once what is pending before it has been closed. -/
def Stands (f : Site) (base : Int) : Int → List Work → Prop
  | _, [] => True
  | nesting, .enter s :: rest => s ∈ f.below ∧ nesting = base + f.levelsTo s ∧ Stands f base nesting rest
  | nesting, .close levels :: rest => Stands f base (nesting - levels) rest

theorem stands_enterAll {nesting : Int} {sites : List Site} {rest : List Work}
    (h : ∀ s ∈ sites, s ∈ f.below ∧ nesting = base + f.levelsTo s) (hrest : Stands f base nesting rest) :
    Stands f base nesting (sites.map .enter ++ rest) := by
  induction sites with
  | nil => exact hrest
  | cons s sites ih =>
    obtain ⟨hs, hn⟩ := h s List.mem_cons_self
    exact ⟨hs, hn, ih fun c hc => h c (List.mem_cons_of_mem s hc)⟩

theorem stands_start (f : Site) (base : Int) : Stands f base (start f base).nesting (start f base).pending := by
  have hchildren : ∀ s ∈ f.children, s ∈ f.below ∧ base = base + (f.levelsTo s : Int) := by
    intro s hs
    have hlevels : f.levelsTo s = 0 := by simp [Site.levelsTo, Site.between_child_self hs]
    exact ⟨Site.mem_below_of_mem_children hs, by simp [hlevels]⟩
  have hall : Stands f base base (f.children.map .enter ++ []) := stands_enterAll hchildren trivial
  simpa [start] using hall

/-- **A step keeps the stack in order.** -/
theorem step_stands {w w' : Walk} {t : Work} {rest : List Work} (h : Stands f base w.nesting (t :: rest))
    (hs : w.step src name rest t = .ok w') : Stands f base w'.nesting w'.pending := by
  cases t with
  | close levels =>
    cases hs
    exact h
  | enter s =>
    obtain ⟨hbelow, hnesting, hrest⟩ := h
    rcases step_enter_cases hs with ⟨-, rfl⟩ | ⟨-, -, rfl⟩
    · exact hrest
    · simp only [enter, Site.effect_opened]
      apply stands_enterAll
      · intro c hc
        have hlevels := Site.levelsTo_child hbelow hc
        exact ⟨Site.mem_below_child hbelow hc, by omega⟩
      · -- the close takes back just the levels that the site opens
        have hback : w.nesting + Site.pointIf s.opensLevel - Site.pointIf s.opensLevel = w.nesting := by omega
        simpa only [Stands, hback] using hrest

theorem run_stands {w w' : Walk} {visits : List (Site × Int)} (hr : Run src name w visits w')
    (h : Stands f base w.nesting w.pending) : Stands f base w'.nesting w'.pending := by
  induction hr with
  | refl w => exact h
  | next hw hs _ ih =>
    rw [hw] at h
    exact ih (step_stands h hs)

/-- The walk through a function, begun at some nesting, comes to a site when its counter is at a certain value. -/
def Meets (src : Source) (name : Option String) (f : Site) (base : Int) (g : Site) (nesting : Int) : Prop :=
  ∃ visits w rest, Run src name (start f base) visits w ∧ w.pending = .enter g :: rest ∧ w.nesting = nesting

/-- **A walk comes to a site at the nesting given and the levels that open on the way to it.** -/
theorem nesting_of_meets {nesting : Int} (h : Meets src name f base g nesting) :
    g ∈ f.below ∧ nesting = base + f.levelsTo g := by
  obtain ⟨visits, w, rest, hr, hw, rfl⟩ := h
  have hstands := run_stands hr (stands_start f base)
  rw [hw] at hstands
  exact ⟨hstands.1, hstands.2.1⟩

/-! ## No function inside is missed -/

/-- The work leads to a site: it is to enter the site itself, or one above it with no function on the way down. -/
def LeadsTo (g : Site) : Work → Prop
  | .enter s => s = g ∨ g ∈ s.below ∧ s.node.isFunctionLike = false ∧ ∀ a ∈ s.between g, a.node.isFunctionLike = false
  | .close _ => False

theorem exists_child_leadsTo {s : Site} (hg : g ∈ s.below) (hb : ∀ a ∈ s.between g, a.node.isFunctionLike = false) :
    ∃ c ∈ s.children, LeadsTo g (.enter c) := by
  obtain ⟨c, hc, rfl | hgc⟩ := Site.mem_below.1 hg
  · exact ⟨g, hc, .inl rfl⟩
  · have hcs := Site.mem_below_of_mem_children hc
    rw [Site.between_split hcs hgc] at hb
    refine ⟨c, hc, .inr ⟨hgc, hb c (by simp), ?_⟩⟩
    intro a ha
    exact hb a (by simp [ha])

/-- A step that does not come to the site leaves work that leads there. -/
theorem step_leadsTo {w w' : Walk} {t : Work} {rest : List Work} (hs : w.step src name rest t = .ok w')
    (hne : t ≠ .enter g) (h : ∃ u ∈ t :: rest, LeadsTo g u) : ∃ u ∈ w'.pending, LeadsTo g u := by
  obtain ⟨u, hu, hlead⟩ := h
  rcases List.mem_cons.1 hu with rfl | hu
  · cases u with
    | close levels => cases hlead
    | enter s =>
      rcases hlead with rfl | ⟨hg, hn, hb⟩
      · exact absurd rfl hne
      · rcases step_enter_cases hs with ⟨hf, -⟩ | ⟨-, -, rfl⟩
        · rw [hn] at hf
          cases hf
        · obtain ⟨c, hc, hlead⟩ := exists_child_leadsTo hg hb
          exact ⟨.enter c, by simp [enter, hc], hlead⟩
  · have hrest : rest ⊆ w'.pending := by
      cases t with
      | close levels =>
        cases hs
        exact List.Subset.refl rest
      | enter s =>
        rcases step_enter_cases hs with ⟨-, rfl⟩ | ⟨-, -, rfl⟩
        · exact List.Subset.refl rest
        · intro v hv
          simp [enter, hv]
    exact ⟨u, hrest hu, hlead⟩

/-- **A walk that ends has come to every site that its work led to.** -/
theorem exists_run_of_leadsTo {w w' : Walk} (hw : w.finish src name = .ok w') (h : ∃ u ∈ w.pending, LeadsTo g u) :
    ∃ visits v rest, Run src name w visits v ∧ v.pending = .enter g :: rest := by
  induction w using finish.induct src name with
  | case1 w hdone =>
    rw [hdone] at h
    obtain ⟨u, hu, -⟩ := h
    cases hu
  | case2 w t rest ht fault hs =>
    rw [finish_fault ht hs] at hw
    cases hw
  | case3 w t rest ht v hs ih =>
    by_cases hg : t = .enter g
    · exact ⟨[], w, rest, .refl w, hg ▸ ht⟩
    · rw [finish_next ht hs] at hw
      rw [ht] at h
      obtain ⟨visits, u, later, hr, hu⟩ := ih hw (step_leadsTo hs hg h)
      exact ⟨_, u, later, .next ht hs hr, hu⟩

theorem exists_meets {p : Int} (hs : f.score src base name = .ok p) (hg : g ∈ f.below)
    (hb : ∀ a ∈ f.between g, a.node.isFunctionLike = false) : ∃ nesting, Meets src name f base g nesting := by
  unfold Site.score at hs
  split at hs
  · obtain ⟨w', hw', -⟩ := Outcome.map_eq_ok_iff.1 hs
    obtain ⟨c, hc, hlead⟩ := exists_child_leadsTo hg hb
    obtain ⟨visits, w, rest, hr, hw⟩ := exists_run_of_leadsTo hw' ⟨.enter c, by simp [start, hc], hlead⟩
    exact ⟨w.nesting, visits, w, rest, hr, hw, rfl⟩
  · cases hs

end Walk

/-! ## Two ways to count -/

namespace Site

/-- How many of the sites between two are conditionals in the else of another. -/
def elseIfsTo (f v : Site) : Nat := (f.between v).countP fun a => a.node.kind == .conditional && a.isElseIf

def ternariesTo (f v : Site) : Nat := (f.between v).countP fun a => a.node.kind == .ternary

theorem map_node_ancestorsFrom : ∀ (up : List Node) (address : List Nat),
    (ancestorsFrom up address).map (·.node) = up
  | [], _ => rfl
  | n :: rest, address => by rw [ancestorsFrom, List.map_cons, map_node_ancestorsFrom rest address.tail]

theorem baseNesting_eq_countP (g : Site) : g.baseNesting = g.ancestors.countP fun a => a.node.kind.deepens := by
  have hup : g.ancestors.map (·.node) = g.up := map_node_ancestorsFrom g.up g.address
  unfold baseNesting
  rw [← hup, List.countP_map]
  rfl

/-- A site that is no function deepens when it opens a level, but for the branch of an else, which only deepens, and a
ternary, which only opens a level. -/
theorem deepens_add_ternary {a : Site} (h : a.node.isFunctionLike = false) :
    (if a.node.kind.deepens then 1 else 0) + (if a.node.kind == .ternary then 1 else 0) =
      (if a.opensLevel then 1 else 0) + if a.node.kind == .conditional && a.isElseIf then 1 else 0 := by
  unfold Node.isFunctionLike at h
  unfold opensLevel
  generalize a.node.kind = k at h ⊢
  cases k with
  | conditional => cases a.isElseIf <;> simp [Kind.deepens]
  | function => cases h
  | method => cases h
  | _ => simp [Kind.deepens]

theorem countP_deepens_add {sites : List Site} (h : ∀ a ∈ sites, a.node.isFunctionLike = false) :
    sites.countP (fun a => a.node.kind.deepens) + sites.countP (fun a => a.node.kind == .ternary) =
      sites.countP opensLevel + sites.countP fun a => a.node.kind == .conditional && a.isElseIf := by
  induction sites with
  | nil => rfl
  | cons a sites ih =>
    have hrest := ih fun b hb => h b (List.mem_cons_of_mem a hb)
    have hfirst := deepens_add_ternary (h a List.mem_cons_self)
    simp only [List.countP_cons]
    omega

/-- **The nesting that a function starts at**, counted from the nearest function around it. -/
theorem baseNesting_below {f g : Site} (hf : f.node.isFunctionLike = true) (hg : g ∈ f.below)
    (hb : ∀ a ∈ f.between g, a.node.isFunctionLike = false) :
    (g.baseNesting : Int) = f.baseNesting + f.levelsTo g + 1 + f.elseIfsTo g - f.ternariesTo g := by
  have hdeepens : f.node.kind.deepens = true := by
    unfold Node.isFunctionLike at hf
    cases hk : f.node.kind <;> simp [hk, Kind.isFunctionLike, Kind.deepens] at hf ⊢
  have hsplit : g.baseNesting = (f.between g).countP (fun a => a.node.kind.deepens) + (1 + f.baseNesting) := by
    rw [baseNesting_eq_countP, baseNesting_eq_countP, ancestors_eq_between hg, List.countP_append,
      List.countP_cons, if_pos hdeepens, Nat.add_comm 1]
  have hcount := countP_deepens_add hb
  unfold levelsTo elseIfsTo ternariesTo
  omega

end Site

/-- **The nesting that a function starts at, and the nesting at which the walk through the function around it comes to
it.**  The first is the second and one for the function around, and one for each branch of an else between the two, less
one for each ternary.  The walk comes to every such function unless it breaks off. -/
theorem Tree.baseNesting_of_met (t : Tree) (name : Option String) {f g : Site} (hg : t.HasFunction g)
    (hf : g.function? = some f) :
    (∀ nesting, Walk.Meets t.source name f f.baseNesting g nesting →
        (g.baseNesting : Int) = nesting + 1 + f.elseIfsTo g - f.ternariesTo g) ∧
      ∀ p, f.score t.source f.baseNesting name = .ok p →
        ∃ nesting, Walk.Meets t.source name f f.baseNesting g nesting := by
  obtain ⟨n, hroot, -⟩ := hg.1
  have hbelow := (holds_of_function? hroot hg.1 hf).2
  have hfun : f.node.isFunctionLike = true := by simpa using List.find?_some hf
  have hbetween := (Site.function?_eq_some_iff hfun hbelow).1 hf
  refine ⟨?_, ?_⟩
  · intro nesting hmeets
    have hcounter := (Walk.nesting_of_meets hmeets).2
    have hbase := Site.baseNesting_below hfun hbelow hbetween
    omega
  · intro p hs
    exact Walk.exists_meets hs hbelow hbetween

/-! ## A function in a branch -/

namespace Site

/-- A function in a ternary, in the branch of an else, in a function. -/
def callbackInBranch : Node :=
  .plain "function_declaration" none
    [.plain "if_statement" none
      [.plain "else_clause" (some "alternative")
        [.plain "if_statement" none [.plain "ternary_expression" none [.plain "arrow_function" none []]]]]]

/-- The branch of the else. -/
def branch : Site := (((root callbackInBranch).down 0).down 0).down 0

def callback : Site := (branch.down 0).down 0

theorem callback_mem_below : callback ∈ (root callbackInBranch).below := by
  have hbranch : branch ∈ (root callbackInBranch).below :=
    mem_below_child (mem_below_child (mem_below_of_mem_children (List.mem_of_getElem? (i := 0) rfl))
      (List.mem_of_getElem? (i := 0) rfl)) (List.mem_of_getElem? (i := 0) rfl)
  exact mem_below_child (mem_below_child hbranch (List.mem_of_getElem? (i := 0) rfl))
    (List.mem_of_getElem? (i := 0) rfl)

end Site

theorem Tree.baseNesting_of_met_callback :
    Site.callback.node.isFunctionLike = true ∧ Site.callback.function? = some (.root Site.callbackInBranch) ∧
      Site.callback.baseNesting = 3 ∧ Walk.Meets (.ofString "f") none (.root Site.callbackInBranch) 0 Site.callback 2 := by
  have hroot : (⟨.ofString "f", some Site.callbackInBranch⟩ : Tree).root = some Site.callbackInBranch := rfl
  have hg : (⟨.ofString "f", some Site.callbackInBranch⟩ : Tree).HasFunction Site.callback :=
    ⟨(holds_iff hroot).2 (List.mem_cons_of_mem _ Site.callback_mem_below), by decide⟩
  have hf : Site.callback.function? = some (.root Site.callbackInBranch) := rfl
  obtain ⟨hcounter, hmet⟩ := baseNesting_of_met _ none hg hf
  obtain ⟨nesting, hmeets⟩ := hmet _ (Site.score_eq_own_cost _ _ _ _ (by decide))
  have hvalue := hcounter nesting hmeets
  have hbase : Site.callback.baseNesting = 3 := by decide
  have helse : (Site.root Site.callbackInBranch).elseIfsTo Site.callback = 1 := by decide
  have hternary : (Site.root Site.callbackInBranch).ternariesTo Site.callback = 1 := by decide
  have htwo : nesting = 2 := by omega
  exact ⟨by decide, hf, hbase, htwo ▸ hmeets⟩

end Cognitive
