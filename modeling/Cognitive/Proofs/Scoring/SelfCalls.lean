import Cognitive.Proofs.Scoring.Entered
import Cognitive.Proofs.Scoring.Records
import Cognitive.Proofs.Scoring.Shares
/-!
# What the name of a function costs it

The name that a function is scored under is only looked at in calls.  Walks over the same work go through the same
steps under every name (`Walk.finish_congr`), and a score under a name is the score without one and a point for each
call of that name that the function owns (`Site.score_named`).  A function without a name of its own is scored under
the name that is shown in its place, so it is charged for the calls of that name (`Tree.unnamed_pay_for_placeholder`).
-/
namespace Cognitive

namespace Walk

variable {src : Source} {name name' : Option String} {w w' : Walk}

/-- A step leaves the same work, or breaks off the same way, under every name and at all points and nestings. -/
theorem step_congr (t : Work) (rest : List Work) :
    (w.step src name rest t).map (·.pending) = (w'.step src name' rest t).map (·.pending) := by
  cases t with
  | close levels => rfl
  | enter s =>
    simp only [step]
    split
    · rfl
    · split
      · simp only [Except.map, enter, Site.effect_opened]
      · rfl

/-- **Whether a walk ends or breaks off hangs on its work alone**, and not on the name, the points or the nesting. -/
theorem finish_congr (h : w.pending = w'.pending) :
    (w.finish src name).map (fun _ => ()) = (w'.finish src name').map fun _ => () := by
  induction w using finish.induct src name generalizing w' with
  | case1 w hw =>
    rw [finish_done hw, finish_done (h ▸ hw)]
    rfl
  | case2 w t rest hw fault hs =>
    have hstep : (w.step src name rest t).map (·.pending) = (w'.step src name' rest t).map (·.pending) :=
      step_congr t rest
    rw [hs] at hstep
    have hs' : w'.step src name' rest t = .error fault := Outcome.map_eq_error_iff.1 hstep.symm
    rw [finish_fault hw hs, finish_fault (h ▸ hw) hs']
  | case3 w t rest hw v hs ih =>
    have hstep : (w.step src name rest t).map (·.pending) = (w'.step src name' rest t).map (·.pending) :=
      step_congr t rest
    rw [hs] at hstep
    obtain ⟨v', hs', hv⟩ := Outcome.map_eq_ok_iff.1 hstep.symm
    rw [finish_next hw hs, finish_next (h ▸ hw) hs', ih hv.symm]

end Walk

namespace Site

variable (src : Source)

/-- The site is a call of a name. -/
def isCallOf (name : Option String) (v : Site) : Bool := v.node.kind == .call && v.callsName src name

/-- How many calls of a name a function owns. -/
def callsOf (name : Option String) (f : Site) : Nat := f.own.countP (isCallOf src name)

/-- Under a name a site costs one point more than without one if it is a call of that name. -/
theorem effect_named (name : Option String) (v : Site) (nesting : Int) :
    (v.effect src name nesting).points = (v.effect src none nesting).points + pointIf (v.isCallOf src name) := by
  unfold effect isCallOf
  have hnone : v.callsName src none = false := by simp [callsName]
  cases v.node.kind <;> simp [pointIf, hnone]

theorem cost_named (name : Option String) (visits : List (Site × Int)) :
    cost src name visits = cost src none visits + (visits.countP fun v => v.1.isCallOf src name : Nat) := by
  induction visits with
  | nil => rfl
  | cons v visits ih =>
    rw [cost_cons, cost_cons, ih, effect_named, List.countP_cons]
    cases v.1.isCallOf src name <;> simp [pointIf] <;> omega

theorem score_congr (f : Site) (nesting : Int) (name name' : Option String) :
    (f.score src nesting name).map (fun _ => ()) = (f.score src nesting name').map fun _ => () := by
  have hwalks : ((Walk.start f nesting).finish src name).map (fun _ => ()) =
      ((Walk.start f nesting).finish src name').map fun _ => () := Walk.finish_congr rfl
  unfold score
  split
  · generalize (Walk.start f nesting).finish src name = a, (Walk.start f nesting).finish src name' = b at hwalks
    cases a <;> cases b <;> simp_all [Except.map]
  · rfl

/-- **A score under a name is the score without one, and a point for each call of the name.** -/
theorem score_named (f : Site) (nesting : Int) (name : Option String) :
    f.score src nesting name = (f.score src nesting none).map (· + (f.callsOf src name : Int)) := by
  have hends := score_congr src f nesting name none
  cases hnone : f.score src nesting none with
  | error fault =>
    rw [hnone] at hends
    exact Outcome.map_eq_error_iff.1 hends
  | ok c =>
    rw [hnone] at hends
    obtain ⟨p, hp, -⟩ := Outcome.map_eq_ok_iff.1 hends
    obtain ⟨hentries, hcost⟩ := entries_of_score hp
    obtain ⟨hentries', hcost'⟩ := entries_of_score hnone
    have hcalls : (f.own.map fun v => (v, nesting + (f.levelsTo v : Int))).countP (fun v => v.1.isCallOf src name) =
        f.callsOf src name := by
      rw [List.countP_map]
      rfl
    have htotal : p = c + (f.callsOf src name : Int) := by
      rw [hcost, hcost', hentries, hentries', cost_named src name, hcalls]
    rw [hp, htotal]
    rfl

/-- The record of a function without a name. -/
theorem record_of_unnamed {f : Site} {r : FunctionRecord} (hn : f.name? src = none) (hr : f.record src = .ok r) :
    r.name = anonymous ∧ ∃ c, f.score src f.baseNesting none = .ok c ∧
      r.complexity = c + (f.callsOf src (some anonymous) : Int) := by
  have hshown : f.displayName src = anonymous := by simp [displayName, hn]
  rw [record, hshown, score_named] at hr
  obtain ⟨p, hp, hr⟩ := Outcome.bind_eq_ok_iff.1 hr
  obtain ⟨c, hc, rfl⟩ := Outcome.map_eq_ok_iff.1 hp
  cases hr
  exact ⟨rfl, c, hc, rfl⟩

end Site

namespace Tree

/-- **A function without a name pays for the calls of the name that is shown in its place.**  Its record has the score
that it has without a name, and a point for each such call; where there is none, it has just that score. -/
theorem unnamed_pay_for_placeholder {t : Tree} {source : Script} {path : String} {m : FileMetrics}
    (h : t.metrics source path = .ok m) :
    ∃ n, t.root = some n ∧ List.Forall₂ (fun f r => f.name? t.source = none → r.name = anonymous ∧
      ∃ c, f.score t.source f.baseNesting none = .ok c ∧ r.complexity = c + (f.callsOf t.source (some anonymous) : Int))
        (Site.root n).functions m.functions := by
  obtain ⟨n, -, hroot, -, hrecords, -⟩ := exists_of_metrics h
  refine ⟨n, hroot, (Outcome.mapM_eq_ok_iff.1 hrecords).imp ?_⟩
  intro f r hr hn
  exact Site.record_of_unnamed t.source hn hr

/-- A function without a name that calls something named as what is shown in place of one. -/
def namesake : Node :=
  .plain "arrow_function" none
    [.plain "call_expression" none
      [.mk ⟨"identifier", true, false, false, 0, 9, some "function", true, true, true, true⟩ [],
       .plain "arguments" (some "arguments") []]]

theorem unnamed_pay_for_placeholder_namesake :
    ∃ m r, metrics ⟨.ofString "anonymous", some namesake⟩ "anonymous" "a.js" = .ok m ∧ m.functions.head? = some r ∧
      (Site.root namesake).name? (.ofString "anonymous") = none ∧ r.name = "anonymous" ∧ r.complexity = 1 ∧
      (Site.root namesake).score (.ofString "anonymous") 0 none = .ok 0 := by
  have hroot : (⟨.ofString "anonymous", some namesake⟩ : Tree).root = some namesake := rfl
  obtain ⟨-, m, -, -, hm, -⟩ := exists_metrics hroot (by decide) "anonymous" "a.js"
  obtain ⟨n, hn, hall⟩ := unnamed_pay_for_placeholder hm
  cases hn
  have hname : (Site.root namesake).name? (.ofString "anonymous") = none := by decide
  have hfunctions : (Site.root namesake).functions = Site.root namesake ::
      (Site.root namesake).below.filter fun v => v.node.isFunctionLike := rfl
  rw [hfunctions] at hall
  obtain ⟨r, rest, hr, -, hrecords⟩ := List.forall₂_cons_left_iff.1 hall
  obtain ⟨hshown, c, hc, hcomplexity⟩ := hr hname
  have hscore : (Site.root namesake).score (.ofString "anonymous") 0 none = .ok 0 :=
    (Site.score_eq_own_cost _ _ _ _ (by decide)).trans (congrArg Except.ok (by decide +kernel))
  have hcalls : (Site.root namesake).callsOf (.ofString "anonymous") (some anonymous) = 1 := by decide +kernel
  have hbase : ((Site.root namesake).baseNesting : Int) = 0 := rfl
  rw [hbase, hscore] at hc
  cases hc
  rw [hcalls] at hcomplexity
  exact ⟨m, r, hm, by rw [hrecords]; rfl, hname, hshown, hcomplexity, hscore⟩

end Tree
end Cognitive
