import Mathlib.Data.List.Basic
import Cognitive.Grammar.Parse
import Cognitive.Proofs.Tree.Below
import Cognitive.Proofs.Outcome
/-!
# The first error of a text

The search for the first error only goes into nodes that report one, and stops at each that it finds.  When the reports
are right (`Node.IsMarked`), it finds the first error in the whole pre-order list of the nodes
(`Node.firstErrorFrom_eq`).  So a text parses in a language exactly when its tree is clean, and otherwise the refusal
names that first error; text in the fallback language has a second try in the superset, which only ever adds a clean
tree.  A source that is no text, because it cannot be encoded, never gets that far (`Grammars.parseFile_of_marked`).
-/
namespace Cognitive
namespace Node

mutual
/-- The nodes at and below one, in pre-order, as far as children can be asked for. -/
def nodes : Node → List Node
  | .mk l cs => .mk l cs :: if l.childrenKnown then allNodes cs else []

def allNodes : List Node → List Node
  | [] => []
  | n :: rest => n.nodes ++ allNodes rest
end

theorem allNodes_eq_flatMap : ∀ ns : List Node, allNodes ns = ns.flatMap nodes
  | [] => rfl
  | n :: rest => by rw [allNodes, allNodes_eq_flatMap rest, List.flatMap_cons]

theorem nodes_eq (n : Node) : n.nodes = n :: if n.label.childrenKnown then n.children.flatMap nodes else [] := by
  cases n with
  | mk l cs => rw [nodes, allNodes_eq_flatMap, label, children]

theorem mem_nodes_self (n : Node) : n ∈ n.nodes := by simp [nodes_eq n]

theorem mem_nodes_of_child {n c m : Node} (hk : n.label.childrenKnown = true) (hc : c ∈ n.children)
    (hm : m ∈ c.nodes) : m ∈ n.nodes := by
  rw [nodes_eq n, if_pos hk]
  exact List.mem_cons_of_mem n (List.mem_flatMap.2 ⟨c, hc, hm⟩)

/-- **The reports of a tree are right**: a node reports an error exactly when there is an error node at or below it, and
its position can be asked for. -/
def IsMarked (n : Node) : Prop :=
  ∀ m ∈ n.nodes, (m.label.erroneous = true ↔ ∃ e ∈ m.nodes, e.isErrorNode = true) ∧ m.label.startKnown = true

instance (n : Node) : Decidable n.IsMarked :=
  inferInstanceAs (Decidable (∀ m ∈ n.nodes,
    (m.label.erroneous = true ↔ ∃ e ∈ m.nodes, e.isErrorNode = true) ∧ m.label.startKnown = true))

theorem IsMarked.child {n c : Node} (h : n.IsMarked) (hk : n.label.childrenKnown = true) (hc : c ∈ n.children) :
    c.IsMarked := by
  intro m hm
  exact h m (mem_nodes_of_child hk hc hm)

def firstError? (n : Node) : Option Node := n.nodes.find? isErrorNode

theorem IsMarked.erroneous_iff {n : Node} (h : n.IsMarked) : n.label.erroneous = true ↔ n.firstError?.isSome = true := by
  rw [(h n n.mem_nodes_self).1, firstError?, List.find?_isSome]

/-- **The search among marked nodes finds the first error of their pre-order list**, though it does not go through all
of it. -/
theorem firstErrorFrom_eq (pending : List Node) (h : ∀ n ∈ pending, n.IsMarked) :
    firstErrorFrom pending = .ok ((pending.flatMap nodes).find? isErrorNode) := by
  fun_induction firstErrorFrom pending with
  | case1 => rfl
  | case2 n rest herror => simp [nodes_eq n, herror]
  | case3 n rest herror herroneous hknown ih =>
    have hmarked := h n List.mem_cons_self
    have hnode : (n.nodes ++ rest.flatMap nodes).find? isErrorNode =
        ((n.children ++ rest).flatMap nodes).find? isErrorNode := by
      rw [nodes_eq n, if_pos hknown, List.cons_append, List.find?_cons_of_neg herror, List.flatMap_append]
    rw [List.flatMap_cons, hnode]
    apply ih
    intro c hc
    rcases List.mem_append.1 hc with hc | hc
    · exact hmarked.child hknown hc
    · exact h c (List.mem_cons_of_mem n hc)
  | case4 n rest herror herroneous hunknown =>
    -- a node that has no children to be asked for and is no error node reports no error
    obtain ⟨e, he, hee⟩ := ((h n List.mem_cons_self) n n.mem_nodes_self).1.1 herroneous
    rw [nodes_eq n, if_neg hunknown, List.mem_singleton] at he
    subst he
    exact absurd hee herror
  | case5 n rest herror hsound ih =>
    have hnone : n.nodes.find? isErrorNode = none := by
      have hmarked := (h n List.mem_cons_self).erroneous_iff
      rw [firstError?] at hmarked
      cases hf : n.nodes.find? isErrorNode with
      | none => rfl
      | some e => exact absurd (hmarked.2 (by rw [hf]; rfl)) hsound
    rw [List.flatMap_cons, List.find?_append, hnone, Option.none_or]
    exact ih fun c hc => h c (List.mem_cons_of_mem n hc)

/-- What is said of an error node: whether it is missing, and where it stands, with lines counted from one and columns
from zero. -/
def complaint (src : Source) (e : Node) : String :=
  let p := src.point e.label.start
  (if e.label.missing then "Missing " ++ e.type ++ " " else "Unexpected token ") ++
    "(" ++ toString (p.row + 1) ++ ":" ++ toString p.column ++ ")"

theorem complaint_ne_unlocated (src : Source) (e : Node) : e.complaint src ≠ ParseFault.unlocated.reason := by
  intro h
  have hfirst : (e.complaint src).toList.head? = some 'S' := by
    rw [h]
    rfl
  unfold complaint at hfirst
  cases hm : e.label.missing <;> simp [hm] at hfirst

/-- **What is wrong with the text of a marked tree** is its first error. -/
theorem exists_fault_of_firstError? (src : Source) {root e : Node} (h : root.IsMarked) (he : root.firstError? = some e) :
    ∃ fault, root.fault src = .ok fault ∧ fault.reason = e.complaint src := by
  have hmem := List.mem_of_find?_eq_some he
  have hstart : e.label.startKnown = true := (h e hmem).2
  have hpoint : e.startPoint? src = some (src.point e.label.start) := by rw [startPoint?, if_pos hstart]
  have hfound : firstErrorFrom [root] = .ok (some e) := by
    rw [firstErrorFrom_eq [root] (by simpa using h), List.flatMap_singleton]
    exact congrArg Except.ok he
  unfold fault
  rw [hfound]
  simp only [bind, Except.bind, hpoint]
  refine ⟨_, rfl, ?_⟩
  unfold complaint
  cases e.label.missing <;>
    simp only [ParseFault.reason, ParseFault.place, if_true, if_false, Bool.false_eq_true, String.append_assoc]

end Node

namespace Tree

def firstError? (t : Tree) : Option Node := t.root.bind Node.firstError?

/-- There is a root, and the reports below it are right. -/
def IsMarked (t : Tree) : Prop := ∃ n, t.root = some n ∧ n.IsMarked

/-- No node of the tree is an error or missing. -/
def IsClean (t : Tree) : Prop := ∀ n, t.root = some n → ∀ m ∈ n.nodes, m.type ≠ "ERROR" ∧ m.label.missing = false

theorem isClean_iff (t : Tree) : t.IsClean ↔ t.firstError? = none := by
  unfold IsClean firstError?
  cases t.root with
  | none => simp
  | some n => simp [Node.firstError?, Node.isErrorNode]

instance (t : Tree) : Decidable t.IsClean :=
  decidable_of_iff (t.firstError?.isNone = true) (by rw [Option.isNone_iff_eq_none, isClean_iff])

end Tree

namespace Grammars

variable {g : Grammars} {text : String}

/-- **A text whose tree is marked parses in a language when the tree is clean**, and is refused with the first error in
it otherwise. -/
theorem parseAs_of_marked (path : String) {l : Language} (h : (g.parse l text).IsMarked) :
    g.parseAs text path l = match (g.parse l text).firstError? with
      | none => .ok (g.parse l text)
      | some e => refuse (.parsing path l.name (e.complaint (g.parse l text).source)) := by
  obtain ⟨n, hroot, hn⟩ := h
  have hfirst : (g.parse l text).firstError? = n.firstError? := by simp [Tree.firstError?, hroot]
  have herroneous := hn.erroneous_iff
  rw [hfirst]
  unfold parseAs
  simp only [hroot]
  cases he : n.firstError? with
  | none =>
    rw [he] at herroneous
    rw [if_neg (by simp [herroneous])]
  | some e =>
    rw [he] at herroneous
    obtain ⟨fault, hfault, hreason⟩ := Node.exists_fault_of_firstError? (g.parse l text).source hn he
    rw [if_pos (by simp [herroneous]), hfault]
    simp only [hreason]

theorem isParseFailure_parseAs {path : String} {l : Language} (h : (g.parse l text).IsMarked) :
    isParseFailure (g.parseAs text path l) = (g.parse l text).firstError?.isSome := by
  rw [parseAs_of_marked path h]
  cases (g.parse l text).firstError? <;> rfl

/-- The language of the path decides, and for the fallback language the superset where it alone gives a clean tree. -/
theorem parseText_eq_of_marked {path : String} {l : Language} (hl : (Language.detect? path).getD .javascript = l)
    (h : ∀ l, (g.parse l text).IsMarked) :
    g.parseText text path = match (g.parse l text).firstError? with
      | none => .ok (g.parse l text)
      | some e =>
        if l = .javascript ∧ (g.parse .tsx text).IsClean then .ok (g.parse .tsx text)
        else refuse (.parsing path l.name (e.complaint (g.parse l text).source)) := by
  have hopen : g.parseText text path =
      if l = .javascript ∧ isParseFailure (g.parseAs text path l) then
        if isParseFailure (g.parseAs text path .tsx) then g.parseAs text path l else g.parseAs text path .tsx
      else g.parseAs text path l := hl ▸ rfl
  rw [hopen, isParseFailure_parseAs (h l), isParseFailure_parseAs (h .tsx), parseAs_of_marked path (h l),
    parseAs_of_marked path (h .tsx)]
  simp only [Tree.isClean_iff]
  cases (g.parse l text).firstError? with
  | none => simp
  | some e => by_cases hjs : l = .javascript <;> cases (g.parse .tsx text).firstError? <;> simp [hjs]

def withError (type : String) (children : List Node) : Node :=
  .mk { (Node.plain type none []).label with erroneous := true } children

/-- A semicolon that is missing in the second line. -/
def semicolon : Node := .mk { (Node.plain ";" none []).label with missing := true, erroneous := true, start := 1 } []

/-- Two errors deep down, the semicolon first. -/
def flawed : Node :=
  withError "program"
    [.plain "comment" none [], withError "expression_statement" [semicolon, withError "ERROR" []]]

def onlySuperset : Grammars :=
  ⟨fun l text => ⟨.ofString text, some (if l = .tsx then .plain "program" none [] else flawed)⟩⟩

theorem isMarked_onlySuperset (l : Language) (text : String) : (onlySuperset.parse l text).IsMarked := by
  refine ⟨_, rfl, ?_⟩
  cases l <;> decide

end Grammars
end Cognitive
