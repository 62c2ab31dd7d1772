import Cognitive.Batch.EntryName
import Cognitive.Grammar.Parse
import Cognitive.Metrics.Inventory
/-!
# Analysing a batch

Each file of a batch is parsed and measured on its own.  A file that cannot be parsed becomes a result with an error and
does not stop the others; one that cannot be encoded stops them all.  Results come in the order of the files, named
relative to the root that all names share, whether the files are analysed one after another or several at a time.
-/
namespace Cognitive

/-- A file to analyse: its name in the batch and its source. -/
structure Entry where
  name : String
  text : Script
deriving DecidableEq, Repr

namespace Grammars

def measure (g : Grammars) (path : String) (source : Script) : Outcome FileMetrics := do
  let tree ← g.parseFile source path
  tree.metrics source path

/-- The result for one file: a refusal that concerns the file alone becomes its error. -/
def result (g : Grammars) (e : Entry) : Outcome FileResult :=
  match g.measure e.name e.text with
  | .ok m => .ok ⟨e.name, .measured m⟩
  | .error (.refused r) => if r.cls.isAnalysis then .ok ⟨e.name, .failed r.text⟩ else refuse r
  | .error (.broke b) => breakDown b

end Grammars

/-- Applies a function to every item, where every item has a task of its own. -/
def concurrently {α β : Type} (f : α → β) (items : List α) : List β :=
  (items.map fun x => Task.spawn fun _ => f x).map Task.get

/-- What the tasks give is what the function gives, in the order of the items. -/
theorem concurrently_eq_map {α β : Type} (f : α → β) (items : List α) : concurrently f items = items.map f := by
  simp [concurrently, Function.comp_def, Task.spawn]

/-- Applies a function to every item, some at a time: each group of items is finished before the next is begun. -/
def inGroups {α β : Type} (groupSize : Nat) (f : α → β) (items : List α) : List β :=
  if _none : groupSize = 0 ∨ items = [] then items.map f
  else concurrently f (items.take groupSize) ++ inGroups groupSize f (items.drop groupSize)
termination_by items.length
decreasing_by
  have : 0 < items.length := List.length_pos_iff.2 fun he => _none (.inr he)
  simp only [List.length_drop]
  omega

/-- The size of the groups does not show in what comes out. -/
theorem inGroups_eq_map {α β : Type} (groupSize : Nat) (f : α → β) (items : List α) :
    inGroups groupSize f items = items.map f := by
  fun_induction inGroups groupSize f items with
  | case1 => rfl
  | case2 items _ ih => rw [concurrently_eq_map, ih, ← List.map_append, List.take_append_drop]

/-- The results of some outcomes in order, or the first failure among them. -/
def allOrFirst {α : Type} : List (Outcome α) → Outcome (List α)
  | [] => .ok []
  | .ok x :: rest => (allOrFirst rest).map (x :: ·)
  | .error failure :: _ => .error failure

namespace Grammars

/-- What comes of each of some files, in their order; more than one worker analyses that many at a time. -/
def outcomes (g : Grammars) (workers : Option Nat) (entries : List Entry) : List (Outcome FileResult) :=
  match workers with
  | some n => if 1 < n ∧ 1 < entries.length then inGroups n g.result entries else entries.map g.result
  | none => entries.map g.result

/-- What comes of the files does not depend on the number of workers. -/
theorem outcomes_eq (g : Grammars) (workers : Option Nat) (entries : List Entry) :
    g.outcomes workers entries = entries.map g.result := by
  unfold outcomes
  split
  · split
    · exact inGroups_eq_map ..
    · rfl
  · rfl

/-- Analyses a batch.  The root is found among all names that are given, else among the names of the files. -/
def analyze (g : Grammars) (workers : Option Nat) (entries : List Entry) (names : Option (List String)) :
    Outcome Summary := do
  let root := EntryName.commonRoot (names.getD (entries.map Entry.name))
  let relative := entries.map fun e => ⟨EntryName.relativeTo root e.name, e.text⟩
  return ⟨root, ← allOrFirst (g.outcomes workers relative)⟩

end Grammars
end Cognitive
