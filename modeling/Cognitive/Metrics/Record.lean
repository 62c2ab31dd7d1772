import Cognitive.Error
/-!
# Records of a file

What is measured of one file: its line counts and, for every function in it, a record with a name, the lines that hold
something, the score and the lines it spans.  A file either has metrics or an error, never both.
-/
namespace Cognitive

/-- One function of a file. -/
structure FunctionRecord where
  name : String
  /-- The lines of its text that hold something. -/
  lines : Int
  complexity : Int
  /-- Its first line, counted from one, where it is known. -/
  startLine : Option Int
  /-- Its last line, counted from one, where it is known. -/
  endLine : Option Int
deriving DecidableEq, Repr

/-- One file. -/
structure FileMetrics where
  totalLines : Int
  nonBlankLines : Int
  functions : List FunctionRecord
deriving DecidableEq, Repr

namespace FileMetrics

def functionCount (m : FileMetrics) : Nat := m.functions.length

def totalComplexity (m : FileMetrics) : Int := (m.functions.map (·.complexity)).foldr (· + ·) 0

def larger (best score : Int) : Int := if best < score then score else best

/-- The greatest score; zero for a file without functions. -/
def maxComplexity (m : FileMetrics) : Int :=
  match m.functions.map (·.complexity) with
  | [] => 0
  | first :: rest => rest.foldl larger first

end FileMetrics

/-- What came of one file. -/
inductive Verdict where
  | measured (metrics : FileMetrics)
  | failed (error : String)
deriving DecidableEq, Repr

/-- The result for one file of a batch. -/
structure FileResult where
  fileName : String
  verdict : Verdict
deriving DecidableEq, Repr

namespace FileResult

def metrics? (r : FileResult) : Option FileMetrics :=
  match r.verdict with
  | .measured m => some m
  | .failed _ => none

def error? (r : FileResult) : Option String :=
  match r.verdict with
  | .measured _ => none
  | .failed e => some e

/-- A result from metrics and an error, of which there must be exactly one. -/
def ofParts (fileName : String) (metrics : Option FileMetrics) (error : Option String) : Outcome FileResult :=
  match metrics, error with
  | some m, none => .ok ⟨fileName, .measured m⟩
  | none, some e => .ok ⟨fileName, .failed e⟩
  | _, _ => breakDown .resultNotExclusive

end FileResult

/-- The results of a batch, with the folder that holds all of it where there is one. -/
structure Summary where
  rootFolder : Option String
  results : List FileResult
deriving DecidableEq, Repr

def Summary.failures (s : Summary) : List FileResult := s.results.filter fun r => r.error?.isSome

end Cognitive
