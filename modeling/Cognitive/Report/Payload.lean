import Cognitive.Report.Average
/-!
# Reports as data

What the service and the command line hand out, as data values: the metrics of a file, the result for one file of a
batch, the summary of a batch, and the flat report on one piece of code.  In the flat report several columns are kept
for readers that expect them and always hold zero.
-/
namespace Cognitive

namespace Value

def ofNat (n : Nat) : Value := .int n

def ofInt? : Option Int → Value
  | some n => .int n
  | none => .null

def ofString? : Option String → Value
  | some s => .str s
  | none => .null

end Value

def FunctionRecord.payload (f : FunctionRecord) : Value :=
  .table [("name", .str f.name), ("NLOC", .int f.lines), ("CC", .int f.complexity),
    ("lineStart", .ofInt? f.startLine), ("lineEnd", .ofInt? f.endLine)]

def FileMetrics.payload (m : FileMetrics) : Value :=
  .table [("LOC", .int m.totalLines), ("NLOC", .int m.nonBlankLines), ("NOF", .ofNat m.functionCount),
    ("functions", .list (m.functions.map FunctionRecord.payload))]

/-- The result for one file: its metrics, or its error. -/
def FileResult.payload (r : FileResult) : Value :=
  match r.verdict with
  | .measured m => .table [("fileName", .str r.fileName), ("metrics", m.payload)]
  | .failed e => .table [("fileName", .str r.fileName), ("error", .str e)]

def Summary.payload (s : Summary) : Value :=
  .table [("rootFolder", .ofString? s.rootFolder), ("totalFiles", .ofNat s.results.length),
    ("results", .list (s.results.map FileResult.payload))]

def reportLanguage : String := "javascript"

def FunctionRecord.flatPayload (f : FunctionRecord) : Value :=
  .table [("cyclomatic_complexity", .int f.complexity), ("nloc", .int f.lines), ("token_count", .int 0),
    ("name", .str f.name), ("long_name", .str f.name), ("start_line", .ofInt? f.startLine), ("end_line", .int 0),
    ("max_nesting_depth", .int 0)]

def FileMetrics.flatPayload (m : FileMetrics) (fileName : String) : Outcome Value := do
  let average ← m.average
  return .table [("filename", .str fileName), ("language", .str reportLanguage), ("total_loc", .int m.totalLines),
    ("total_nloc", .int m.nonBlankLines), ("function_count", .ofNat m.functionCount),
    ("complexity_avg", .float average), ("complexity_max", .int m.maxComplexity),
    ("functions", .list (m.functions.map FunctionRecord.flatPayload))]

end Cognitive
