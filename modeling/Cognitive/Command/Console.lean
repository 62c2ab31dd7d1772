import Cognitive.Report.Distribution
/-!
# What is printed

Lines of text, in which words in square brackets set the style, and tables.  The results of a batch are printed as a
table of its files, a table of its most complex functions, a line of figures or two, and a line for every file that was
not measured.
-/
namespace Cognitive
namespace Command

open Number

/-- A column of a table: its heading, the side it is set to, and its style. -/
structure Column where
  header : String
  side : String
  style : String
deriving DecidableEq, Repr

/-- A table. -/
structure PrintedTable where
  title : String
  columns : List Column
  rows : List (List String)
deriving DecidableEq, Repr

/-- One thing that is printed. -/
inductive Printed where
  | line (text : String)
  | table (t : PrintedTable)
deriving DecidableEq, Repr

def leftColumn (header style : String) : Column := ⟨header, "left", style⟩

def rightColumn (header style : String) : Column := ⟨header, "right", style⟩

def styled (style text : String) : String := "[" ++ style ++ "]" ++ text ++ "[/" ++ style ++ "]"

/-- The style of a score: the least score of a style comes with it. -/
def scoreStyle (score : Int) : String :=
  if 15 ≤ score then "red" else if 8 ≤ score then "yellow" else "green"

def styledScore (score : Int) : String := styled (scoreStyle score) (toString score)

def fileRow (r : FileResult) : List String :=
  match r.verdict with
  | .failed _ => [r.fileName, styled "red" "error", "", "", ""]
  | .measured m =>
    [r.fileName, toString m.totalLines, toString m.nonBlankLines, toString m.functionCount, styledScore m.maxComplexity]

def filesTable (s : Summary) : PrintedTable where
  title := match s.rootFolder with
    | some root => if root.isEmpty then "Files" else "Files in " ++ root
    | none => "Files"
  columns := [leftColumn "File" "cyan", rightColumn "LOC" "", rightColumn "NLOC" "", rightColumn "Functions" "",
    rightColumn "Max CC" ""]
  rows := s.results.map fileRow

def spotsTable (spots : List Spot) : PrintedTable where
  title := "Most complex functions"
  columns := [leftColumn "Function" "bold", leftColumn "File" "cyan", rightColumn "Line" "dim", rightColumn "CC" ""]
  rows := spots.map fun p =>
    [p.name, p.fileName, match p.startLine with | some n => toString n | none => "", styledScore p.complexity]

def figureLines (x : Statistics) : List String :=
  let counts := styled "bold" (toString x.fileCount) ++ " file(s), " ++ styled "bold" (toString x.functionCount) ++
    " function(s), " ++ toString x.totalLines ++ " LOC / " ++ toString x.nonBlankLines ++ " NLOC"
  let scores := "Complexity  mean " ++ x.mean.fixed 2 ++ "  median " ++ x.median.fixed 1 ++ "  p90 " ++
    x.ninetieth.fixed 1 ++ "  max " ++ toString x.greatest
  let failures := styled "yellow" (toString x.failedCount ++ " file(s) failed to parse")
  [counts] ++ (if x.functionCount = 0 then [] else [scores]) ++ (if x.failedCount = 0 then [] else [failures])

def errorLine (text : String) : Printed := .line (styled "red" "Error:" ++ " " ++ text)

def failureLines (s : Summary) : List Printed :=
  s.failures.map fun r => errorLine (r.fileName ++ ": " ++ r.error?.getD "")

/-- The words that set a style, as they stand between brackets. -/
def styleWords : List String := ["bold", "dim", "red", "yellow", "green"]

def unstyled (text : String) : String :=
  styleWords.foldl (fun t w => (t.replace ("[" ++ w ++ "]") "").replace ("[/" ++ w ++ "]") "") text

/-- What is printed as plain lines; the cells of a row stand apart by tabs. -/
def Printed.lines : Printed → List String
  | .line text => [unstyled text]
  | .table t =>
    t.title :: Text.join "\t" (t.columns.map (·.header)) :: t.rows.map fun row => Text.join "\t" (row.map unstyled)

def report (s : Summary) (x : Statistics) : List Printed :=
  [.table (filesTable s)] ++ (if x.hotspots.isEmpty then [] else [.table (spotsTable x.hotspots)]) ++
    (figureLines x).map .line ++ failureLines s

end Command
end Cognitive
