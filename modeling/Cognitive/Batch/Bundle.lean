import Cognitive.Batch.Analyze
import Cognitive.Settings.Filter
/-!
# Bundles

A bundle is what an archive or a directory gives to analysis: the source files that the settings select, and the names
of all its files, among which the root is looked for.
-/
namespace Cognitive

/-- The selected source files in order, and the names of all files. -/
structure Bundle where
  sources : List Entry
  names : List String
deriving DecidableEq, Repr

def Grammars.analyzeBundle (g : Grammars) (s : Settings) (b : Bundle) : Outcome Summary :=
  g.analyze s.workerCount b.sources (some b.names)

end Cognitive
