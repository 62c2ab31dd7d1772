/-!
# The program's name and version
-/
namespace Cognitive

def programName : String := "cogmetrics"

def programVersion : String := "0.1.0"

end Cognitive
