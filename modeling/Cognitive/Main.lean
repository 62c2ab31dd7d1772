import Cognitive.Command.Run
import Cognitive.Grammar.Recorded
import Cognitive.Json.Reader
/-!
# The program

Reads what a run needs from the machine (the environment, the settings files, what is to be analysed, and the record of
the parsers), runs the command line and prints what it leaves.  The record of the parsers is a file with one parse to a
line, which the variable `COGMETRICS_TREES` names.
-/
namespace Cognitive

open Command

/-- Loads a file, or a folder with all it holds; links inside are left out. -/
partial def loadEntry (d : Disk) (e : IO.FS.DirEntry) : IO Disk := do
  let here := Path.segments e.path.toString
  match (← e.path.symlinkMetadata).type with
  | .dir => (← e.path.readDir).foldlM loadEntry (d.write here .folder)
  | .file => return d.write here (.file (← IO.FS.readBinFile e.path))
  | _ => return d

/-- Loads what a path leads to, if anything, and where it leads. -/
def load (d : Disk) (text : String) : IO Disk := do
  let e : IO.FS.DirEntry := ⟨← IO.currentDir, text⟩
  if !(← e.path.pathExists) then return d
  let real ← IO.FS.realPath e.path
  let d ← loadEntry d ⟨real.parent.getD real, real.fileName.getD ""⟩
  let asked := Path.segments e.path.toString
  let reached := Path.segments real.toString
  return if asked = reached || asked.contains ".." then d else d.write asked (.link real.toString)

def namedPaths (arguments : List String) : List String :=
  match Invocation.read arguments with
  | .run (.analyze path _ _ common) => path :: common.settingsFile.toList
  | .run (.serve _ _ common) => common.settingsFile.toList
  | _ => []

def readEnvironment : IO Environment :=
  Setting.all.filterMapM fun s => do return (← IO.getEnv s.envName).map (s.envName, ·)

def readGrammars : IO Grammars := do
  match ← IO.getEnv "COGMETRICS_TREES" with
  | none => return .ofRecords []
  | some file => return .ofRecords ((← IO.FS.lines file).toList.filterMap fun (l : String) =>
    (Json.read l).toOption.map Json.shown)

/-- How many folders inside each other a call stack of the usual size has room for. -/
def usualRoom : Nat := 960

def readMachine (arguments : List String) : IO Machine := do
  let home := (← IO.getEnv "HOME").getD "/"
  let work := (← IO.currentDir).toString
  let files := [home ++ "/.cogmetrics.toml", work ++ "/cogmetrics.toml"] ++ namedPaths arguments
  let start := Disk.empty.write (Path.segments work) .folder
  return {
    disk := ← files.foldlM load start
    places := ⟨Path.segments home, Path.segments work⟩
    environment := ← readEnvironment
    grammars := ← readGrammars
    room := usualRoom
    interrupted := false }

end Cognitive

def main (arguments : List String) : IO UInt32 := do
  let m ← Cognitive.readMachine arguments
  let r := m.run arguments
  for p in r.printed do
    for l in p.lines do
      IO.println l
  IO.print r.output
  if let some b := r.broke then
    IO.eprintln (b.message.getD "broken off")
  return r.exit.toUInt32
