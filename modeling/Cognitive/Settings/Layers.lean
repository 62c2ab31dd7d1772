import Cognitive.About
import Cognitive.Disk
import Cognitive.Settings.Environment
import Cognitive.Toml.Document
/-!
# Layers of settings

Settings come in layers, each of which is set over those before it: a global file, a project file, a file that is
named, the environment, and overrides.  A file with a table of the program's own name gives that table, any other file
gives all of its entries.  Overrides that are nothing set nothing, and two switches set the verbosity.  Keys that no
setting has are refused, the first one first; then the settings are checked.
-/
namespace Cognitive

/-- The content of a settings file. -/
inductive SettingsFile where
  /-- The file cannot be read. -/
  | unreadable
  /-- A name on the way to the file is too long for the file to be looked for. -/
  | beyondReach
  | bytes (content : ByteArray)

/-- Everything that settings come from. -/
structure Sources where
  /-- The global file with its path, where it is there. -/
  globalFile : Option (String × SettingsFile)
  /-- The project's file with its path, where it is there. -/
  projectFile : Option (String × SettingsFile)
  /-- The path of the file that is named, and the file where it is there. -/
  namedFile : Option (String × Option SettingsFile)
  environment : Environment
  overrides : Table

namespace Sources

/-- The name of the table that a file may keep its settings in. -/
def tableName : String := programName

/-- What a file sets: the entries of the program's own table, else all of its entries. -/
def sectionOf (t : Table) : Table :=
  match Table.get? t tableName with
  | some (.table own) => own
  | _ => t

/-- The refusal of a file that cannot be read or is malformed. -/
def badFile (role path detail : String) : Failure :=
  .refused (.general ("Invalid " ++ role ++ " '" ++ path ++ "': " ++ detail))

def layerOf (role path : String) (file : SettingsFile) : Outcome Table :=
  match file with
  | .unreadable => .error (badFile role path "cannot be read")
  | .beyondReach => breakDown (.path .tooLong path)
  | .bytes content =>
    match Toml.readBytes content with
    | .ok t => .ok (sectionOf t)
    | .error .malformed => .error (badFile role path "not TOML")
    | .error .notUtf8 => breakDown .badEncoding
    | .error (.tooLong digits) => breakDown (.numeral (.tooLong digits))

def optionalLayer (role : String) : Option (String × SettingsFile) → Outcome Table
  | some (path, file) => layerOf role path file
  | none => .ok []

/-- What the file that is named sets; it must be there. -/
def namedLayer : Option (String × Option SettingsFile) → Outcome Table
  | none => .ok []
  | some (path, some file) => layerOf "config file" path file
  | some (path, none) => refuse (.general ("Config file not found: " ++ path))

/-- A switch that sets the verbosity when it is on, and is no setting itself. -/
def applySwitch (switch word : String) (t : Table) : Table :=
  match Table.get? t switch with
  | none => t
  | some v =>
    let set := if v.truthy then Table.put Setting.verbosity.key (.str word) t else t
    set.filter fun e => e.1 != switch

def verboseSwitch : String := "verbose"

def quietSwitch : String := "quiet"

/-- What overrides set: those that are something, after the switches. -/
def overrideLayer (overrides : Table) : Table :=
  (applySwitch quietSwitch quietSwitch (applySwitch verboseSwitch verboseSwitch overrides)).filter fun e =>
    match e.2 with
    | .null => false
    | _ => true

/-- The layers from the lowest to the highest. -/
def layers (s : Sources) : Outcome (List Table) := do
  let globalLayer ← optionalLayer "global config" s.globalFile
  let projectLayer ← optionalLayer "project config" s.projectFile
  let namedLayer ← namedLayer s.namedFile
  let environment ← s.environment.table
  return [globalLayer, projectLayer, namedLayer, environment, overrideLayer s.overrides]

def merged (s : Sources) : Outcome Table := do
  return (← s.layers).foldl Table.merge []

/-- A breakdown over values of the wrong kind is refused here; others go on. -/
def refuseWrongKinds {α : Type} : Outcome α → Outcome α
  | .error (.broke b) =>
    if b.isWrongKind then refuse (.general ("Invalid configuration: " ++ b.message.getD "")) else breakDown b
  | outcome => outcome

def settings (s : Sources) : Outcome Settings := do
  let t ← s.merged
  match Settings.unknownKey? t with
  | some (key, v) => refuseSetting key v "unknown configuration key"
  | none => refuseWrongKinds (Settings.ofFields t)

end Sources

/-- Where the settings files lie. -/
structure Places where
  home : DiskPath
  work : DiskPath

namespace Disk

/-- The settings file that a path leads to; none when there is nothing. -/
def settingsFile? (d : Disk) (path : DiskPath) : Option SettingsFile :=
  match d.follow path with
  | .ok found =>
    match d.item? found with
    | some (.file bytes) => some (.bytes bytes)
    | _ => some .unreadable
  | .error .tooLong => some .beyondReach
  | .error _ => none

def sources (d : Disk) (places : Places) (named : Option String) (environment : Environment) (overrides : Table) :
    Sources :=
  let there := fun path => (d.settingsFile? path).map fun file => (pathText path, file)
  { globalFile := there (places.home ++ [".cogmetrics.toml"])
    projectFile := there (places.work ++ ["cogmetrics.toml"])
    namedFile := named.map fun text => (Path.tidy text, d.settingsFile? (pathFrom places.work text))
    environment := environment
    overrides := overrides }

end Disk
end Cognitive
