import Cognitive.Batch.Archive
import Cognitive.Batch.Folder
import Cognitive.Command.Console
import Cognitive.Command.Invocation
import Cognitive.Json.Writer
import Cognitive.Logging
import Cognitive.Report.Payload
import Cognitive.Service
import Cognitive.Settings.Layers
/-!
# Running a command

A run sees a disk, the places of the settings files, the environment and the parsers, and may be interrupted.  It leaves
an exit status, what was printed, the JSON text if that was asked for, and what was served.  Refusals are printed and
end the run with status 1; a breakdown ends it too and is passed on.
-/
namespace Cognitive
namespace Command

/-- What a run sees. -/
structure Machine where
  disk : Disk
  places : Places
  environment : Environment
  grammars : Grammars
  /-- How many folders inside each other can be entered before the call stack is used up. -/
  room : Nat
  /-- The run is interrupted as soon as something is to be parsed or served. -/
  interrupted : Bool

/-- How requests were served: the address, the port and how much the server logs. -/
structure Serving where
  host : Value
  port : Value
  logLevel : String
deriving Repr

/-- What a run leaves. -/
structure Run where
  exit : Nat
  printed : List Printed
  /-- The JSON text that was written. -/
  output : String
  served : Option Serving
  /-- What broke the run off. -/
  broke : Option Breakdown

namespace Run

/-- A run that printed something and ended with a status. -/
def ended (exit : Nat) (printed : List Printed) : Run := ⟨exit, printed, "", none, none⟩

def brokenOff (b : Breakdown) (printed : List Printed) : Run := ⟨1, printed, "", none, some b⟩

def failed : Failure → Run
  | .refused r => .ended 1 [errorLine r.text]
  | .broke b => .brokenOff b []

end Run

/-! ## Settings -/

/-- A whole number as a value, nothing where there is none. -/
def wholeValue (n : Option Int) : Value := .ofInt? n

/-- What the options about settings set over everything else. -/
def overridesOf (common : CommonOptions) (others : Table) : Table :=
  others ++ [(Setting.workers.key, wholeValue common.workers)] ++
    (if common.verbose then [(Sources.verboseSwitch, .bool true)] else [])

def Machine.settings (m : Machine) (common : CommonOptions) (others : Table) : Outcome Settings :=
  (m.disk.sources m.places common.settingsFile m.environment (overridesOf common others)).settings

/-- Opens the log file, where one is set; it is made if it is not there. -/
def Machine.openLog (m : Machine) (s : Settings) : Outcome Machine :=
  if !(s .logFile).truthy then .ok m
  else match s .logFile with
    | .str name =>
      let path := Disk.lexical (Disk.pathFrom m.places.work name)
      match m.disk.place path with
      | .ok place => .ok { m with disk := m.disk.ensureFile place }
      | .error fault =>
        let root := if Path.isAbsolute name then Path.root name else "/"
        breakDown (.path fault (Path.ofSegments root path))
    | other => breakDown (.notPath other.kindName)

/-! ## Analysing -/

def archiveSuffix : String := ".zip"

/-- What a path is for analysis. -/
inductive Target where
  | folder
  | archive (bytes : ByteArray)
  | source (entry : Entry)

/-- What a path is for analysis; none when nothing is there. -/
def Machine.target? (m : Machine) (path : DiskPath) : Option Target :=
  match m.disk.find? path with
  | some .folder => some .folder
  | some (.file bytes) =>
    let name := path.getLast?.getD ""
    some (if Path.lowered (Path.suffixOfName name) = archiveSuffix then .archive bytes
      else .source ⟨name, Utf8.decodeSource bytes⟩)
  | _ => none

/-- What comes of parsing: an interruption, or a summary. -/
inductive Progress where
  | interrupted
  | done (s : Summary)

/-- Analyses some files, unless the run is interrupted before the first. -/
def Machine.parse (m : Machine) (sources : List Entry) (summary : Outcome Summary) : Outcome Progress :=
  if m.interrupted && !sources.isEmpty then .ok .interrupted else summary.map .done

def Machine.analyzeTarget (m : Machine) (s : Settings) (path : DiskPath) : Target → Outcome Progress
  | .folder => do
    let b ← Folder.read s m.room m.disk path
    m.parse b.sources (m.grammars.analyzeBundle s b)
  | .archive bytes => do
    let b ← Archive.read s m.room bytes
    m.parse b.sources (m.grammars.analyzeBundle s b)
  | .source e => m.parse [e] (m.grammars.analyze none [e] none)

def Target.isSingle : Target → Bool
  | .source _ => true
  | _ => false

/-- The JSON text of a batch; of one source file, the text of its result alone. -/
def jsonText (single : Bool) (s : Summary) : String :=
  let payload := match single, s.results with
    | true, r :: _ => r.payload
    | _, _ => s.payload
  Json.write payload ++ "\n"

def present (single json : Bool) (top : Int) (s : Summary) : Outcome Run := do
  let exit := if single && !s.failures.isEmpty then 1 else 0
  if json then return ⟨exit, [], jsonText single s, none, none⟩
  return .ended exit (report s (← s.statistics top))

def settleRun : Outcome Run → Run
  | .ok r => r
  | .error f => .failed f

/-- Analyses what a resolved path leads to and shows the batch. -/
def Machine.analyzeAt (m : Machine) (path : DiskPath) (json : Bool) (top : Int) (common : CommonOptions) :
    Outcome Run := do
  let s ← m.settings common []
  let m ← m.openLog s
  match m.target? path with
  | none => return .ended 2 []
  | some target =>
    match ← m.analyzeTarget s path target with
    | .interrupted => return .ended 130 [.line ("\n" ++ styled "yellow" "Interrupted")]
    | .done summary => present target.isSingle json top summary

/-- Runs the command that analyses; there must be something at the path. -/
def Machine.analyze (m : Machine) (path : String) (json : Bool) (top : Int) (common : CommonOptions) : Run :=
  match m.disk.resolve (Disk.pathFrom m.places.work path) with
  | .error fault => .brokenOff (.path fault path) []
  | .ok resolved =>
    match m.target? resolved with
    | none => .ended 2 []
    | some _ => settleRun (m.analyzeAt resolved json top common)

/-! ## Serving -/

/-- The line that says where requests are served, where the address can be written. -/
def listeningLine (s : Settings) : Outcome String :=
  if (s .host).isTooLong then breakDown (.numeral .tooLongToWrite)
  else
    let url := "http://" ++ (s .host).text ++ ":" ++ (s .port).text
    .ok (styled "bold" programName ++ " listening on [link=" ++ url ++ "]" ++ url ++ "[/link]")

def serverLogLevel (s : Settings) : String :=
  if (s .verbosity).str? = some "verbose" then "info" else "warning"

def Machine.serve (m : Machine) (host : Option String) (port : Option Int) (common : CommonOptions) : Run :=
  settleRun do
    let s ← m.settings common [(Setting.host.key, .ofString? host), (Setting.port.key, wholeValue port)]
    let _ ← m.openLog s
    let printed : List Printed :=
      [.line (← listeningLine s), .line (styled "dim" "Press Ctrl+C to stop"), .line ("\n" ++ styled "dim" "Stopped.")]
    match Service.start s with
    | .ok () => return ⟨0, printed, "", some ⟨s .host, s .port, serverLogLevel s⟩, none⟩
    | .error (.broke b) => return .brokenOff b printed
    | .error (.refused r) => return .ended 1 (printed ++ [errorLine r.text])

/-- Runs a command, provided that the path of its settings file can be looked at. -/
def Machine.act (m : Machine) : Action → Run
  | .analyze path json top common => guarded common (m.analyze path json top common)
  | .serve host port common => guarded common (m.serve host port common)
where
  /-- A path with a zero character breaks off the run before it starts. -/
  guarded (common : CommonOptions) (run : Run) : Run :=
    match common.settingsFile with
    | some path =>
      if path.toList.any fun c => c.toNat == 0 then .brokenOff (.path .zeroCharacter path) [] else run
    | none => run

/-- Runs what a command line asks for. -/
def Machine.run (m : Machine) (arguments : List String) : Run :=
  match Invocation.read arguments with
  | .misuse => .ended 2 []
  | .help => .ended 0 []
  | .version => .ended 0 [.line (programName ++ " " ++ programVersion)]
  | .run action => m.act action

end Command
end Cognitive
