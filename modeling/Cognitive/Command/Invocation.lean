import Cognitive.Command.Count
import Cognitive.Command.Options
/-!
# What a command line asks for

There are two commands: one analyses a file, a folder or an archive, the other serves requests.  Asking for help or for
the version comes before everything but options that are wrong.
-/
namespace Cognitive
namespace Command

/-- What both commands may be told about settings. -/
structure CommonOptions where
  settingsFile : Option String
  workers : Option Int
  verbose : Bool
deriving DecidableEq, Repr

/-- A command with its options. -/
inductive Action where
  | analyze (path : String) (json : Bool) (top : Int) (common : CommonOptions)
  | serve (host : Option String) (port : Option Int) (common : CommonOptions)
deriving DecidableEq, Repr

/-- What a command line asks for. -/
inductive Invocation where
  /-- It makes no sense. -/
  | misuse
  | help
  | version
  | run (action : Action)
deriving DecidableEq, Repr

def helpSpec : Spec := ⟨"help", ["--help"], false⟩

def versionSpec : Spec := ⟨"version", ["--version"], false⟩

def programSpecs : List Spec := [versionSpec, helpSpec]

def commonSpecs : List Spec :=
  [⟨"config", ["-c", "--config"], true⟩, ⟨"workers", ["-w", "--workers"], true⟩,
   ⟨"verbose", ["-v", "--verbose"], false⟩, helpSpec]

def analyzeSpecs : List Spec := [⟨"json", ["--json"], false⟩, ⟨"top", ["--top"], true⟩] ++ commonSpecs

def serveSpecs : List Spec := [⟨"host", ["--host"], true⟩, ⟨"port", ["--port"], true⟩] ++ commonSpecs

/-- How many functions are listed unless something else is said. -/
def defaultTop : Int := 10

/-- The number that an option is given: `some none` where the option is not given, `none` where it is no number. -/
def countOption (g : Given) (key : String) : Option (Option Int) :=
  match g.value? key with
  | none => some none
  | some text => (count? text).map some

def commonOptions (g : Given) : Option CommonOptions := do
  return ⟨g.value? "config", ← countOption g "workers", g.has "verbose"⟩

def readAnalyze (g : Given) : Invocation :=
  if g.has helpSpec.key then .help
  else match g.arguments, countOption g "top", commonOptions g with
    | [path], some top, some common =>
      if (top.getD defaultTop) < 0 then .misuse else .run (.analyze path (g.has "json") (top.getD defaultTop) common)
    | _, _, _ => .misuse

def readServe (g : Given) : Invocation :=
  if g.has helpSpec.key then .help
  else match g.arguments, countOption g "port", commonOptions g with
    | [], some port, some common => .run (.serve (g.value? "host") port common)
    | _, _, _ => .misuse

def readCommand (name : String) (arguments : List String) : Invocation :=
  match name with
  | "analyze" => ((readOptions analyzeSpecs true arguments).map readAnalyze).getD .misuse
  | "serve" => ((readOptions serveSpecs true arguments).map readServe).getD .misuse
  | _ => .misuse

/-- What the options in front of a command ask for: the first of them counts. -/
def asked (g : Given) : Option Invocation :=
  g.options.head?.map fun o => if o.1 = versionSpec.key then .version else .help

/-- What a command line asks for.  An option that two dashes put in the place of the command is read as an option all
the same. -/
def Invocation.read (arguments : List String) : Invocation :=
  match readOptions programSpecs false arguments with
  | none => .misuse
  | some g =>
    (asked g).getD <|
      match g.arguments with
      | [] => .misuse
      | name :: rest =>
        if isOption name then ((readOptions programSpecs false (name :: rest)).bind asked).getD .misuse
        else readCommand name rest

end Command
end Cognitive
