import Cognitive.About
/-!
# Logging

How much is logged follows from the verbosity.  Records go to the console and, where a file is given, to that file as
well; talkative libraries stay at warnings unless everything is logged.  Every logger has a name under one root.
-/
namespace Cognitive
namespace Logging

/-- Levels of records, from the least severe. -/
inductive Level where
  | debug
  | warning
  | error
deriving DecidableEq, Repr

def Level.name : Level → String
  | debug => "DEBUG"
  | warning => "WARNING"
  | error => "ERROR"

/-- The least severe level that is logged at some verbosity; an unknown word counts as normal. -/
def levelOf (verbosity : String) : Level :=
  if verbosity = "quiet" then .error else if verbosity = "verbose" then .debug else .warning

/-- Where records go. -/
inductive Handler where
  | console
  | file (path : String)
deriving DecidableEq, Repr

/-- A set-up: the level of all loggers, that of talkative libraries, and the handlers in order. -/
structure Setup where
  level : Level
  chatty : Level
  handlers : List Handler
deriving DecidableEq, Repr

/-- The set-up for a verbosity and a file; an empty file name is none. -/
def setup (verbosity : String) (file : Option String) : Setup :=
  let level := levelOf verbosity
  { level := level
    chatty := if level = .debug then .debug else .warning
    handlers := .console :: match file with
      | some path => if path.isEmpty then [] else [.file path]
      | none => [] }

def rootName : String := programName

/-- The full name of a logger: names under the root stay, others are put under it, and no name is the root's. -/
def loggerName (name : Option String) : String :=
  match name with
  | none => rootName
  | some n =>
    if n.isEmpty || n == rootName then rootName
    else if n.startsWith (rootName ++ ".") then n
    else rootName ++ "." ++ n

end Logging
end Cognitive
