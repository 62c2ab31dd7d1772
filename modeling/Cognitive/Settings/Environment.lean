import Cognitive.Number.Numeral
import Cognitive.Settings.Basic
/-!
# Settings from the environment

An environment variable is text, and the kind of its setting says how the text is read: as a whole number, as a number,
as a truth value, or as it stands.  Lists and tables are not set this way.
-/
namespace Cognitive

open Number

/-- How the text of a variable is read. -/
inductive EnvKind where
  | whole
  | real
  | flag
  | text
  /-- Not read at all. -/
  | structured
deriving DecidableEq, Repr

/-- Why the text of a variable cannot be read. -/
inductive EnvFault where
  | numeral (fault : NumeralFault)
  /-- The text is no truth value. -/
  | notFlag (raw : String)
deriving DecidableEq, Repr

def EnvFault.message : EnvFault → String
  | .numeral fault => fault.message
  | .notFlag raw => "expected true/false, got '" ++ raw ++ "'"

namespace EnvKind

def yesWords : List String := ["true", "1", "yes", "on"]

def noWords : List String := ["false", "0", "no", "off"]

/-- Reads the text of a variable; nothing for kinds that are not set this way. -/
def read (kind : EnvKind) (raw : String) : Except EnvFault (Option Value) :=
  match kind with
  | .whole => ((wholeNumber raw).map fun n => some (.int n)).mapError .numeral
  | .real => ((realNumber raw).map fun x => some (.float x)).mapError .numeral
  | .flag =>
    let word := String.ofList (raw.toList.map Char.toLower)
    if yesWords.contains word then .ok (some (.bool true))
    else if noWords.contains word then .ok (some (.bool false))
    else .error (.notFlag raw)
  | .text => .ok (some (.str raw))
  | .structured => .ok none

end EnvKind

namespace Setting

def envKind : Setting → EnvKind
  | maxArchiveMb => .real
  | maxFiles | workers | port => .whole
  | host | verbosity | logFile => .text
  | sourceExtensions | ignoredDirs | ignoredDirPrefixes | corsOrigins => .structured

def envName (s : Setting) : String := "COGMETRICS_" ++ String.ofList (s.key.toList.map Char.toUpper)

end Setting

abbrev Environment := List (String × String)

def Environment.setting (env : Environment) (s : Setting) : Outcome (Option (String × Value)) :=
  match env.lookup s.envName with
  | none => .ok none
  | some raw =>
    match s.envKind.read raw with
    | .ok v => .ok (v.map (s.key, ·))
    | .error fault => refuseSetting s.envName (.str raw) fault.message

/-- What the variables set, in the order of the settings. -/
def Environment.table (env : Environment) : Outcome Table := do
  return (← Setting.all.mapM env.setting).filterMap id

end Cognitive
