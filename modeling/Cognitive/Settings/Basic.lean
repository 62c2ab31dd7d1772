import Cognitive.Error
/-!
# Settings

The settings of a run by name, each with a default.  Settings come from files and may hold any data value, so they are
checked before they are used; `Settings.check` says in a fixed order what is wrong with them.  A limit that is compared
with a value of a kind that has no order breaks off, and so does asking for the start of an extension that is no text.
-/
namespace Cognitive

open Number

/-- The names of settings. -/
inductive Setting where
  /-- The endings of the names of source files. -/
  | sourceExtensions
  /-- The folders that are not entered. -/
  | ignoredDirs
  /-- The beginnings of the names of folders that are not entered. -/
  | ignoredDirPrefixes
  /-- The largest archive, packed or unpacked, in mebibytes. -/
  | maxArchiveMb
  /-- The most source files of an archive or directory. -/
  | maxFiles
  /-- How many files are analysed at a time. -/
  | workers
  /-- The address that the service binds to. -/
  | host
  /-- The port that the service listens on. -/
  | port
  /-- The origins that browsers may call the service from. -/
  | corsOrigins
  /-- How much is logged. -/
  | verbosity
  /-- A file that log records go to as well. -/
  | logFile
deriving DecidableEq, Repr

namespace Setting

/-- The settings in the order in which they are listed. -/
def all : List Setting :=
  [sourceExtensions, ignoredDirs, ignoredDirPrefixes, maxArchiveMb, maxFiles, workers, host, port, corsOrigins,
   verbosity, logFile]

def key : Setting → String
  | sourceExtensions => "source_extensions"
  | ignoredDirs => "ignored_dirs"
  | ignoredDirPrefixes => "ignored_dir_prefixes"
  | maxArchiveMb => "max_archive_mb"
  | maxFiles => "max_files"
  | workers => "workers"
  | host => "host"
  | port => "port"
  | corsOrigins => "cors_origins"
  | verbosity => "verbosity"
  | logFile => "log_file"

def ofKey? (key : String) : Option Setting := all.find? fun s => s.key == key

def texts (items : List String) : Value := .list (items.map .str)

def fallback : Setting → Value
  | sourceExtensions => texts [".js", ".jsx", ".ts", ".tsx"]
  | ignoredDirs => texts ["node_modules", "dist", "build"]
  | ignoredDirPrefixes => texts [".git"]
  | maxArchiveMb => .float (.ofInt 50)
  | maxFiles => .int 10000
  | workers => .null
  | host => .str "127.0.0.1"
  | port => .int 3001
  | corsOrigins => texts ["*"]
  | verbosity => .str "normal"
  | logFile => .null

end Setting

/-- A value for every setting. -/
abbrev Settings := Setting → Value

namespace Settings

def fallback : Settings := Setting.fallback

/-- The settings of a table, with the defaults for the keys it lacks. -/
def ofTable (t : Table) : Settings := fun s => (t.get? s.key).getD s.fallback

def toTable (s : Settings) : Table := Setting.all.map fun k => (k.key, s k)

/-- The first key of a table that no setting has, and its value. -/
def unknownKey? (t : Table) : Option (String × Value) := t.find? fun e => (Setting.ofKey? e.1).isNone

end Settings

namespace Value

/-- The items of a value that has some: the characters of a text, the items of a list, the keys of a table. -/
def items : Value → Outcome (List Value)
  | .str s => .ok (s.toList.map fun c => .str (String.ofList [c]))
  | .list items => .ok items
  | .table entries => .ok (entries.map fun e => .str e.1)
  | v => breakDown (.notIterable v.kindName)

/-- A number of either sort; a truth value counts as zero or one. -/
inductive Quantity where
  | whole (n : Int)
  | real (x : Binary64)

def quantity? : Value → Option Quantity
  | .bool b => some (.whole (if b then 1 else 0))
  | .int n => some (.whole n)
  | .float x => some (.real x)
  | _ => none

def Quantity.ltInt : Quantity → Int → Bool
  | .whole m, n => decide (m < n)
  | .real x, n => x.ltInt n

def Quantity.leInt : Quantity → Int → Bool
  | .whole m, n => decide (m ≤ n)
  | .real x, n => x.leInt n

def Quantity.intLt : Int → Quantity → Bool
  | n, .whole m => decide (n < m)
  | n, .real x => Binary64.intLt n x

/-- The number that stands left of a comparison with a whole number. -/
def leftOf (operator : String) (v : Value) : Outcome Quantity :=
  match v.quantity? with
  | some q => .ok q
  | none => breakDown (.unordered operator v.kindName "int")

/-- The number that stands right of a comparison with a whole number. -/
def rightOf (operator : String) (v : Value) : Outcome Quantity :=
  match v.quantity? with
  | some q => .ok q
  | none => breakDown (.unordered operator "int" v.kindName)

end Value

namespace Settings

def reject {α : Type} (s : Settings) (k : Setting) (reason : String) : Outcome α :=
  refuseSetting k.key (s k) reason

def checkExtensions : List Value → Outcome Unit
  | [] => .ok ()
  | .str e :: rest =>
    if e.startsWith "." then checkExtensions rest
    else refuseSetting Setting.sourceExtensions.key (.str e) "must start with '.'"
  | v :: _ => breakDown (.noText v.kindName)

def checkArchiveLimit (s : Settings) : Outcome Unit := do
  let size ← (s .maxArchiveMb).leftOf "<="
  if size.leInt 0 then s.reject .maxArchiveMb "must be positive"

def checkAtLeastOne (s : Settings) (k : Setting) : Outcome Unit := do
  let count ← (s k).leftOf "<"
  if count.ltInt 1 then s.reject k "must be at least 1"

def checkPort (s : Settings) : Outcome Unit := do
  let port ← (s .port).rightOf "<"
  if Value.Quantity.intLt 0 port && port.ltInt 65536 then return
  s.reject .port "must be between 1 and 65535"

def verbosities : List String := ["quiet", "normal", "verbose"]

def checkVerbosity (s : Settings) : Outcome Unit :=
  match s .verbosity with
  | .str word => if verbosities.contains word then .ok () else s.reject .verbosity "must be quiet, normal or verbose"
  | _ => s.reject .verbosity "must be quiet, normal or verbose"

/-- Says what is wrong with the settings, the first thing first. -/
def check (s : Settings) : Outcome Unit := do
  checkExtensions (← (s .sourceExtensions).items)
  s.checkArchiveLimit
  s.checkAtLeastOne .maxFiles
  match s .workers with
  | .null => pure ()
  | _ => s.checkAtLeastOne .workers
  s.checkPort
  s.checkVerbosity

/-- Settings from a table that has been checked for unknown keys and for wrong values. -/
def ofFields (t : Table) : Outcome Settings := do
  match unknownKey? t with
  | some e => breakDown (.unknownSetting e.1)
  | none =>
    let s := ofTable t
    s.check
    return s

end Settings
end Cognitive
