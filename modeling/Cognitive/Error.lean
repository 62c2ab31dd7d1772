import Cognitive.Path
import Cognitive.Text.Script
import Cognitive.Tree.Node
import Cognitive.Value.Basic
import Cognitive.Zip.Lzma
/-!
# Refusals and breakdowns

A refusal is an error that the program reports on purpose.  It has a class, a message of one line and details: pairs of
a key and a text, in a fixed order.  Its full text puts the details behind the message; its short text is the reason
among the details, where there is one.  A breakdown is an operation that values of the wrong kind or trees with holes
stop in the middle; it has a class and a message too, but no details.
-/
namespace Cognitive

/-- The classes of refusals. -/
inductive RefusalClass where
  | general
  | analysis
  | parsing
  | unsupportedLanguage
  | configuration
  | invalidSetting
  | invalidArchive
deriving DecidableEq, Repr

/-- The refusal concerns the analysis of one file, and not the whole run. -/
def RefusalClass.isAnalysis : RefusalClass → Bool
  | .analysis | .parsing | .unsupportedLanguage => true
  | _ => false

/-- An error that is reported on purpose. -/
structure Refusal where
  cls : RefusalClass
  message : String
  details : List (String × String)
deriving DecidableEq, Repr

namespace Refusal

/-- The full text: the message, and the details behind it where there are any. -/
def text (r : Refusal) : String :=
  if r.details.isEmpty then r.message
  else r.message ++ " (" ++ Text.join ", " (r.details.map fun d => d.1 ++ "=" ++ d.2) ++ ")"

/-- The reason among the details, unless there is none or it is empty; else the message. -/
def short (r : Refusal) : String :=
  match r.details.lookup "reason" with
  | some reason => if reason.isEmpty then r.message else reason
  | none => r.message

/-- A file that cannot be parsed, or whose tree cannot be walked. -/
def parsing (path language reason : String) : Refusal :=
  ⟨.parsing, "Failed to parse " ++ language ++ " file: " ++ path,
    [("filepath", path), ("language", language), ("reason", reason)]⟩

/-- A language without a grammar. -/
def unsupportedLanguage (language : String) (supported : List String) : Refusal :=
  ⟨.unsupportedLanguage, "Unsupported language: " ++ language,
    [("language", language), ("supported", Text.join ", " supported)]⟩

/-- A setting with a value it cannot have. -/
def invalidSetting (key : String) (value : Value) (reason : String) : Refusal :=
  ⟨.invalidSetting, "Invalid configuration for " ++ key ++ ": " ++ value.text,
    [("key", key), ("value", value.text), ("reason", reason)]⟩

/-- An archive or directory that is not accepted, and the entry to blame where there is one. -/
def invalidArchive (reason : String) (entry : Option String) : Refusal :=
  ⟨.invalidArchive, "Invalid archive: " ++ reason,
    ("reason", reason) :: match entry with
      | some e => if e.isEmpty then [] else [("entry", e)]
      | none => []⟩

/-- Any other refusal. -/
def general (message : String) : Refusal := ⟨.general, message, []⟩

end Refusal

/-- What stops an operation in the middle. -/
inductive Breakdown where
  /-- A tree with holes. -/
  | tree (fault : TreeFault)
  /-- Two values of kinds that have no order between them. -/
  | unordered (operator left right : String)
  /-- A value of a kind that has no items. -/
  | notIterable (kind : String)
  /-- A value of a kind that holds nothing, asked whether it holds a name. -/
  | notContainer (kind : String)
  /-- A start to look for that is no text. -/
  | startNotText (kind : String)
  /-- An end to look for that is no text. -/
  | endNotText (kind : String)
  /-- A value asked for its start that is no text. -/
  | noText (kind : String)
  /-- A setting that does not exist. -/
  | unknownSetting (key : String)
  /-- A numeral that cannot be read. -/
  | numeral (fault : Number.NumeralFault)
  /-- A size that is no number. -/
  | sizeNotNumber
  /-- A size without bound. -/
  | sizeInfinite
  /-- A quotient too large for a double. -/
  | quotientTooLarge
  /-- A whole number too large for a double. -/
  | wholeTooLarge
  /-- A rounded average with more digits than are kept. -/
  | averageTooLong
  /-- A result that has both metrics and an error, or neither. -/
  | resultNotExclusive
  /-- A name that is not in the encoding it claims. -/
  | badEncoding
  /-- A text that cannot be encoded. -/
  | unencodable (tear : Tear)
  /-- Folders inside each other, more than the call stack has room for. -/
  | tooDeep
  /-- An archive that needs a newer reader. -/
  | archiveTooNew (version : Nat)
  /-- An archive entry without a name. -/
  | emptyEntryName
  /-- A position before the start of an archive. -/
  | positionBeforeStart (position : Int)
  /-- A position too far on to be asked for. -/
  | positionTooLarge
  /-- An archive entry whose sorted blocks make no sense. -/
  | bzip2
  /-- An archive entry whose chain of guesses makes no sense. -/
  | lzma (fault : Zip.LzmaFault)
  /-- A path that does not lead where it should. -/
  | path (fault : Path.Fault) (path : String)
  /-- A path through links that lead back to themselves. -/
  | linkLoop (path : String)
  /-- A value that is no path. -/
  | notPath (kind : String)
deriving DecidableEq, Repr

/-- The message of a breakdown; trouble with decoding has none of its own.  In which call the stack turns out to be used
up depends on what is called last; it is mostly a comparison of names. -/
def Breakdown.message : Breakdown → Option String
  | .tree fault => some fault.message
  | .unordered operator left right =>
    some ("'" ++ operator ++ "' not supported between instances of '" ++ left ++ "' and '" ++ right ++ "'")
  | .notIterable kind => some ("'" ++ kind ++ "' object is not iterable")
  | .notContainer kind => some ("argument of type '" ++ kind ++ "' is not iterable")
  | .startNotText kind => some ("tuple for startswith must only contain str, not " ++ kind)
  | .endNotText kind => some ("tuple for endswith must only contain str, not " ++ kind)
  | .noText kind => some ("'" ++ kind ++ "' object has no attribute 'startswith'")
  | .unknownSetting key =>
    some ("AnalysisConfig.__init__() got an unexpected keyword argument '" ++ key ++ "'")
  | .numeral fault => some fault.message
  | .sizeNotNumber => some "cannot convert float NaN to integer"
  | .sizeInfinite => some "cannot convert float infinity to integer"
  | .quotientTooLarge => some "integer division result too large for a float"
  | .wholeTooLarge => some "int too large to convert to float"
  | .averageTooLong => some "[<class 'decimal.InvalidOperation'>]"
  | .resultNotExclusive => some "FileResult needs exactly one of metrics or error"
  | .badEncoding => none
  | .unencodable tear => some tear.message
  | .tooDeep => some "maximum recursion depth exceeded in comparison"
  | .archiveTooNew version =>
    some ("zip file version " ++ toString (version / 10) ++ "." ++ toString (version % 10))
  | .emptyEntryName => some "string index out of range"
  | .positionBeforeStart position => some ("negative seek value " ++ toString position)
  | .positionTooLarge => some "Python int too large to convert to C ssize_t"
  | .bzip2 => some "Invalid data stream"
  | .lzma fault => some fault.message
  | .path fault written => some (fault.message written)
  | .linkLoop written => some ("Symlink loop from " ++ Text.quoted written)
  | .notPath kind => some ("expected str, bytes or os.PathLike object, not " ++ kind)

/-- The breakdown is over a value of a kind that an operation is not for. -/
def Breakdown.isWrongKind : Breakdown → Bool
  | .unordered .. | .notIterable _ | .notContainer _ | .startNotText _ | .endNotText _ | .unknownSetting _
  | .notPath _ => true
  | _ => false

/-- What an operation that gives no result gives instead. -/
inductive Failure where
  | refused (r : Refusal)
  | broke (b : Breakdown)
deriving DecidableEq, Repr

/-- The outcome of an operation. -/
abbrev Outcome (α : Type) := Except Failure α

/-- Stops with a refusal. -/
def refuse {α : Type} (r : Refusal) : Outcome α := .error (.refused r)

/-- Stops with a breakdown. -/
def breakDown {α : Type} (b : Breakdown) : Outcome α := .error (.broke b)

/-- The characters of a text that is to be encoded; one with a lone half breaks off. -/
def Script.encode (s : Script) : Outcome String :=
  match s.tear? with
  | none => .ok s.shown
  | some tear => breakDown (.unencodable tear)

@[simp] theorem Script.encode_ofString (text : String) : (Script.ofString text).encode = .ok text := by
  rw [encode, tear?_ofString, shown_ofString]

/-- A text is made of characters, or it is torn and breaks off when it is encoded. -/
theorem Script.encode_cases (s : Script) :
    (∃ tear, s.tear? = some tear ∧ s.encode = breakDown (.unencodable tear)) ∨ ∃ text : String, s = text := by
  cases h : s.tear? with
  | none => exact .inr (tear?_eq_none_iff.1 h)
  | some tear => exact .inl ⟨tear, rfl, by rw [encode, h]⟩

/-- Refuses a setting with a value it cannot have, provided that the value can be written. -/
def refuseSetting {α : Type} (key : String) (value : Value) (reason : String) : Outcome α :=
  if value.isTooLong then breakDown (.numeral .tooLongToWrite) else refuse (.invalidSetting key value reason)

end Cognitive
