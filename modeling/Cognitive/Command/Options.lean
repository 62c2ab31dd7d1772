import Cognitive.Text.Split
/-!
# Options of a command line

Arguments that start with a dash are options.  A long option may bring its value behind an equals sign; short options
may stand together behind one dash, where the rest of the word is the value of the first one that takes a value.
Otherwise the next argument is the value, whatever it is.  Two dashes end the options.
-/
namespace Cognitive
namespace Command

/-- An option: its key, the words for it, and whether it takes a value. -/
structure Spec where
  key : String
  words : List String
  takesValue : Bool
deriving DecidableEq, Repr

/-- The options that were given, in order, and the other arguments. -/
structure Given where
  options : List (String × Option String)
  arguments : List String
deriving DecidableEq, Repr

namespace Given

def has (g : Given) (key : String) : Bool := g.options.any fun o => o.1 == key

def value? (g : Given) (key : String) : Option String :=
  ((g.options.filter fun o => o.1 == key).getLast?).bind (·.2)

end Given

/-- The options of one word, and the key of the last of them if its value is the next argument. -/
abbrev Word := List (String × Option String) × Option String

def cutAtEquals (word : String) : String × Option String :=
  let cs := word.toList
  let name := String.ofList (cs.takeWhile (· != '='))
  match cs.dropWhile (· != '=') with
  | [] => (name, none)
  | _ :: rest => (name, some (String.ofList rest))

def specOf? (specs : List Spec) (word : String) : Option Spec := specs.find? fun s => s.words.contains word

/-- The word is long: it starts with two dashes. -/
def isLong (word : String) : Bool := word.startsWith "--"

def readLetters (specs : List Spec) : List Char → Option Word
  | [] => some ([], none)
  | c :: rest =>
    match specOf? specs (String.ofList ['-', c]) with
    | none => none
    | some s =>
      if s.takesValue then
        some (if rest.isEmpty then ([], some s.key) else ([(s.key, some (String.ofList rest))], none))
      else (readLetters specs rest).map fun w => ((s.key, none) :: w.1, w.2)

def readWord (specs : List Spec) (word : String) : Option Word :=
  let (name, attached) := cutAtEquals word
  match (if isLong name then specOf? specs name else none), attached with
  | some s, some v => if s.takesValue then some ([(s.key, some v)], none) else none
  | some s, none => if s.takesValue then some ([], some s.key) else some ([(s.key, none)], none)
  | none, _ => if isLong word then none else readLetters specs (word.toList.drop 1)

/-- The argument is an option: a dash with something behind it. -/
def isOption (argument : String) : Bool := argument.startsWith "-" && argument.length != 1

/-- Reads arguments; none when an option is unknown, lacks its value or has one it does not take.  Options may stand
behind other arguments if `mixed`; else everything from the first other argument on is left as it is. -/
def readOptions (specs : List Spec) (mixed : Bool) : List String → Option Given
  | [] => some ⟨[], []⟩
  | argument :: rest =>
    if argument = "--" then some ⟨[], rest⟩
    else if isOption argument then
      match readWord specs argument with
      | none => none
      | some (options, none) => (readOptions specs mixed rest).map fun g => { g with options := options ++ g.options }
      | some (options, some key) =>
        match rest with
        | [] => none
        | v :: rest' =>
          (readOptions specs mixed rest').map fun g => { g with options := options ++ (key, some v) :: g.options }
    else if mixed then (readOptions specs mixed rest).map fun g => { g with arguments := argument :: g.arguments }
    else some ⟨[], argument :: rest⟩

end Command
end Cognitive
