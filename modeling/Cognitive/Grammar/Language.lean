import Cognitive.Path
import Cognitive.Text.Split
/-!
# Languages

Three grammars are known, and the suffix of a file's name selects one, whatever its case.  A backslash in a path counts
as a slash.
-/
namespace Cognitive

/-- The languages that have a grammar. -/
inductive Language where
  | javascript
  | typescript
  | tsx
deriving DecidableEq, Repr

namespace Language

/-- The languages in the order in which suffixes are looked up. -/
def all : List Language := [javascript, typescript, tsx]

def name : Language → String
  | javascript => "javascript"
  | typescript => "typescript"
  | tsx => "tsx"

def suffixes : Language → List String
  | javascript => [".js", ".jsx", ".mjs", ".cjs"]
  | typescript => [".ts", ".mts", ".cts"]
  | tsx => [".tsx"]

def ofName? (name : String) : Option Language := all.find? fun l => l.name == name

def fallback : Language := javascript

/-- The superset that is tried when text of the fallback language does not parse. -/
def superset : Language := tsx

def withSlashes (text : String) : String :=
  String.ofList (text.toList.map fun c => if c = '\\' then '/' else c)

def detect? (path : String) : Option Language :=
  let suffix := Path.lowered (Path.suffix (withSlashes path))
  all.find? fun l => l.suffixes.contains suffix

end Language
end Cognitive
