import BoardAtlas.Manifest.Value
import BoardAtlas.Text.Cut

/-!
# What can go wrong with a manifest

* `ManifestKind`, `TableKind`: what is looked for;
* `BaseFault`, `FormulaFault`: causes inside a base declaration and a formula;
* `ManifestError`, `ManifestError.message`, `ManifestError.isInput`.
-/

namespace BoardAtlas

/-- The kinds of manifests. -/
inductive ManifestKind where
  | board
  | boardBase
  | template
  | shape
  deriving DecidableEq, Repr

/-- The name of a kind in messages. -/
def ManifestKind.name : ManifestKind → String
  | .board => "board"
  | .boardBase => "board base"
  | .template => "template"
  | .shape => "shape"

/-- The tables that are merged over all roots. -/
inductive TableKind where
  | presets
  | roles
  | flash
  deriving DecidableEq, Repr

/-- The name of a table in messages. -/
def TableKind.name : TableKind → String
  | .presets => "presets"
  | .roles => "roles"
  | .flash => "flash"

/-- What is wrong with a base declaration. -/
inductive BaseFault where
  /-- The declaration is neither a name nor a list. -/
  | declaration (found : Value.Kind)
  /-- An item of the list is no name. -/
  | item (found : Value.Kind)
  deriving DecidableEq, Repr

/-- What is told of a declaration of bases. -/
def BaseFault.message : BaseFault → String
  | .declaration found => "base must be a string or a list of strings, found " ++ found.name
  | .item found => "base names must be strings, found " ++ found.name

/-- Why a number or a coordinate has no value. -/
inductive FormulaFault where
  | notNumber (found : Value.Kind)
  | notPair (found : String)
  /-- The formula has none, for a reason that is told with it. -/
  | formula (cause : String)
  deriving DecidableEq, Repr

/-- What is told of a formula. -/
def FormulaFault.message : FormulaFault → String
  | .notNumber found => "expected a number or expression, found " ++ found.name
  | .notPair found => "expected \"x,y\", found " ++ found
  | .formula cause => cause

/-- What can go wrong with a manifest. -/
inductive ManifestError where
  | unreadable (path cause : String)
  | malformed (origin cause : String)
  | notFound (kind : ManifestKind) (name : String)
  | tableNotObject (kind : TableKind) (path : String)
  | invalidBase (name : String) (fault : BaseFault)
  | typeConflict (path : List String) (expected found : Value.Kind)
  | unresolved (names : List String) (text : String)
  | invalidFormula (key text : String)
  | noValue (key : String) (fault : FormulaFault)
  | invalidPath (path segment : String)
  | misfit (what cause : String)
  deriving DecidableEq, Repr

/-- What is told of an error. -/
def ManifestError.message : ManifestError → String
  | .unreadable path cause => "failed to read " ++ path ++ ": " ++ cause
  | .malformed origin cause => "failed to parse JSON in " ++ origin ++ ": " ++ cause
  | .notFound kind name => kind.name ++ " manifest \"" ++ name ++ "\" not found"
  | .tableNotObject kind path => kind.name ++ " table must be a JSON object (" ++ path ++ ")"
  | .invalidBase name fault => "invalid base declaration in \"" ++ name ++ "\": " ++ fault.message
  | .typeConflict path expected found =>
    "cannot merge " ++ found.name ++ " into " ++ expected.name ++ " at \"" ++
      Text.joined "." path ++ "\""
  | .unresolved names text =>
    "unresolved variable(s) " ++ Text.joined ", " names ++ " in \"" ++ text ++ "\""
  | .invalidFormula key text => "invalid expression for \"" ++ key ++ "\": " ++ text
  | .noValue key fault => "expression evaluation failed for \"" ++ key ++ "\": " ++ fault.message
  | .invalidPath path segment =>
    "invalid dotted path \"" ++ path ++ "\" at segment \"" ++ segment ++ "\""
  | .misfit what cause => "failed to deserialize " ++ what ++ ": " ++ cause

/-- The input is missing or unreadable, as opposed to a manifest that was read and does not resolve. -/
def ManifestError.isInput : ManifestError → Bool
  | .unreadable .. | .malformed .. | .notFound .. | .tableNotObject .. => true
  | _ => false

end BoardAtlas
