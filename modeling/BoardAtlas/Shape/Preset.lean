import BoardAtlas.Shape.Error
import BoardAtlas.Manifest.Substitution

/-!
# Presets

A fragment may name presets, whose members it gets unless it has them itself.

* `PresetTable`, `PresetTable.resolve`: named fragments, with variables replaced;
* `presetNames`: the names a fragment gives, and the fragment without them;
* **`PresetTable.expand`**: the fragment with the members of its presets.
-/

namespace BoardAtlas

/-- Named partial shapes. -/
abbrev PresetTable : Type := Dict Value

/-- The name of a preset. -/
def presetName (place : String) : Value → Except ShapeError String
  | .str s => .ok s
  | v => .error (.invalidField place "preset" (.notPreset v.kind))

/-- The name that a member gives. -/
def nameIn (place : String) : Option Value → Except ShapeError (List String)
  | none => .ok []
  | some v => (presetName place v).map fun name => [name]

/-- The names that a member gives, alone or in a list. -/
def namesIn (place : String) : Option Value → Except ShapeError (List String)
  | none => .ok []
  | some (.list items) => items.mapM (presetName place)
  | some v => nameIn place (some v)

/-- The preset names of a fragment, `preset` before `presets`. The fragment loses each member as it is
read, also when its names are not valid. -/
def presetNames (place : String) (data : Dict Value) :
    Dict Value × Except ShapeError (List String) :=
  let rest := data.erase "preset"
  match nameIn place (data.get? "preset") with
  | .error e => (rest, .error e)
  | .ok first =>
    (rest.erase "presets", (namesIn place (rest.get? "presets")).map fun more => first ++ more)

namespace PresetTable

/-- A preset with variables replaced; it must be an object. -/
def resolve (table : PresetTable) (name : String) (vars : Vars) (place : String) :
    Except ShapeError (Dict Value) :=
  match table.get? name with
  | none => .error (.missingPreset place name)
  | some fragment =>
    match substituteValue vars fragment with
    | .error e => .error (.manifest place e)
    | .ok (.obj members) => .ok members
    | .ok v => .error (.invalidField place ("preset \"" ++ name ++ "\"") (.notObject v.kind))

/-- The members of several presets, later ones first. -/
def resolveAll (table : PresetTable) (vars : Vars) (place : String) :
    Dict Value → List String → Except ShapeError (Dict Value)
  | merged, [] => .ok merged
  | merged, name :: rest => do
    let members ← table.resolve name vars place
    resolveAll table vars place (merged.extend members) rest

/-- **The fragment with the members of its presets**, and the error if there is one. -/
def expand (table : PresetTable) (data : Dict Value) (vars : Vars) (place : String) :
    Dict Value × Option ShapeError :=
  match presetNames place data with
  | (rest, .error e) => (rest, some e)
  | (rest, .ok names) =>
    match table.resolveAll vars place [] names with
    | .error e => (rest, some e)
    | .ok members => (rest.addMissing members, none)

end PresetTable

end BoardAtlas
