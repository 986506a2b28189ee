import BoardAtlas.Manifest.Error
import BoardAtlas.Number.Layout

/-!
# What can go wrong with a shape

Every error but one tells where: the full id of the shape if it has one, or its place in the manifest.

* `FieldFault`: what is wrong with a field;
* `ShapeError`, `ShapeError.message`.
-/

namespace BoardAtlas

/-- What is wrong with a field. -/
inductive FieldFault where
  | notObject (found : Value.Kind)
  | notPreset (found : Value.Kind)
  | notColor (found : Value.Kind)
  | notDirection (found : String)
  | notCount (found : Float)

/-- What is told of a field. -/
def FieldFault.message : FieldFault → String
  | .notObject found => "expected an object, found " ++ found.name
  | .notPreset found => "expected a preset name, found " ++ found.name
  | .notColor found => "expected an object or color, found " ++ found.name
  | .notDirection found => "expected \"left\" or \"right\", found " ++ found
  | .notCount found => "expected a non-negative integer, found " ++ Layout.plain.text found

/-- What can go wrong with a shape at a place. -/
inductive ShapeError where
  | manifest (place : String) (cause : ManifestError)
  | missingPreset (place name : String)
  | invalidType (place found : String)
  | missingGeometry (place param : String)
  | missingField (place field : String)
  | invalidField (place field : String) (fault : FieldFault)
  | notList (name : String)

/-- What is told of an error. -/
def ShapeError.message : ShapeError → String
  | .manifest place cause => place ++ ": " ++ cause.message
  | .missingPreset place name => place ++ ": preset \"" ++ name ++ "\" is not defined"
  | .invalidType place found => place ++ ": invalid shape type \"" ++ found ++ "\""
  | .missingGeometry place param => place ++ ": missing geometry parameter \"" ++ param ++ "\""
  | .missingField place field => place ++ ": missing field \"" ++ field ++ "\""
  | .invalidField place field fault =>
    place ++ ": invalid field \"" ++ field ++ "\": " ++ fault.message
  | .notList name => "shape manifest \"" ++ name ++ "\" must be a list of shapes"

end BoardAtlas
