import BoardAtlas.Manifest.Error
import BoardAtlas.Json.Field

/-!
# Typed parts of manifests

A typed record is read from the document of a value, in which integral numbers are integers.

* **`Value.readAs`**: a value as a typed record;
* `Json.asValue`, `Json.asVars`: values and variables inside a record.
-/

namespace BoardAtlas

/-- **A value as a typed record**; `what` names it in errors. -/
def Value.readAs {α : Type} (what : String) (read : Json.Reader α) (v : Value) :
    Except ManifestError α :=
  (read v.toJson).mapError (.misfit what)

namespace Json

/-- Any value. -/
def asValue : Reader Value := fun v => .ok (Value.ofJson v)

/-- An object with any values. -/
def asVars : Reader (Dict Value) := asDict asValue

end Json

end BoardAtlas
