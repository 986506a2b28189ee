import BoardAtlas.Json.Tree
import BoardAtlas.Number.Binary64

/-!
# Reading typed records

A record is read from an object, by the names of its fields, or from a list, in the order its fields are
declared. A field may have a default for when it is missing; `null` is a value like any other.

* `asText`, `asNumber`, `asNatural`, `asOption`, `asList`, `asDict`: readers for single values;
* `Fields`, **`asRecord`**: the fields of a record;
* `Fields.get`, `Fields.getOr`: required and defaulted fields.
-/

namespace BoardAtlas.Json

/-- Why a document does not have the wanted form. -/
abbrev Reader (α : Type) : Type := Json → Except String α

/-- A text. -/
def asText : Reader String
  | str s => .ok s
  | _ => .error "a string is expected"

/-- Any number. -/
def asNumber : Reader Float
  | int n => .ok (Binary64.ofInt n)
  | float x => .ok x
  | _ => .error "a number is expected"

/-- A natural number of 64 bits. -/
def asNatural : Reader Nat
  | int n => if 0 ≤ n ∧ n < pow2 64 then .ok n.toNat else .error "a natural number is expected"
  | _ => .error "a natural number is expected"

/-- A value that may be `null`. -/
def asOption {α : Type} (read : Reader α) : Reader (Option α)
  | null => .ok none
  | v => (read v).map some

/-- A list. -/
def asList {α : Type} (read : Reader α) : Reader (List α)
  | arr items => items.mapM read
  | _ => .error "a list is expected"

/-- An object with members of one form. -/
def asDict {α : Type} (read : Reader α) : Reader (Dict α)
  | obj fields => fields.mapM fun (k, v) => (read v).map fun x => (k, x)
  | _ => .error "an object is expected"

/-- The fields of a record that are present. -/
abbrev Fields : Type := Dict Json

/-- **The fields of a record** with the given declaration. -/
def asRecord (declared : List String) : Reader Fields
  | obj fields => .ok fields
  | arr items =>
    if items.length ≤ declared.length then .ok (declared.zip items)
    else .error "a list has more items than the record has fields"
  | _ => .error "an object is expected"

/-- A required field. -/
def Fields.get {α : Type} (fields : Fields) (key : String) (read : Reader α) : Except String α :=
  match Dict.get? fields key with
  | some v => read v
  | none => .error ("the field " ++ key ++ " is missing")

/-- A field with a default. -/
def Fields.getOr {α : Type} (fields : Fields) (key : String) (read : Reader α) (default : α) :
    Except String α :=
  match Dict.get? fields key with
  | some v => read v
  | none => .ok default

end BoardAtlas.Json
