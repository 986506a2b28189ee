import BoardAtlas.Json.Printer

/-!
# Manifest values

A manifest is a tree whose numbers are all doubles and whose objects keep the order of their keys.

* `Value`, `Value.Kind`: the tree and the kinds of its nodes;
* `Value.toJson`, `Value.ofJson`: the document of a value and back; integral numbers of 64 bits are
  written as integers;
* `Value.compact`: its compact JSON text;
* **`Value.varText`**: the text a value turns into inside another text.
-/

namespace BoardAtlas

/-- A manifest tree. -/
inductive Value where
  | null
  | bool (b : Bool)
  | num (x : Float)
  | str (s : String)
  | list (items : List Value)
  | obj (members : List (String × Value))
  deriving Inhabited

namespace Value

/-- The kind of a node. -/
inductive Kind where
  | null
  | bool
  | number
  | string
  | list
  | object
  deriving DecidableEq, Repr

/-- The name of a kind in messages. -/
def Kind.name : Kind → String
  | .null => "null"
  | .bool => "bool"
  | .number => "number"
  | .string => "string"
  | .list => "list"
  | .object => "object"

/-- The kind of a value. -/
def kind : Value → Kind
  | .null => .null
  | .bool _ => .bool
  | .num _ => .number
  | .str _ => .string
  | .list _ => .list
  | .obj _ => .object

/-- The members of an object. -/
def members? : Value → Option (Dict Value)
  | .obj fields => some fields
  | _ => none

/-- The text of a string. -/
def text? : Value → Option String
  | .str s => some s
  | _ => none

/-- A member of an object; other values have none. -/
def get? (v : Value) (key : String) : Option Value := v.members?.bind (Dict.get? · key)

theorem members?_eq_none {v : Value} (h : v.kind ≠ .object) : v.members? = none := by
  cases v <;> first | rfl | exact absurd rfl h

/-! ## JSON -/

/-- A number as it is written to JSON: an integer if it is integral and has 64 bits. -/
def numberJson (x : Float) : Json :=
  match Binary64.int64? x with
  | some n => .int n
  | none => if x.isFinite then .float x else .null

mutual

/-- The JSON document of a value. -/
def toJson : Value → Json
  | .null => .null
  | .bool b => .bool b
  | .num x => numberJson x
  | .str s => .str s
  | .list items => .arr (itemsToJson items)
  | .obj fields => .obj (membersToJson fields)

/-- The JSON documents of list items. -/
def itemsToJson : List Value → List Json
  | [] => []
  | v :: rest => toJson v :: itemsToJson rest

/-- The JSON documents of members. -/
def membersToJson : List (String × Value) → List (String × Json)
  | [] => []
  | (k, v) :: rest => (k, toJson v) :: membersToJson rest

end

mutual

/-- The value of a JSON document: every number becomes the nearest double. -/
def ofJson : Json → Value
  | .null => .null
  | .bool b => .bool b
  | .int n => .num (Binary64.ofInt n)
  | .float x => .num x
  | .str s => .str s
  | .arr items => .list (itemsOfJson items)
  | .obj fields => .obj (membersOfJson fields)

/-- The values of list items. -/
def itemsOfJson : List Json → List Value
  | [] => []
  | v :: rest => ofJson v :: itemsOfJson rest

/-- The values of members. -/
def membersOfJson : List (String × Json) → List (String × Value)
  | [] => []
  | (k, v) :: rest => (k, ofJson v) :: membersOfJson rest

end

/-- The compact JSON text of a value. -/
def compact (v : Value) : String := v.toJson.compact

/-- **The text a value turns into inside another text**: strings as they are, numbers as manifest text,
lists and objects as compact JSON. -/
def varText : Value → String
  | .null => "null"
  | .bool b => if b then "true" else "false"
  | .num x => formatNumber x
  | .str s => s
  | v => v.compact

end Value

end BoardAtlas
