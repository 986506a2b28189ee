import BoardAtlas.Dict

/-!
# JSON documents

The tree that typed records are read from and written to. Integers and other numbers are told apart,
since a reader of counts accepts only the former; members keep their order.

* `Json`: the tree;
* `Json.strings`, `Json.option`, `Json.members`: short ways to build one.
-/

namespace BoardAtlas

/-- A JSON document with members in order. -/
inductive Json where
  | null
  | bool (b : Bool)
  | int (n : Int)
  | float (x : Float)
  | str (s : String)
  | arr (items : List Json)
  | obj (members : List (String × Json))
  deriving Inhabited

namespace Json

/-- A list of texts. -/
def strings (texts : List String) : Json := arr (texts.map str)

/-- A value that may be missing, written as `null`. -/
def option {α : Type} (write : α → Json) : Option α → Json
  | none => null
  | some x => write x

/-- A text that may be missing. -/
def text? : Option String → Json := option str

/-- A dictionary, member by member. -/
def members {α : Type} (write : α → Json) (d : Dict α) : Json := obj (d.mapValues write)

/-- A natural number. -/
def nat (n : Nat) : Json := int n

/-- A member that is left out when its value is missing. -/
def member? {α : Type} (key : String) (write : α → Json) : Option α → List (String × Json)
  | none => []
  | some x => [(key, write x)]

end Json

end BoardAtlas
