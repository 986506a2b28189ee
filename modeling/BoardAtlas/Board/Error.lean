import BoardAtlas.Shape.Error
import BoardAtlas.Role.Registry

/-!
# What can go wrong with a board

* `AliasKind`: digital and analog Arduino pins;
* `PinoutFault`: what is wrong with a table of pins;
* `BoardError`, `BoardError.message`, `BoardError.isInput`.
-/

namespace BoardAtlas

/-- The kinds of Arduino pins. -/
inductive AliasKind where
  | digital
  | analog
  deriving DecidableEq, Repr

namespace AliasKind

/-- All kinds, in the order they are looked for. -/
def all : List AliasKind := [digital, analog]

/-- The name of a kind in messages. -/
def name : AliasKind → String
  | digital => "digital"
  | analog => "analog"

/-- The first letter of the aliases of a kind. -/
def letter : AliasKind → Char
  | digital => 'D'
  | analog => 'A'

/-- The role that holds the alias of a kind. -/
def roleType : AliasKind → RoleType
  | digital => .ardD
  | analog => .ardA

end AliasKind

/-- What is wrong with a table of pins. -/
inductive PinoutFault where
  | notObject (found : Value.Kind)
  | pinNotObject (pin : String) (found : Value.Kind)
  | objectValue
  deriving DecidableEq, Repr

/-- What is told of a layout of pins that cannot be read. -/
def PinoutFault.message : PinoutFault → String
  | .notObject found => "expected object, found " ++ found.name
  | .pinNotObject pin found => "pin \"" ++ pin ++ "\": expected object, found " ++ found.name
  | .objectValue => "role value cannot be an object"

/-- What can go wrong with a board. -/
inductive BoardError where
  | manifest (board : String) (cause : ManifestError)
  | table (kind : TableKind) (cause : ManifestError)
  | shape (board : String) (cause : ShapeError)
  | invalidField (board field : String) (fault : PinoutFault)
  | unknownRole (board pin role : String)
  | ambiguousAlias (board pin : String) (kind : AliasKind) (aliases : List String)
  | invalidRegion (board region layout : String)
  | duplicateAlias (board arduinoPin first second : String)
  | duplicateBoard (id first second : String)
  | roles (cause : UnknownRole)

namespace BoardError

/-- The start of a message about a board. -/
def lead (board : String) : String := "board \"" ++ board ++ "\": "

/-- What is told of an error. -/
def message : BoardError → String
  | manifest board cause => lead board ++ cause.message
  | table kind cause => kind.name ++ " table: " ++ cause.message
  | shape board cause => lead board ++ cause.message
  | invalidField board field fault => lead board ++ "invalid " ++ field ++ ": " ++ fault.message
  | unknownRole board pin role =>
    lead board ++ "pin \"" ++ pin ++ "\" has unknown role \"" ++ role ++ "\""
  | ambiguousAlias board pin kind aliases =>
    lead board ++ "pin \"" ++ pin ++ "\" maps to more than one " ++ kind.name ++ " Arduino pin: " ++
      Text.joined ", " aliases
  | invalidRegion board region layout =>
    lead board ++ "flash region \"" ++ region ++ "\" has invalid layout \"" ++ layout ++ "\""
  | duplicateAlias board arduinoPin first second =>
    lead board ++ "Arduino pin \"" ++ arduinoPin ++ "\" is assigned to both " ++ first ++ " and " ++
      second
  | duplicateBoard id first second =>
    "board id \"" ++ id ++ "\" is produced by both \"" ++ first ++ "\" and \"" ++ second ++ "\""
  | roles cause => "roles table: " ++ cause.message

/-- The input is missing or unreadable, as opposed to a board that was read and does not resolve. -/
def isInput : BoardError → Bool
  | manifest _ cause | table _ cause | shape _ (.manifest _ cause) => cause.isInput
  | _ => false

end BoardError

end BoardAtlas
