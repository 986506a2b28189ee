import BoardAtlas.Manifest.Error

/-!
# Dotted paths

A path names a value inside nested objects, one key a segment. Empty segments do not count.

* `segments`: the keys of a path;
* `Value.at?`, `Value.getPath?`: the value at a path;
* `Value.put`, **`Value.setPath`**: writes at a path, with the whole value after the attempt.
-/

namespace BoardAtlas

/-- The keys that a dotted path names. -/
def segments (path : String) : List String := (Text.piecesOf '.' path).filter (· ≠ "")

namespace Value

/-- The value below the keys. -/
def at? : Value → List String → Option Value
  | v, [] => some v
  | v, key :: rest => (v.get? key).bind fun child => child.at? rest

/-- The value at a dotted path. -/
def getPath? (v : Value) (path : String) : Option Value := v.at? (segments path)

/-- Writes below the keys, making objects for missing ones. The second part is the key that could not be
entered because the value there is no object. -/
def put (new : Value) : List String → Value → Value × Option String
  | [], _ => (new, none)
  | key :: rest, .obj fields =>
    let (child, blocked) := put new rest ((Dict.get? fields key).getD (.obj []))
    (.obj (Dict.insert fields key child), blocked)
  | key :: _, v => (v, some key)

/-- **Writes at a dotted path**: the whole value after the attempt, and the error if there is one. -/
def setPath (v : Value) (path : String) (new : Value) : Value × Option ManifestError :=
  let (state, blocked) := put new (segments path) v
  (state, blocked.map (.invalidPath path ·))

end Value

end BoardAtlas
