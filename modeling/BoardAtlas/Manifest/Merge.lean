import BoardAtlas.Manifest.Error

/-!
# Deep merge

Objects merge member by member; anything else is replaced by a value of the same kind, and `null` by any
value. The first conflict stops the merge and leaves what was merged before it.

* `Value.Conflict`: where two kinds clash;
* `Value.mergeAt`, `Value.mergeMembers`: the merge below a trail of keys, innermost first;
* **`Value.merge`**: the merged value and the error if there is one.
-/

namespace BoardAtlas.Value

/-- A clash of kinds below the keys of `path`. -/
structure Conflict where
  path : List String
  expected : Kind
  found : Kind
  deriving DecidableEq, Repr

/-- Puts a value over one that is not merged by members. -/
def replace (trail : List String) (old new : Value) : Value × Option Conflict :=
  if old.kind = .null ∨ old.kind = new.kind then (new, none)
  else (old, some ⟨trail.reverse, old.kind, new.kind⟩)

mutual

/-- Merges a value over another one, below the keys of the trail. -/
def mergeAt (trail : List String) (old : Value) : Value → Value × Option Conflict
  | .obj new =>
    match old with
    | .obj fields =>
      let (merged, conflict) := mergeMembers trail fields new
      (.obj merged, conflict)
    | _ => replace trail old (.obj new)
  | .null => replace trail old .null
  | .bool b => replace trail old (.bool b)
  | .num x => replace trail old (.num x)
  | .str s => replace trail old (.str s)
  | .list items => replace trail old (.list items)

/-- Merges members in their order, up to the first conflict. -/
def mergeMembers (trail : List String) (fields : Dict Value) :
    List (String × Value) → Dict Value × Option Conflict
  | [] => (fields, none)
  | (key, new) :: rest =>
    match fields.get? key with
    | none => mergeMembers trail (fields.insert key new) rest
    | some old =>
      match mergeAt (key :: trail) old new with
      | (merged, none) => mergeMembers trail (fields.insert key merged) rest
      | (merged, some conflict) => (fields.insert key merged, some conflict)

end

/-- The error of a conflict. -/
def Conflict.error (c : Conflict) : ManifestError := .typeConflict c.path c.expected c.found

/-- **Merges `new` over `old`**: the value reached, and the error if there is one. -/
def merge (old new : Value) : Value × Option ManifestError :=
  let (merged, conflict) := mergeAt [] old new
  (merged, conflict.map Conflict.error)

/-- The merged value, or the error. -/
def merged? (old new : Value) : Except ManifestError Value :=
  match old.merge new with
  | (v, none) => .ok v
  | (_, some e) => .error e

end BoardAtlas.Value
