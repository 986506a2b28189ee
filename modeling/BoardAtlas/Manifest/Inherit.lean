import BoardAtlas.Manifest.Merge

/-!
# Base manifests

A manifest may name bases; it is merged over them in the order they are named. Only one level is
followed: what a base itself declares is dropped.

* `baseKeys`, `declaredBases`: the declaration;
* `withoutBases`: a base without its own declarations;
* **`inherit`**: a manifest over its bases, for any way to load a base.
-/

namespace BoardAtlas

/-- The keys that may declare bases; the first one present counts. -/
def baseKeys : List String := ["_base", "base"]

/-- The name in a list of bases. -/
def baseName (name : String) : Value → Except ManifestError String
  | .str s => .ok s
  | v => .error (.invalidBase name (.item v.kind))

/-- The names of the declared bases, in merge order. -/
def declaredBases (name : String) (manifest : Value) : Except ManifestError (List String) :=
  match baseKeys.findSome? manifest.get? with
  | none => .ok []
  | some (.str s) => .ok [s]
  | some (.list items) => items.mapM (baseName name)
  | some v => .error (.invalidBase name (.declaration v.kind))

/-- A base manifest without its own base declarations. -/
def withoutBases : Value → Value
  | .obj fields => .obj (baseKeys.foldl Dict.erase fields)
  | v => v

/-- Loads the bases in order and merges each over what came before. -/
def mergeBases {m : Type → Type} [Monad m] [MonadExceptOf ManifestError m]
    (load : String → m Value) : Value → List String → m Value
  | merged, [] => pure merged
  | merged, base :: rest => do
    let layer ← load base
    let merged ← MonadExcept.ofExcept (merged.merged? (withoutBases layer))
    mergeBases load merged rest

/-- **A manifest merged over its declared bases**, so that its own members win. -/
def inherit {m : Type → Type} [Monad m] [MonadExceptOf ManifestError m]
    (load : String → m Value) (name : String) (manifest : Value) : m Value := do
  let bases ← MonadExcept.ofExcept (declaredBases name manifest)
  if bases.isEmpty then pure manifest
  else
    let merged ← mergeBases load (.obj []) bases
    MonadExcept.ofExcept (merged.merged? manifest)

end BoardAtlas
