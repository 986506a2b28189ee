import BoardAtlas.Shape.Fragment
import BoardAtlas.Library.Loading

/-!
# Building shapes

Shapes are built from fragments; an include builds every fragment of a list as often as it says, under
its own id, with the variables `I` and `J` for the number of the turn and of all turns.

Nothing keeps a list from including itself, so that shapes are followed to a depth of nesting.

* `ShapeBuilder`: the library and presets that shapes are built from;
* `buildEach`, `buildNamed`, `buildTurns`: lists, named lists and their repetition, for any way to build
  one shape;
* **`ShapeBuilder.buildWithin`**: one shape, followed to a depth.
-/

namespace BoardAtlas

/-- What shapes are built from. -/
structure ShapeBuilder where
  library : Library
  presets : PresetTable

variable {α : Type} [Coordinate α]

/-- A way to build one shape from a fragment. -/
abbrev BuildOne (α : Type) : Type := Scope → Value → Loading (Stop ShapeError) (Shape α)

/-- The shapes of fragments, the first of which has the given number, each moved by an offset. -/
def buildFrom (build : BuildOne α) (scope : Scope) (offset : Vec α) :
    Nat → List Value → Loading (Stop ShapeError) (List (Shape α))
  | _, [] => pure []
  | i, data :: rest => do
    let s ← build { scope with path := scope.path ++ "[" ++ toString i ++ "]" } data
    let s := if offset.isZero then s else s.moveBy offset
    let more ← buildFrom build scope offset (i + 1) rest
    pure (s :: more)

/-- The shapes of fragments, each moved by an offset. -/
def buildEach (build : BuildOne α) (scope : Scope) (items : List Value) (offset : Vec α) :
    Loading (Stop ShapeError) (List (Shape α)) :=
  buildFrom build scope offset 0 items

/-- The shapes of a named list, each moved by an offset. -/
def buildNamed (library : Library) (build : BuildOne α) (scope : Scope) (name : String)
    (offset : Vec α) : Loading (Stop ShapeError) (List (Shape α)) := do
  match ← (library.manifest .shape name).mapError fun e => .failed (.manifest scope.path e) with
  | .list items => buildEach build { scope with path := scope.path ++ "/" ++ name } items offset
  | _ => throw (.failed (.notList name))

/-- The shapes of turns, from the given one on, so many of them. -/
def buildTurns (turn : Nat → Loading (Stop ShapeError) (List (Shape α))) :
    Nat → Nat → Loading (Stop ShapeError) (List (Shape α))
  | _, 0 => pure []
  | i, n + 1 => do
    let shapes ← turn i
    let more ← buildTurns turn (i + 1) n
    pure (shapes ++ more)

/-- The variables of one turn of an include. -/
def turnVars (vars : Vars) (count i : Nat) : Vars :=
  (vars.insert "J" (.num (Binary64.ofNat count))).insert "I" (.num (Binary64.ofNat i))

/-- The children of an include: all turns of a named list under one id. -/
def buildChildren (library : Library) (build : BuildOne α) (vars : Vars) (path : String)
    (frame : Frame α) (name : String) (count : Nat) : Loading (Stop ShapeError) (List (Shape α)) :=
  buildTurns (fun i =>
    buildNamed library build ⟨some (frame.id?.getD name), turnVars vars count i, path⟩ name
      frame.pos) 0 count

namespace ShapeBuilder

/-- A builder with the presets of its library. -/
def ofLibrary (library : Library) : Loading ShapeError ShapeBuilder := do
  let presets ← (library.table .presets).mapError (.manifest TableKind.presets.name)
  pure ⟨library, presets⟩

variable [Calculator]

/-- **The shape of a fragment**, followed as deep as so many levels of includes. -/
def buildWithin (b : ShapeBuilder) : Nat → BuildOne α
  | 0, _, _ => throw .unfinished
  | depth + 1, scope, data => do
    let fragment ← Loading.ofExcept ((Fragment.resolve b.presets scope data).mapError .failed)
    match ← Loading.ofExcept (fragment.plan.mapError .failed) with
    | .shape s => pure s
    | .group frame name count =>
      let children ←
        buildChildren b.library (b.buildWithin depth) fragment.vars scope.path frame name count
      pure (.group frame name count fragment.vars children)

/-- The shapes of fragments, each moved by an offset. -/
def buildList (b : ShapeBuilder) (depth : Nat) (scope : Scope) (items : List Value) (offset : Vec α) :
    Loading (Stop ShapeError) (List (Shape α)) :=
  buildEach (b.buildWithin depth) scope items offset

/-- The shapes of a named list, each moved by an offset. -/
def buildNamed (b : ShapeBuilder) (depth : Nat) (scope : Scope) (name : String) (offset : Vec α) :
    Loading (Stop ShapeError) (List (Shape α)) :=
  BoardAtlas.buildNamed b.library (b.buildWithin depth) scope name offset

end ShapeBuilder

end BoardAtlas
