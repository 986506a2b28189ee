import BoardAtlas.Shape.Preset
import BoardAtlas.Shape.Tree
import BoardAtlas.Formula.Field

/-!
# Fragments of a manifest

A shape is built from a fragment in two steps. First the fragment is resolved in its scope: its id gets
the id of the scope in front, its variables join those of the scope and are replaced everywhere, and its
presets are merged in. Then its fields are read.

* `Scope`: what a fragment gets from around it;
* `Fragment`, `Fragment.resolve`: a resolved fragment;
* `Fragment.number?`, `Fragment.pair?`, `Fragment.style?`, `Fragment.frame`: typed fields;
* `Plan`, **`Fragment.plan`**: a finished shape, or a list of shapes to be included.
-/

namespace BoardAtlas

/-- What a fragment gets from around it: an id, variables and its place in the manifest. -/
structure Scope where
  id? : Option String
  vars : Vars
  path : String

/-- A fragment in which everything is replaced, with the variables it sees and its place in errors. -/
structure Fragment where
  data : Dict Value
  vars : Vars
  place : String

namespace Fragment

/-! ## Resolving -/

/-- Gives a fragment with a name and no type the type `include`. -/
def withType (data : Dict Value) : Dict Value :=
  if !data.has "type" && data.has "name" then data.insert "type" (.str "include") else data

/-- Keeps the id as the base id and puts the id of the scope in front of it. -/
def withId (scope : Option String) (data : Dict Value) : Dict Value :=
  match scope, data.get? "id" with
  | some parent, some (.str s) =>
    (data.insert "base_id" (.str s)).insert "id" (.str (parent ++ "." ++ s))
  | none, some v => data.insert "base_id" v
  | _, _ => data

/-- The variables of the scope with those of the fragment written over them. -/
def varsOf (scope : Scope) (data : Dict Value) : Except ShapeError Vars :=
  match data.get? "vars" with
  | none => .ok scope.vars
  | some (.obj own) => .ok (scope.vars.extend own)
  | some v => .error (.invalidField scope.path "vars" (.notObject v.kind))

/-- The members of an object with variables replaced. -/
def substituted (scope : Scope) (vars : Vars) (data : Dict Value) : Except ShapeError (Dict Value) :=
  if vars.isEmpty then .ok data
  else (substituteMembers vars [] data).mapError (.manifest scope.path)

/-- The place of a fragment: its id, or its place in the manifest. -/
def placeOf (scope : Scope) (data : Dict Value) : String :=
  match data.get? "id" with
  | some (.str s) => s
  | _ => scope.path

/-- **A fragment resolved in its scope.** -/
def resolve (presets : PresetTable) (scope : Scope) : Value → Except ShapeError Fragment
  | .obj source => do
    let data := withId scope.id? (withType source)
    let vars ← varsOf scope data
    let data ← substituted scope vars data
    let place := placeOf scope data
    match presets.expand data vars place with
    | (data, none) => pure ⟨data, vars, place⟩
    | (_, some e) => throw e
  | v => .error (.invalidField scope.path "shape" (.notObject v.kind))

/-! ## Fields -/

variable [Calculator] (f : Fragment)

/-- A member that is present and not `null`. -/
def field? (key : String) : Option Value :=
  match f.data.get? key with
  | some .null => none
  | v => v

/-- A numeric field. -/
def number? (key : String) : Except ShapeError (Option Float) :=
  match f.field? key with
  | none => .ok none
  | some v => ((evaluateNumber (f.place ++ "." ++ key) v).map some).mapError (.manifest f.place)

/-- A coordinate pair. -/
def pair? (key : String) : Except ShapeError (Option (Float × Float)) :=
  match f.field? key with
  | none => .ok none
  | some v => ((evaluatePair (f.place ++ "." ++ key) v).map some).mapError (.manifest f.place)

/-- A style: attributes, or a color alone. -/
def style? (key : String) : Except ShapeError (Option Style) :=
  match f.field? key with
  | none => .ok none
  | some (.obj attributes) => .ok (some attributes)
  | some (.str color) => .ok (some [("color", .str color)])
  | some v => .error (.invalidField f.place key (.notColor v.kind))

/-- The side to which labels grow. -/
def labelDir? : Except ShapeError (Option LabelDir) :=
  match f.field? "label_dir" with
  | none => .ok none
  | some (.str "left") => .ok (some .left)
  | some (.str "right") => .ok (some .right)
  | some v => .error (.invalidField f.place "label_dir" (.notDirection v.varText))

/-- A text member; any other value counts as missing. -/
def text? (key : String) : Option String := (f.data.get? key).bind Value.text?

/-- A field that a shape cannot do without. -/
def needed {β : Type} (key : String) : Option β → Except ShapeError β
  | some x => .ok x
  | none => .error (.missingGeometry f.place key)

variable {α : Type} [Coordinate α]

/-- What the shape will carry. -/
def frame : Except ShapeError (Frame α) := do
  let labelDir? ← f.labelDir?
  let pos ← f.pair? "pos"
  let labelSize ← f.number? "label_size"
  pure {
    id? := f.text? "id"
    baseId? := f.text? "base_id"
    pos := (pos.map Vec.ofFloats).getD Vec.zero
    labelDir?
    labelSize? := labelSize.map Coordinate.ofFloat }

/-- How often a list is included: once unless a natural number is given. -/
def count : Except ShapeError Nat := do
  match ← f.number? "repeat" with
  | none => pure 1
  | some x =>
    if x ≥ 0 && (Binary64.integer? x).isSome then pure (Binary64.truncated (pow2 64 - 1) x)
    else throw (.invalidField f.place "repeat" (.notCount x))

/-! ## Shapes -/

/-- A rectangle. -/
def rect (frame : Frame α) : Except ShapeError (Shape α) := do
  let size ← f.needed "size" (← f.pair? "size")
  let rx ← f.number? "rx"
  let ry ← f.number? "ry"
  let fill ← f.style? "fill"
  let stroke ← f.style? "stroke"
  pure (.rect frame (Vec.ofFloats size) (rx.map Coordinate.ofFloat) (ry.map Coordinate.ofFloat)
    fill stroke)

/-- The radius of a circle: half of a positive diameter, else a positive radius. -/
def radius : Except ShapeError α := do
  let r ← f.number? "r"
  let d ← f.number? "d"
  match r.filter (· > 0), d.filter (· > 0) with
  | _, some d => pure (Coordinate.ofFloat d / 2.0)
  | some r, none => pure (Coordinate.ofFloat r)
  | none, none => throw (.missingGeometry f.place "r")

/-- A circle. -/
def circle (frame : Frame α) : Except ShapeError (Shape α) := do
  let r ← f.radius
  let fill ← f.style? "fill"
  let stroke ← f.style? "stroke"
  pure (.circle frame r fill stroke)

/-- A text. -/
def text (frame : Frame α) : Except ShapeError (Shape α) := do
  let s ← f.needed "text" ((f.data.get? "text").map Value.varText)
  let size ← f.needed "font_size" (← f.number? "font_size")
  let fill ← f.style? "fill"
  pure (.text frame s (Coordinate.ofFloat size) fill)

/-- What is to be built: a finished shape, or a group of a list's shapes, so many times. -/
inductive Plan (α : Type) where
  | shape (s : Shape α)
  | group (frame : Frame α) (name : String) (count : Nat)

/-- A group of the shapes of a named list. -/
def inclusion (frame : Frame α) : Except ShapeError (Plan α) := do
  match f.text? "name" with
  | none => throw (.missingField f.place "name")
  | some name => pure (.group frame name (← f.count))

/-- **What a resolved fragment asks to be built.** -/
def plan : Except ShapeError (Plan α) := do
  let frame ← f.frame
  match f.data.get? "type" with
  | none => throw (.missingField f.place "type")
  | some (.str "rect") => (f.rect frame).map .shape
  | some (.str "circle") => (f.circle frame).map .shape
  | some (.str "text") => (f.text frame).map .shape
  | some (.str "include") => f.inclusion frame
  | some v => throw (.invalidType f.place v.varText)

end Fragment

end BoardAtlas
