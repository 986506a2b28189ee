import BoardAtlas.Geometry.Bounds
import BoardAtlas.Manifest.Value
import BoardAtlas.Text.Cut

/-!
# Shape trees

* `LabelDir`, `Style`, `Frame`: what every shape carries;
* `Shape`, `Group`: rectangles, circles, texts and groups of shapes;
* `Shape.bounds`, `Group.bounds`: boxes;
* `Shape.moveBy`, `Group.moveBy`: moved trees;
* `Shape.findById?`, `Group.findById?`: look-up by full id;
* `Group.findByPath?`: look-up by the ids of one level after another.
-/

namespace BoardAtlas

/-- The side to which the labels of a pad grow. -/
inductive LabelDir where
  | left
  | right
  deriving DecidableEq, Repr

/-- The name of a side in manifests. -/
def LabelDir.name : LabelDir → String
  | .left => "left"
  | .right => "right"

/-- Free attributes of a fill or stroke. -/
abbrev Style : Type := Dict Value

/-- What every shape carries. -/
structure Frame (α : Type) where
  /-- The id with those of all groups around it. -/
  id? : Option String := none
  /-- The id as it is written in the manifest. -/
  baseId? : Option String := none
  pos : Vec α
  labelDir? : Option LabelDir := none
  labelSize? : Option α := none

/-- A frame moved by a vector. -/
def Frame.moveBy {α : Type} [Coordinate α] (d : Vec α) (f : Frame α) : Frame α :=
  { f with pos := f.pos + d }

/-- A shape over coordinates of some kind. -/
inductive Shape (α : Type) where
  | rect (frame : Frame α) (size : Vec α) (rx ry : Option α) (fill stroke : Option Style)
  | circle (frame : Frame α) (radius : α) (fill stroke : Option Style)
  | text (frame : Frame α) (text : String) (fontSize : α) (fill : Option Style)
  | group (frame : Frame α) (name : String) (count : Nat) (vars : Dict Value)
      (children : List (Shape α))

/-- A group: the shapes of an included list, so many times, or shapes wrapped without a name. -/
structure Group (α : Type) where
  frame : Frame α
  name : String
  count : Nat
  vars : Dict Value
  children : List (Shape α)

namespace Shape

variable {α : Type}

/-- A group as a shape. -/
def ofGroup (g : Group α) : Shape α := group g.frame g.name g.count g.vars g.children

/-- A shape as a group, if it is one. -/
def asGroup? : Shape α → Option (Group α)
  | group frame name count vars children => some ⟨frame, name, count, vars, children⟩
  | _ => none

/-- What the shape carries. -/
def frame : Shape α → Frame α
  | rect f .. => f
  | circle f .. => f
  | text f .. => f
  | group f .. => f

/-- The full id of a shape. -/
def id? (s : Shape α) : Option String := s.frame.id?

/-- The anchor of a shape. -/
def pos (s : Shape α) : Vec α := s.frame.pos

/-! ## Boxes and moves -/

variable [Coordinate α]

mutual

/-- The box of a shape: texts have an extent of one in each direction, a group has the box around its
children, and without children the point of its anchor. -/
def bounds : Shape α → Bounds α
  | rect f size .. => Bounds.ofCorners f.pos (f.pos + size)
  | circle f r .. => Bounds.ofCorners (f.pos - ⟨r, r⟩) (f.pos + ⟨r, r⟩)
  | text f .. => Bounds.ofCorners (f.pos - ⟨1.0, 1.0⟩) (f.pos + ⟨1.0, 1.0⟩)
  | group f _ _ _ children => (Bounds.unionAll? (boundsOf children)).getD (Bounds.point f.pos)

/-- The boxes of shapes. -/
def boundsOf : List (Shape α) → List (Bounds α)
  | [] => []
  | s :: rest => bounds s :: boundsOf rest

end

mutual

/-- The shape moved by a vector, with all that is inside it. -/
def moveBy (d : Vec α) : Shape α → Shape α
  | rect f size rx ry fill stroke => rect (f.moveBy d) size rx ry fill stroke
  | circle f r fill stroke => circle (f.moveBy d) r fill stroke
  | text f s size fill => text (f.moveBy d) s size fill
  | group f name count vars children => group (f.moveBy d) name count vars (moveAll d children)

/-- Shapes moved by a vector. -/
def moveAll (d : Vec α) : List (Shape α) → List (Shape α)
  | [] => []
  | s :: rest => moveBy d s :: moveAll d rest

end

/-! ## Look-ups -/

omit [Coordinate α]

mutual

/-- The first shape with a full id, looking at a group before its children. -/
def findById? (id : String) : Shape α → Option (Shape α)
  | group f name count vars children =>
    if f.id? = some id then some (group f name count vars children) else findAmong? id children
  | s => if s.id? = some id then some s else none

/-- The first shape with a full id in a list. -/
def findAmong? (id : String) : List (Shape α) → Option (Shape α)
  | [] => none
  | s :: rest => (findById? id s).or (findAmong? id rest)

end

/-- The shape that ids of one level after another lead to. A shape without children ends the way early. -/
def findBelow? : List String → List (Shape α) → Option (Shape α)
  | [], _ => none
  | head :: rest, shapes =>
    match shapes.find? fun s => s.frame.baseId? == some head with
    | none => none
    | some s =>
      if rest.isEmpty then some s
      else match s with
        | group _ _ _ _ children => findBelow? rest children
        | leaf => some leaf

/-- The shape inside a group that a dotted path of ids leads to. -/
def findByPath? (path : String) : Shape α → Option (Shape α)
  | group _ _ _ _ children => findBelow? (Text.piecesOf '.' path) children
  | _ => none

end Shape

namespace Group

variable {α : Type}

/-- Shapes wrapped into a group at the origin. -/
def wrap [Coordinate α] (id : String) (children : List (Shape α)) : Group α :=
  { frame := { id? := some id, pos := Vec.zero }, name := "", count := 1, vars := [], children }

/-- The box of a group. -/
def bounds [Coordinate α] (g : Group α) : Bounds α := (Shape.ofGroup g).bounds

/-- A group moved by a vector. -/
def moveBy [Coordinate α] (d : Vec α) (g : Group α) : Group α :=
  { g with frame := g.frame.moveBy d, children := Shape.moveAll d g.children }

/-- The first shape inside a group with a full id. -/
def findById? (g : Group α) (id : String) : Option (Shape α) := Shape.findAmong? id g.children

/-- The shape inside a group that a dotted path of ids leads to. -/
def findByPath? (g : Group α) (path : String) : Option (Shape α) :=
  Shape.findBelow? (Text.piecesOf '.' path) g.children

end Group

end BoardAtlas
