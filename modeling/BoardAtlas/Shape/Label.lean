import BoardAtlas.Shape.Tree
import BoardAtlas.Role.Registry

/-!
# Pin labels

A label is a stack of parts next to a pad, one for every text of every registered role. Each part has a
slot that begins where the one before it ends; the stack grows to the side that the pad says.

* `LabelKind`, `LabelPart`: text blocks and direction strips;
* `LabelPart.slotWidth`, `LabelPart.padding`, `LabelPart.bounds`: their measures;
* `Label`, `LabelSet`: the label of a pin, the labels of a side;
* `labelKinds`, `stack`, **`Label.ofPin`**, **`LabelSet.ofSide`**: the layout.
-/

namespace BoardAtlas

/-- A colored block of text, or a thin strip that shows a direction. -/
inductive LabelKind where
  | block (text : String)
  | ioLine (direction : IoType)
  deriving DecidableEq, Repr

/-- One entry of a label. -/
structure LabelPart (α : Type) where
  roleType : RoleType
  kind : LabelKind
  pos : Vec α
  dir : LabelDir
  size : α
  ratio : α
  color : String

/-- The label of a pin. -/
structure Label (α : Type) where
  pin : String
  padId : String
  pos : Vec α
  parts : List (LabelPart α)

/-- The labels of a side. -/
structure LabelSet (α : Type) where
  labels : List (Label α)
  bounds? : Option (Bounds α)

variable {α : Type} [Coordinate α]

/-- Minus one to the left, one to the right. -/
def LabelDir.sign : LabelDir → α
  | .left => -1.0
  | .right => 1.0

namespace LabelPart

/-- The free space at each end. -/
def padding (p : LabelPart α) : Vec α :=
  let base : Vec α := match p.kind with
    | .block _ => ⟨0.05, 0.1⟩
    | .ioLine _ => ⟨0.25, 0.25⟩
  base.times p.size

/-- The width with the free space. -/
def slotWidth (p : LabelPart α) : α := p.size * p.ratio

/-- The width that is drawn. -/
def width (p : LabelPart α) : α := p.slotWidth - p.padding.x * 2.0

/-- The height that is drawn. -/
def height (p : LabelPart α) : α :=
  match p.kind with
  | .block _ => p.size - p.padding.y * 2.0
  | .ioLine _ => 0.1 * p.size

/-- The box that is drawn: the slot shrunk by the padding at both ends. -/
def bounds (p : LabelPart α) : Bounds α :=
  let x1 := p.pos.x + p.slotWidth / 2.0 * (p.dir.sign - 1.0) + p.padding.x
  let y1 := p.pos.y - p.height / 2.0
  ⟨x1, y1, x1 + p.width, y1 + p.height⟩

/-- The part moved by a vector. -/
def moveBy (d : Vec α) (p : LabelPart α) : LabelPart α := { p with pos := p.pos + d }

end LabelPart

namespace Label

/-- The box around the parts, or the anchor alone. -/
def bounds (l : Label α) : Bounds α :=
  (Bounds.unionAll? (l.parts.map LabelPart.bounds)).getD (Bounds.point l.pos)

/-- The label moved by a vector. -/
def moveBy (d : Vec α) (l : Label α) : Label α :=
  { l with pos := l.pos + d, parts := l.parts.map (LabelPart.moveBy d) }

end Label

/-! ## Layout -/

/-- The kind of part for a text: directions are strips. -/
def labelKind (r : RoleType) (token : String) : LabelKind :=
  match r, IoType.ofName? token with
  | .io, some t => .ioLine t
  | _, _ => .block token

/-- The registered roles of a pin, in display order, with a part for each text. -/
def labelKinds (registry : RoleRegistry) (roles : RoleMap) (hidden : List String) :
    List (Role × LabelKind) :=
  roles.entries.flatMap fun (r, value) =>
    match registry.get? r with
    | none => []
    | some role => (role.format value false hidden).map fun token => (role, labelKind r token)

/-- Parts in slots one after the other, from a position on. -/
def stack (dir : LabelDir) (size : α) : Vec α → List (Role × LabelKind) → List (LabelPart α)
  | _, [] => []
  | cursor, (role, kind) :: rest =>
    let part : LabelPart α :=
      ⟨role.roleType, kind, cursor, dir, size, Coordinate.ofFloat role.ratio, role.color⟩
    part :: stack dir size ⟨cursor.x + part.slotWidth * dir.sign, cursor.y⟩ rest

/-- **The label of a pin at a pad.** -/
def Label.ofPin (registry : RoleRegistry) (pin : String) (roles : RoleMap) (pad : Shape α)
    (hidden : List String) : Label α :=
  let frame := pad.frame
  { pin
    padId := frame.id?.getD ""
    pos := frame.pos
    parts := stack (frame.labelDir?.getD .right) (frame.labelSize?.getD 1.0) frame.pos
      (labelKinds registry roles hidden) }

/-- The pad of a pin on a side: its shape by full id, or else by path. -/
def findPad? (side : Group α) (pads : Dict String) (pin : String) : Option (Shape α) :=
  (pads.get? pin).bind fun id => (side.findById? id).or (side.findByPath? id)

/-- **The labels of all pins with a pad on a side**, in the order of the pins. -/
def LabelSet.ofSide (registry : RoleRegistry) (side : Group α) (pads : Dict String)
    (pinout : Dict RoleMap) (hidden : List String) : LabelSet α :=
  let labels := pinout.filterMap fun (pin, roles) =>
    (findPad? side pads pin).map fun pad => Label.ofPin registry pin roles pad hidden
  ⟨labels, Bounds.unionAll? (labels.map Label.bounds)⟩

/-! ## Documents -/

/-- The document of a part. -/
def LabelPart.toJson (p : LabelPart Float) : Json :=
  let kind := match p.kind with
    | .block s => [("kind", Json.str "block"), ("text", .str s)]
    | .ioLine t => [("kind", .str "io_line"), ("io", .str t.name)]
  .obj ([("role_type", .str p.roleType.name)] ++ kind ++
    [("pos", p.pos.toJson), ("dir", .str p.dir.name), ("size", .float p.size),
      ("ratio", .float p.ratio), ("color", .str p.color)])

/-- The document of a label. -/
def Label.toJson (l : Label Float) : Json :=
  .obj [("pin", .str l.pin), ("pad_id", .str l.padId), ("pos", l.pos.toJson),
    ("parts", .arr (l.parts.map LabelPart.toJson))]

/-- The document of the labels of a side. -/
def LabelSet.toJson (s : LabelSet Float) : Json :=
  .obj [("labels", .arr (s.labels.map Label.toJson)),
    ("bounds", Json.option Bounds.toJson s.bounds?)]

end BoardAtlas
