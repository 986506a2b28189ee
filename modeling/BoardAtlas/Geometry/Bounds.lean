import BoardAtlas.Geometry.Vec

/-!
# Boxes

A box with sides along the axes, given by two opposite corners.

* `Bounds`, `Bounds.point`, `Bounds.ofCorners`, `Bounds.translate`: boxes;
* `Bounds.union`, `Bounds.unionAll?`: the smallest box around boxes;
* `Bounds.width`, `Bounds.height`, `Bounds.size`, `Bounds.center`: measures.
-/

namespace BoardAtlas

/-- The box between the corners `(x1, y1)` and `(x2, y2)`. -/
structure Bounds (α : Type) where
  x1 : α
  y1 : α
  x2 : α
  y2 : α
  deriving DecidableEq, Repr

namespace Bounds

variable {α : Type} [Coordinate α]

/-- The box of a single point. -/
def point (p : Vec α) : Bounds α := ⟨p.x, p.y, p.x, p.y⟩

/-- The box between two corners. -/
def ofCorners (p q : Vec α) : Bounds α := ⟨p.x, p.y, q.x, q.y⟩

/-- The smallest box around two boxes. -/
def union (a b : Bounds α) : Bounds α :=
  ⟨min a.x1 b.x1, min a.y1 b.y1, max a.x2 b.x2, max a.y2 b.y2⟩

/-- The smallest box around all boxes; there is none around no box. -/
def unionAll? : List (Bounds α) → Option (Bounds α)
  | [] => none
  | b :: rest => some (rest.foldl union b)

/-- The first corner. -/
def first (b : Bounds α) : Vec α := ⟨b.x1, b.y1⟩

/-- The second corner. -/
def second (b : Bounds α) : Vec α := ⟨b.x2, b.y2⟩

/-- The extent to the right. -/
def width (b : Bounds α) : α := b.x2 - b.x1

/-- The extent downwards. -/
def height (b : Bounds α) : α := b.y2 - b.y1

/-- Both extents. -/
def size (b : Bounds α) : Vec α := ⟨b.width, b.height⟩

/-- The point in the middle. -/
def center (b : Bounds α) : Vec α := b.first + b.size.times 0.5

/-- The box moved by a vector. -/
def translate (b : Bounds α) (d : Vec α) : Bounds α :=
  ⟨b.x1 + d.x, b.y1 + d.y, b.x2 + d.x, b.y2 + d.y⟩

/-- The document of a box: its four coordinates. -/
def toJson (b : Bounds Float) : Json :=
  .obj [("x1", .float b.x1), ("y1", .float b.y1), ("x2", .float b.x2), ("y2", .float b.y2)]

end Bounds

end BoardAtlas
