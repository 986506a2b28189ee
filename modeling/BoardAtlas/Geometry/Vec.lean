import BoardAtlas.Number.Elementary
import BoardAtlas.Json.Tree

/-!
# Vectors

Positions and boxes are computed over any kind of coordinate, doubles when the program runs.

* `Coordinate`: what a coordinate must offer;
* `Vec`, `Vec.add`, `Vec.sub`, `Vec.neg`, `Vec.times`, `Vec.scale`: vectors of the plane;
* `Vec.length`: the length of a vector of doubles.
-/

namespace BoardAtlas

/-- The arithmetic that positions need. -/
class Coordinate (α : Type) extends
    Zero α, Add α, Sub α, Neg α, Mul α, Div α, Min α, Max α, OfScientific α where
  /-- The coordinate that a double stands for. -/
  ofFloat : Float → α
  /-- Whether a coordinate is zero. -/
  isZero : α → Bool

/-- Doubles; the smaller and the larger of two ignore a NaN beside a number. -/
instance : Coordinate Float where
  zero := 0
  min := Binary64.smaller
  max := Binary64.larger
  ofFloat x := x
  isZero x := x == 0

/-- A vector of the plane. -/
structure Vec (α : Type) where
  x : α
  y : α
  deriving DecidableEq, Repr

namespace Vec

variable {α : Type} [Coordinate α]

/-- The vector whose coordinates are all zero. -/
def zero : Vec α := ⟨0, 0⟩

/-- The sum of two vectors. -/
def add (v w : Vec α) : Vec α := ⟨v.x + w.x, v.y + w.y⟩

/-- The difference of two vectors. -/
def sub (v w : Vec α) : Vec α := ⟨v.x - w.x, v.y - w.y⟩

/-- The opposite vector. -/
def neg (v : Vec α) : Vec α := ⟨-v.x, -v.y⟩

/-- A vector times a number. -/
def times (v : Vec α) (k : α) : Vec α := ⟨v.x * k, v.y * k⟩

/-- The product coordinate by coordinate. -/
def scale (v w : Vec α) : Vec α := ⟨v.x * w.x, v.y * w.y⟩

/-- Both coordinates are zero. -/
def isZero (v : Vec α) : Bool := Coordinate.isZero v.x && Coordinate.isZero v.y

instance : Add (Vec α) := ⟨add⟩
instance : Sub (Vec α) := ⟨sub⟩
instance : Neg (Vec α) := ⟨neg⟩

/-- The vector of a pair of doubles. -/
def ofFloats (p : Float × Float) : Vec α := ⟨Coordinate.ofFloat p.1, Coordinate.ofFloat p.2⟩

/-- The length of a vector. -/
def length (v : Vec Float) : Float := Binary64.hypotenuse v.x v.y

/-- The document of a vector. -/
def toJson (v : Vec Float) : Json := .obj [("x", .float v.x), ("y", .float v.y)]

end Vec

end BoardAtlas
