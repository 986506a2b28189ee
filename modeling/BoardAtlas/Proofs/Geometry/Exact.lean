import BoardAtlas.Geometry.Bounds
import Mathlib.Algebra.Order.Ring.Rat
import Mathlib.Tactic.Abel

/-!
# Exact coordinates

Doubles round, so that laws of positions hold for coordinates that are computed exactly, as rational numbers are.

* `ExactCoordinate`: the laws of such coordinates;
* the vectors over them are a commutative group;
* `Bounds.union_translate`, **`Bounds.unionAll?_translate`**: a box around moved boxes;
* rational numbers: every finite double is one.
-/

namespace BoardAtlas

/-- Coordinates whose sums are exact: they are a commutative group in which adding the same to two coordinates keeps
the smaller and the larger of them, and the test for zero is one. -/
class ExactCoordinate (α : Type) [Coordinate α] : Prop where
  add_assoc : ∀ a b c : α, a + b + c = a + (b + c)
  add_comm : ∀ a b : α, a + b = b + a
  zero_add : ∀ a : α, 0 + a = a
  neg_add_cancel : ∀ a : α, -a + a = 0
  sub_eq_add_neg : ∀ a b : α, a - b = a + -b
  min_add_add : ∀ a b c : α, min (a + c) (b + c) = min a b + c
  max_add_add : ∀ a b c : α, max (a + c) (b + c) = max a b + c
  isZero_iff : ∀ a : α, Coordinate.isZero a = true ↔ a = 0

attribute [ext] Vec Bounds

variable {α : Type} [Coordinate α]

namespace Vec

instance : Zero (Vec α) := ⟨zero⟩

@[simp] theorem zero_x : (0 : Vec α).x = 0 := rfl
@[simp] theorem zero_y : (0 : Vec α).y = 0 := rfl

variable [ExactCoordinate α]

open ExactCoordinate in
instance : AddCommGroup (Vec α) where
  add_assoc u v w := Vec.ext (add_assoc u.x v.x w.x) (add_assoc u.y v.y w.y)
  zero_add v := Vec.ext (zero_add v.x) (zero_add v.y)
  add_zero v := Vec.ext ((add_comm v.x 0).trans (zero_add v.x)) ((add_comm v.y 0).trans (zero_add v.y))
  neg_add_cancel v := Vec.ext (neg_add_cancel v.x) (neg_add_cancel v.y)
  add_comm v w := Vec.ext (add_comm v.x w.x) (add_comm v.y w.y)
  sub_eq_add_neg v w := Vec.ext (sub_eq_add_neg v.x w.x) (sub_eq_add_neg v.y w.y)
  nsmul := nsmulRec
  zsmul := zsmulRec

theorem isZero_iff (v : Vec α) : v.isZero = true ↔ v = 0 := by
  rw [isZero, Bool.and_eq_true, ExactCoordinate.isZero_iff, ExactCoordinate.isZero_iff, Vec.ext_iff]
  rfl

end Vec

namespace Bounds

theorem translate_ofCorners (p q d : Vec α) :
    (ofCorners p q).translate d = ofCorners (p + d) (q + d) := rfl

variable [ExactCoordinate α]

open ExactCoordinate in
/-- The box around two moved boxes is the moved box around them. -/
theorem union_translate (a b : Bounds α) (d : Vec α) :
    (a.translate d).union (b.translate d) = (a.union b).translate d := by
  simp only [union, translate, min_add_add, max_add_add]

/-- **The box around moved boxes** is the moved box around them, if there is any. -/
theorem unionAll?_translate (boxes : List (Bounds α)) (d : Vec α) :
    unionAll? (boxes.map (·.translate d)) = (unionAll? boxes).map (·.translate d) := by
  cases boxes with
  | nil => rfl
  | cons b rest =>
    have hfold : rest.foldl (fun a c => a.union (c.translate d)) (b.translate d) =
        (rest.foldl union b).translate d :=
      List.foldl_hom (·.translate d) fun a c => union_translate a c d
    rw [List.map_cons, unionAll?, List.foldl_map, hfold]
    rfl

end Bounds

/-! ## Rational numbers -/

/-- The value of the parts of a double. -/
def Binary64.Parts.toRat (p : Parts) : ℚ := p.signed * (2 : ℚ) ^ p.exponent

/-- Rational numbers; infinities and NaN, which are no numbers, count as zero. -/
instance : Coordinate ℚ where
  ofFloat x := ((Binary64.parts? x).map Binary64.Parts.toRat).getD 0
  isZero a := decide (a = 0)

instance : ExactCoordinate ℚ where
  add_assoc := Rat.add_assoc
  add_comm := Rat.add_comm
  zero_add := Rat.zero_add
  neg_add_cancel := Rat.neg_add_cancel
  sub_eq_add_neg := Rat.sub_eq_add_neg
  min_add_add := min_add_add_right
  max_add_add := max_add_add_right
  isZero_iff _ := decide_eq_true_iff

end BoardAtlas
