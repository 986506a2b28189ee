import Mathlib.Algebra.Order.BigOperators.Group.List
import Mathlib.Algebra.Order.Group.MinMax
import Mathlib.Tactic.NormNum
import Mathlib.Tactic.Ring
import BoardAtlas.Proofs.Geometry.Exact
import BoardAtlas.Shape.Label

/-!
# Slots of labels

With exact coordinates the parts of a label fill slots side by side, without gaps and without overlaps. A slot runs from
the position of its part into the direction of the label, so that to the left it ends where its coordinates begin.
A label to the left is a label to the right that is seen in a mirror.

* `LabelPart.slotStart`, `LabelPart.slotStop`, `Bounds.near`, `Bounds.far`: ends of slots and of boxes;
* `LabelPart.Framed`, `LabelPart.framed`: a box inside its slot;
* `Abutting`, `Abutting.cons`, **`abutting_stack`**: slots side by side, part by part;
* `Abutting.slotStart_eq`, `Abutting.extent`, `Abutting.ahead_iff`: where a slot begins, and to which side it extends;
* `LabelPart.mirror`, `LabelPart.bounds_mirror`, `stack_mirror`, `Label.bounds_mirror`: mirror images;
* **`Label.slots_ofPin`**: the slots of a label, and its mirror image.
-/

namespace BoardAtlas

theorem sign_left : (LabelDir.left.sign : ℚ) = -1 := by norm_num [LabelDir.sign]

theorem sign_right : (LabelDir.right.sign : ℚ) = 1 := by norm_num [LabelDir.sign]

theorem sign_mul_sign (dir : LabelDir) : (dir.sign * dir.sign : ℚ) = 1 := by
  cases dir
  · rw [sign_left]
    norm_num
  · rw [sign_right]
    norm_num

/-! ## Slots and boxes -/

namespace Bounds

variable {α : Type}

/-- The end of a box at which a label that grows to a side comes in. -/
def near (b : Bounds α) : LabelDir → α
  | .left => b.x2
  | .right => b.x1

/-- The end of a box at which a label that grows to a side goes out. -/
def far (b : Bounds α) : LabelDir → α
  | .left => b.x1
  | .right => b.x2

end Bounds

namespace LabelPart

/-- Where the slot of a part begins. -/
def slotStart (p : LabelPart ℚ) : ℚ := p.pos.x

/-- Where the slot of a part ends: by its width further into the direction of the label. -/
def slotStop (p : LabelPart ℚ) : ℚ := p.slotStart + p.slotWidth * p.dir.sign

/-- A box that is the slot of its part less the padding at both ends, with one half above the line of the label and one
half below it. -/
structure Framed (p : LabelPart ℚ) : Prop where
  near : p.bounds.near p.dir = p.slotStart + p.padding.x * p.dir.sign
  far : p.bounds.far p.dir = p.slotStop - p.padding.x * p.dir.sign
  above : p.bounds.y1 = p.pos.y - p.height / 2
  below : p.bounds.y2 = p.pos.y + p.height / 2

theorem x1_bounds (p : LabelPart ℚ) :
    p.bounds.x1 = p.pos.x + p.slotWidth / 2 * (p.dir.sign - 1) + p.padding.x := by
  norm_num [bounds]

theorem x2_bounds (p : LabelPart ℚ) :
    p.bounds.x2 = p.pos.x + p.slotWidth / 2 * (p.dir.sign + 1) - p.padding.x := by
  have hwidth : p.bounds.x2 = p.bounds.x1 + p.width := rfl
  have hpadding : p.width = p.slotWidth - p.padding.x * 2 := by norm_num [width]
  rw [hwidth, hpadding, x1_bounds]
  ring

/-- **A box is its slot less the padding**, to whichever side the label grows. -/
theorem framed (p : LabelPart ℚ) : p.Framed := by
  have habove : p.bounds.y1 = p.pos.y - p.height / 2 := by norm_num [bounds]
  have hheight : p.bounds.y2 = p.bounds.y1 + p.height := rfl
  refine ⟨?near, ?far, habove, ?below⟩
  case below =>
    rw [hheight, habove]
    ring
  -- The term with the sign vanishes at the near end and shifts by a whole slot at the far end.
  case near =>
    cases hdir : p.dir
    · rw [Bounds.near, x2_bounds, slotStart, hdir, sign_left]
      ring
    · rw [Bounds.near, x1_bounds, slotStart, hdir, sign_right]
      ring
  case far =>
    cases hdir : p.dir
    · rw [Bounds.far, x1_bounds, slotStop, slotStart, hdir, sign_left]
      ring
    · rw [Bounds.far, x2_bounds, slotStop, slotStart, hdir, sign_right]
      ring

end LabelPart

/-! ## Slots side by side -/

/-- Parts of one direction whose slots lie side by side from an anchor on. -/
structure Abutting (anchor : Vec ℚ) (dir : LabelDir) (parts : List (LabelPart ℚ)) : Prop where
  /-- The first slot begins at the anchor. -/
  first : ∀ p, parts[0]? = some p → p.slotStart = anchor.x
  /-- Every other slot begins where the one before it ends. -/
  next : ∀ k p q, parts[k]? = some p → parts[k + 1]? = some q → q.slotStart = p.slotStop
  /-- Every part says the direction. -/
  dir : ∀ p ∈ parts, p.dir = dir
  /-- Every part lies on the line through the anchor. -/
  level : ∀ p ∈ parts, p.pos.y = anchor.y

namespace Abutting

variable {anchor : Vec ℚ} {dir : LabelDir} {p : LabelPart ℚ} {parts : List (LabelPart ℚ)}

theorem nil : Abutting anchor dir [] where
  first _ h := by cases h
  next _ _ _ h := by cases h
  dir _ h := by cases h
  level _ h := by cases h

theorem cons (hp : p.pos = anchor) (hdir : p.dir = dir) (h : Abutting ⟨p.slotStop, anchor.y⟩ dir parts) :
    Abutting anchor dir (p :: parts) where
  first q hq := by
    obtain rfl : p = q := Option.some.inj hq
    rw [LabelPart.slotStart, hp]
  next k q r hq hr := by
    cases k with
    | zero =>
      obtain rfl : p = q := Option.some.inj hq
      exact h.first r hr
    | succ k => exact h.next k q r hq hr
  dir := List.forall_mem_cons.2 ⟨hdir, h.dir⟩
  level := List.forall_mem_cons.2 ⟨by rw [hp], h.level⟩

/-- **A slot begins behind the widths of all slots before it.** -/
theorem slotStart_eq (h : Abutting anchor dir parts) {k : Nat} (hk : parts[k]? = some p) :
    p.slotStart = anchor.x + ((parts.take k).map LabelPart.slotWidth).sum * dir.sign := by
  induction k generalizing p with
  | zero =>
    rw [h.first p hk]
    simp
  | succ k ih =>
    have hlt : k < parts.length := Nat.lt_of_succ_lt (List.getElem?_eq_some_iff.1 hk).1
    have hprev : parts[k]? = some parts[k] := List.getElem?_eq_getElem hlt
    have hsum : ((parts.take (k + 1)).map LabelPart.slotWidth).sum =
        ((parts.take k).map LabelPart.slotWidth).sum + parts[k].slotWidth := by
      rw [List.take_succ_eq_append_getElem hlt, List.map_append, List.sum_append, List.map_singleton,
        List.sum_singleton]
    rw [h.next k _ p hprev hk, LabelPart.slotStop, ih hprev, h.dir _ (List.getElem_mem hlt), hsum]
    ring

/-- A slot takes its width into the direction, and a negative width against it. -/
theorem extent (h : Abutting anchor dir parts) (hp : p ∈ parts) :
    (p.slotStop - p.slotStart) * dir.sign = p.slotWidth := by
  rw [LabelPart.slotStop, h.dir p hp, add_sub_cancel_left, mul_assoc, sign_mul_sign, mul_one]

/-- The slots lie on that side of the anchor to which the label grows, and extend to it, exactly where no width is
negative. -/
theorem ahead_iff (h : Abutting anchor dir parts) :
    (∀ p ∈ parts, 0 ≤ (p.slotStart - anchor.x) * dir.sign ∧ 0 ≤ (p.slotStop - p.slotStart) * dir.sign) ↔
      ∀ p ∈ parts, 0 ≤ p.slotWidth := by
  constructor
  · intro hahead p hp
    rw [← h.extent hp]
    exact (hahead p hp).2
  · intro hwidth p hp
    obtain ⟨k, hk⟩ := List.mem_iff_getElem?.1 hp
    have hsum : 0 ≤ ((parts.take k).map LabelPart.slotWidth).sum :=
      List.sum_nonneg (List.forall_mem_map.2 fun q hq => hwidth q (List.mem_of_mem_take hq))
    constructor
    · rw [h.slotStart_eq hk, add_sub_cancel_left, mul_assoc, sign_mul_sign, mul_one]
      exact hsum
    · rw [h.extent hp]
      exact hwidth p hp

end Abutting

/-- **The parts of a stack lie side by side.** -/
theorem abutting_stack (dir : LabelDir) (size : ℚ) (cursor : Vec ℚ) (kinds : List (Role × LabelKind)) :
    Abutting cursor dir (stack dir size cursor kinds) := by
  induction kinds generalizing cursor with
  | nil => exact .nil
  | cons x rest ih =>
    obtain ⟨role, kind⟩ := x
    exact .cons rfl rfl (ih _)

theorem map_stack (dir : LabelDir) (size : ℚ) (cursor : Vec ℚ) (kinds : List (Role × LabelKind)) :
    (stack dir size cursor kinds).map (fun p => (p.roleType, p.kind, p.slotWidth)) =
      kinds.map fun (role, kind) => (role.roleType, kind, size * Coordinate.ofFloat role.ratio) := by
  induction kinds generalizing cursor with
  | nil => rfl
  | cons x rest ih =>
    obtain ⟨role, kind⟩ := x
    rw [stack, List.map_cons, List.map_cons, ih]
    rfl

/-! ## Mirror images -/

/-- The other side. -/
def LabelDir.opposite : LabelDir → LabelDir
  | .left => .right
  | .right => .left

/-- The point at the other side of a vertical line. -/
def Vec.mirror (a : ℚ) (v : Vec ℚ) : Vec ℚ := ⟨2 * a - v.x, v.y⟩

theorem Vec.mirror_self (v : Vec ℚ) : v.mirror v.x = v := by
  rw [mirror, two_mul, add_sub_cancel_right]

namespace Bounds

/-- The box at the other side of a vertical line. -/
def mirror (a : ℚ) (b : Bounds ℚ) : Bounds ℚ := ⟨2 * a - b.x2, b.y1, 2 * a - b.x1, b.y2⟩

variable (a : ℚ)

theorem union_mirror (b c : Bounds ℚ) : (b.mirror a).union (c.mirror a) = (b.union c).mirror a := by
  simp only [union, mirror, Bounds.mk.injEq, true_and, and_true]
  exact ⟨min_sub_sub_left _ _ _, max_sub_sub_left _ _ _⟩

theorem unionAll?_mirror (boxes : List (Bounds ℚ)) :
    unionAll? (boxes.map (mirror a)) = (unionAll? boxes).map (mirror a) := by
  cases boxes with
  | nil => rfl
  | cons b rest =>
    have hfold : rest.foldl (fun c d => c.union (d.mirror a)) (b.mirror a) = (rest.foldl union b).mirror a :=
      List.foldl_hom (mirror a) fun c d => union_mirror a c d
    rw [List.map_cons, unionAll?, List.foldl_map, hfold]
    rfl

end Bounds

/-- The part at the other side of a vertical line, which grows to the other side. -/
def LabelPart.mirror (a : ℚ) (p : LabelPart ℚ) : LabelPart ℚ := { p with pos := p.pos.mirror a, dir := p.dir.opposite }

/-- The label at the other side of a vertical line. -/
def Label.mirror (a : ℚ) (l : Label ℚ) : Label ℚ :=
  { l with pos := l.pos.mirror a, parts := l.parts.map (LabelPart.mirror a) }

/-- **The box of a mirrored part** is the mirrored box. -/
theorem LabelPart.bounds_mirror (a : ℚ) (p : LabelPart ℚ) : (p.mirror a).bounds = p.bounds.mirror a := by
  have hsign : (p.dir.opposite.sign : ℚ) = -p.dir.sign := by
    cases p.dir
    · rw [LabelDir.opposite, sign_left, sign_right, neg_neg]
    · rw [LabelDir.opposite, sign_left, sign_right]
  have hx1 : (p.mirror a).bounds.x1 =
      2 * a - p.pos.x + p.slotWidth / 2 * (p.dir.opposite.sign - 1) + p.padding.x := x1_bounds _
  have hx2 : (p.mirror a).bounds.x2 =
      2 * a - p.pos.x + p.slotWidth / 2 * (p.dir.opposite.sign + 1) - p.padding.x := x2_bounds _
  refine Bounds.ext ?_ rfl ?_ rfl
  · rw [hx1, Bounds.mirror, x2_bounds, hsign]
    ring
  · rw [hx2, Bounds.mirror, x1_bounds, hsign]
    ring

theorem Label.bounds_mirror (a : ℚ) (l : Label ℚ) : (l.mirror a).bounds = l.bounds.mirror a := by
  have hboxes : (l.parts.map (LabelPart.mirror a)).map LabelPart.bounds =
      (l.parts.map LabelPart.bounds).map (Bounds.mirror a) := by
    rw [List.map_map, List.map_map]
    exact List.map_congr_left fun p _ => p.bounds_mirror a
  rw [bounds, mirror, hboxes, Bounds.unionAll?_mirror, bounds]
  cases Bounds.unionAll? (l.parts.map LabelPart.bounds) <;> rfl

/-- A stack to the left, mirrored at any vertical line, is one to the right from the mirrored position. -/
theorem stack_mirror (a size : ℚ) (cursor : Vec ℚ) (kinds : List (Role × LabelKind)) :
    stack .left size (cursor.mirror a) kinds = (stack .right size cursor kinds).map (LabelPart.mirror a) := by
  induction kinds generalizing cursor with
  | nil => rfl
  | cons x rest ih =>
    obtain ⟨role, kind⟩ := x
    have hcursor (w : ℚ) : 2 * a - cursor.x + w * (LabelDir.left.sign : ℚ) =
        2 * a - (cursor.x + w * (LabelDir.right.sign : ℚ)) := by
      rw [sign_left, sign_right]
      ring
    rw [stack, stack, List.map_cons, ← ih]
    simp only [Vec.mirror, LabelPart.slotWidth, hcursor]
    rfl

/-! ## Labels of pads -/

/-- A shape whose labels grow to a side. -/
def Shape.facing {α : Type} (dir : LabelDir) : Shape α → Shape α
  | rect f size rx ry fill stroke => rect { f with labelDir? := some dir } size rx ry fill stroke
  | circle f r fill stroke => circle { f with labelDir? := some dir } r fill stroke
  | text f s size fill => text { f with labelDir? := some dir } s size fill
  | group f name count vars children => group { f with labelDir? := some dir } name count vars children

theorem Shape.frame_facing {α : Type} (dir : LabelDir) (t : Shape α) :
    (t.facing dir).frame = { t.frame with labelDir? := some dir } := by
  cases t <;> rfl

namespace Label

/-- **Label stacks are gapless and symmetric.** The slots of a label lie side by side from the anchor of the pad on,
each box inside its slot. They extend into the direction that the pad says exactly where no width is negative, which
nothing forbids. To the left a label is the mirror image of the one to the right. -/
theorem slots_ofPin (registry : RoleRegistry) (pin : String) (roles : RoleMap) (pad : Shape ℚ)
    (hidden : List String) :
    let parts := (ofPin registry pin roles pad hidden).parts
    let dir := pad.frame.labelDir?.getD .right
    let left := ofPin registry pin roles (pad.facing .left) hidden
    let right := ofPin registry pin roles (pad.facing .right) hidden
    (parts.map (fun p => (p.roleType, p.kind, p.slotWidth)) =
        (labelKinds registry roles hidden).map fun (role, kind) =>
          (role.roleType, kind, pad.frame.labelSize?.getD 1 * Coordinate.ofFloat role.ratio)) ∧
      Abutting pad.pos dir parts ∧
      (∀ k p, parts[k]? = some p →
        p.slotStart = pad.pos.x + ((parts.take k).map LabelPart.slotWidth).sum * dir.sign) ∧
      (∀ p ∈ parts, (p.slotStop - p.slotStart) * dir.sign = p.slotWidth) ∧
      ((∀ p ∈ parts,
          0 ≤ (p.slotStart - pad.pos.x) * dir.sign ∧ 0 ≤ (p.slotStop - p.slotStart) * dir.sign) ↔
        ∀ p ∈ parts, 0 ≤ p.slotWidth) ∧
      (∀ p ∈ parts, p.Framed) ∧
      left = right.mirror pad.pos.x ∧
      left.parts.map LabelPart.bounds = right.parts.map (fun p => p.bounds.mirror pad.pos.x) ∧
      left.bounds = right.bounds.mirror pad.pos.x := by
  intro parts dir left right
  have habutting : Abutting pad.pos dir parts := abutting_stack _ _ _ _
  have hone : (1.0 : ℚ) = 1 := by norm_num
  have hmirror : left = right.mirror pad.pos.x := by
    have hstack := stack_mirror pad.pos.x (pad.frame.labelSize?.getD 1.0) pad.pos (labelKinds registry roles hidden)
    rw [Vec.mirror_self] at hstack
    simp only [left, right, ofPin, mirror, Shape.frame_facing, Option.getD_some]
    rw [← Shape.pos, hstack, Vec.mirror_self]
  refine ⟨?kinds, habutting, fun k p => habutting.slotStart_eq, fun p => habutting.extent,
    habutting.ahead_iff, fun p _ => p.framed, hmirror, ?boxes, ?box⟩
  case kinds =>
    rw [← hone]
    exact map_stack _ _ _ _
  case boxes =>
    rw [hmirror, mirror, List.map_map]
    exact List.map_congr_left fun p _ => p.bounds_mirror _
  case box => rw [hmirror, bounds_mirror]

/-- Three registered roles of different widths. -/
def portRoles : RoleRegistry :=
  ((RoleRegistry.empty.insert ⟨.io, "IO", "black", 1.0, .verbatim⟩).insert
    ⟨.gpio, "GPIO", "green", 2.0, .verbatim⟩).insert ⟨.uart, "UART", "blue", 1.5, .indexSwap⟩

/-- A pin with a strip and two blocks. -/
def portPin : RoleMap :=
  ((RoleMap.empty.insert .io (.text "IO")).insert .gpio (.text "PA_1")).insert .uart (.text "1_TX")

/-- A pad whose labels grow to the left. -/
def portPad : Shape ℚ :=
  .rect { pos := ⟨10, 5⟩, labelDir? := some .left, labelSize? := some 2 } ⟨1, 1⟩ none none none none

theorem slots_ofPin_portPad :
    (∀ p ∈ (ofPin portRoles "P1" portPin portPad []).parts, 0 ≤ p.slotWidth) ∧
      ∃ p : LabelPart ℚ, (ofPin portRoles "P1" portPin portPad []).parts[2]? = some p ∧
        p.slotStart = 10 + (2 + 4) * -1 ∧ 0 ≤ (p.slotStop - p.slotStart) * -1 ∧
        p.bounds.x2 = p.slotStart + p.padding.x * -1 ∧ p.bounds.x1 = p.slotStop - p.padding.x * -1 := by
  obtain ⟨-, habutting, hstart, -, hahead, hframed, -⟩ := slots_ofPin portRoles "P1" portPin portPad []
  have hwidths : (ofPin portRoles "P1" portPin portPad []).parts.map LabelPart.slotWidth = [2, 4, 3] := by
    decide +kernel
  have hwidth : ∀ p ∈ (ofPin portRoles "P1" portPin portPad []).parts, 0 ≤ p.slotWidth := by
    refine List.forall_mem_map.1 ?_
    rw [hwidths]
    decide
  obtain ⟨p, hp⟩ : ∃ p, (ofPin portRoles "P1" portPin portPad []).parts[2]? = some p := ⟨_, rfl⟩
  have hmem : p ∈ (ofPin portRoles "P1" portPin portPad []).parts := List.mem_of_getElem? hp
  have hdir : p.dir = .left := habutting.dir p hmem
  have hframed := hframed p hmem
  refine ⟨hwidth, p, hp, ?_, ?_, ?_, ?_⟩
  · rw [hstart 2 p hp, List.map_take, hwidths]
    decide +kernel
  · rw [← sign_left]
    exact (hahead.2 hwidth p hmem).2
  · rw [← sign_left, ← hdir, ← hframed.near, hdir, Bounds.near]
  · rw [← sign_left, ← hdir, ← hframed.far, hdir, Bounds.far]

/-- A pad whose labels grow to the right, with a negative size. -/
def inversePad : Shape ℚ :=
  .rect { pos := ⟨10, 5⟩, labelDir? := some .right, labelSize? := some (-2) } ⟨1, 1⟩ none none none none

/-- A label of negative size grows to the left of a pad that says right. -/
theorem slotEnds_inversePad :
    (ofPin portRoles "P1" portPin inversePad []).parts.map (fun p => (p.dir, p.slotStart, p.slotStop)) =
      [(.right, 10, 8), (.right, 8, 4), (.right, 4, 1)] := by
  decide +kernel

end Label

end BoardAtlas
