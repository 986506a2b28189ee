import BoardAtlas.Proofs.Geometry.Exact
import BoardAtlas.Shape.Tree

/-!
# Moved trees

Moving a tree adds one vector to the anchor of every node and changes nothing else. With exact coordinates moves add
up, and the box of a tree moves with it.

* `Shape.children`, `Shape.treeInduction`, `Shape.at?`: the nodes of a tree;
* `Shape.findById?_eq`: look-ups by id, one node after another;
* `Shape.unplaced`, `Shape.unplaced_moveBy`, `Shape.at?_moveBy`: all of a tree but its anchors, and its nodes;
* `Shape.findById?_moveBy`, `Shape.findByPath?_moveBy`: look-ups in moved trees;
* `Shape.moveBy_moveBy`, `Shape.moveBy_zero`, **`Shape.bounds_moveBy`**: exact moves;
* **`Shape.moveBy_rigid`**: what a move does to a tree.
-/

namespace BoardAtlas

variable {α : Type}

/-! ## Nodes of a tree -/

namespace Shape

/-- The shapes right inside a shape. -/
def children : Shape α → List (Shape α)
  | group _ _ _ _ children => children
  | _ => []

mutual

/-- What holds of a shape once it holds of the shapes right inside holds of all shapes. -/
theorem treeInduction {P : Shape α → Prop} (node : ∀ t : Shape α, (∀ s ∈ t.children, P s) → P t) : ∀ t, P t
  | rect .. | circle .. | text .. => node _ fun _ h => nomatch h
  | group _ _ _ _ children => node _ (forall_mem_of_node node children)

theorem forall_mem_of_node {P : Shape α → Prop} (node : ∀ t : Shape α, (∀ s ∈ t.children, P s) → P t) :
    ∀ shapes : List (Shape α), ∀ s ∈ shapes, P s
  | [] => fun _ h => nomatch h
  | s :: rest => List.forall_mem_cons.2 ⟨treeInduction node s, forall_mem_of_node node rest⟩

end

/-- The node at an address: which child to go to, level by level. -/
def at? (t : Shape α) : List Nat → Option (Shape α)
  | [] => some t
  | k :: rest => t.children[k]?.bind fun s => s.at? rest

@[simp] theorem at?_nil (t : Shape α) : t.at? [] = some t := rfl

@[simp] theorem at?_cons (t : Shape α) (k : Nat) (rest : List Nat) :
    t.at? (k :: rest) = t.children[k]?.bind fun s => s.at? rest := rfl

theorem findAmong?_eq (id : String) (shapes : List (Shape α)) :
    findAmong? id shapes = shapes.findSome? (findById? id) := by
  induction shapes with
  | nil => rfl
  | cons s rest ih =>
    rw [findAmong?, ih, List.findSome?_cons]
    cases findById? id s <;> rfl

/-- A look-up by id finds the shape itself or what is found first inside. -/
theorem findById?_eq (id : String) (t : Shape α) :
    findById? id t = if t.id? = some id then some t else t.children.findSome? (findById? id) := by
  cases t with
  | group f name count vars children =>
    rw [findById?, findAmong?_eq]
    rfl
  | _ => rfl

end Shape

/-! ## What a move changes -/

variable [Coordinate α]

/-- A frame with its anchor at the origin. -/
def Frame.unplaced (f : Frame α) : Frame α := { f with pos := 0 }

namespace Shape

mutual

/-- A tree with all its anchors at the origin, so that nothing is left of them. -/
def unplaced : Shape α → Shape α
  | rect f size rx ry fill stroke => rect f.unplaced size rx ry fill stroke
  | circle f r fill stroke => circle f.unplaced r fill stroke
  | text f s size fill => text f.unplaced s size fill
  | group f name count vars children => group f.unplaced name count vars (unplacedAll children)

/-- Trees with all their anchors at the origin. -/
def unplacedAll : List (Shape α) → List (Shape α)
  | [] => []
  | s :: rest => unplaced s :: unplacedAll rest

end

theorem unplacedAll_eq_map (shapes : List (Shape α)) : unplacedAll shapes = shapes.map unplaced := by
  induction shapes with
  | nil => rfl
  | cons s rest ih => rw [unplacedAll, List.map_cons, ih]

theorem boundsOf_eq_map (shapes : List (Shape α)) : boundsOf shapes = shapes.map bounds := by
  induction shapes with
  | nil => rfl
  | cons s rest ih => rw [boundsOf, List.map_cons, ih]

variable (d : Vec α)

theorem moveAll_eq_map (shapes : List (Shape α)) : moveAll d shapes = shapes.map (moveBy d) := by
  induction shapes with
  | nil => rfl
  | cons s rest ih => rw [moveAll, List.map_cons, ih]

@[simp] theorem frame_moveBy (t : Shape α) : (t.moveBy d).frame = t.frame.moveBy d := by
  cases t <;> rfl

theorem id?_moveBy (t : Shape α) : (t.moveBy d).id? = t.id? := by
  rw [Shape.id?, frame_moveBy]
  rfl

theorem children_moveBy (t : Shape α) : (t.moveBy d).children = t.children.map (moveBy d) := by
  cases t with
  | group f name count vars children => exact moveAll_eq_map d children
  | _ => rfl

/-- **Every node of a moved tree** is the moved node of the tree. -/
theorem at?_moveBy (t : Shape α) (address : List Nat) :
    (t.moveBy d).at? address = (t.at? address).map (moveBy d) := by
  induction address generalizing t with
  | nil => rfl
  | cons k rest ih =>
    rw [at?_cons, at?_cons, children_moveBy, List.getElem?_map]
    cases t.children[k]? with
    | none => rfl
    | some s => exact ih s

theorem unplaced_moveBy (t : Shape α) : (t.moveBy d).unplaced = t.unplaced := by
  induction t using treeInduction with
  | node t ih =>
    cases t with
    | group f name count vars children =>
      have hchildren : unplacedAll (moveAll d children) = unplacedAll children := by
        rw [moveAll_eq_map, unplacedAll_eq_map, unplacedAll_eq_map, List.map_map]
        exact List.map_congr_left ih
      exact congrArg (group f.unplaced name count vars) hchildren
    | _ => rfl

/-! ## Look-ups in a moved tree -/

theorem findSome?_moveBy (id : String) {shapes : List (Shape α)}
    (h : ∀ s ∈ shapes, findById? id (s.moveBy d) = (findById? id s).map (moveBy d)) :
    (shapes.map (moveBy d)).findSome? (findById? id) = (shapes.findSome? (findById? id)).map (moveBy d) := by
  induction shapes with
  | nil => rfl
  | cons s rest ih =>
    obtain ⟨hs, hrest⟩ := List.forall_mem_cons.1 h
    rw [List.map_cons, List.findSome?_cons, List.findSome?_cons, hs, ih hrest]
    cases findById? id s <;> rfl

theorem findById?_moveBy (id : String) (t : Shape α) :
    findById? id (t.moveBy d) = (findById? id t).map (moveBy d) := by
  induction t using treeInduction with
  | node t ih =>
    rw [findById?_eq, findById?_eq, id?_moveBy, children_moveBy]
    split
    · rfl
    · exact findSome?_moveBy d id ih

theorem findBelow?_moveAll (names : List String) (shapes : List (Shape α)) :
    findBelow? names (moveAll d shapes) = (findBelow? names shapes).map (moveBy d) := by
  induction names generalizing shapes with
  | nil => rfl
  | cons head rest ih =>
    have hbase : (fun s : Shape α => s.frame.baseId? == some head) ∘ moveBy d =
        fun s => s.frame.baseId? == some head := by
      funext s
      rw [Function.comp_apply, frame_moveBy]
      rfl
    rw [findBelow?, findBelow?, moveAll_eq_map, List.find?_map, hbase]
    cases shapes.find? fun s => s.frame.baseId? == some head with
    | none => rfl
    | some s =>
      dsimp only [Option.map_some]
      split
      · rfl
      · cases s with
        | group f name count vars children => exact ih children
        | _ => rfl

theorem findByPath?_moveBy (path : String) (t : Shape α) :
    findByPath? path (t.moveBy d) = (findByPath? path t).map (moveBy d) := by
  cases t with
  | group f name count vars children => exact findBelow?_moveAll d _ children
  | _ => rfl

end Shape

/-! ## Exact moves -/

variable [ExactCoordinate α] (d e : Vec α)

theorem Frame.moveBy_moveBy (f : Frame α) : (f.moveBy d).moveBy e = f.moveBy (d + e) := by
  simp only [Frame.moveBy, add_assoc]

theorem Frame.moveBy_zero (f : Frame α) : f.moveBy 0 = f := by
  simp only [Frame.moveBy, add_zero]

namespace Shape

theorem moveBy_moveBy (t : Shape α) : (t.moveBy d).moveBy e = t.moveBy (d + e) := by
  induction t using treeInduction with
  | node t ih =>
    cases t with
    | group f name count vars children =>
      have hchildren : moveAll e (moveAll d children) = moveAll (d + e) children := by
        rw [moveAll_eq_map, moveAll_eq_map, moveAll_eq_map, List.map_map]
        exact List.map_congr_left ih
      simp only [moveBy, Frame.moveBy_moveBy, hchildren]
    | _ => simp only [moveBy, Frame.moveBy_moveBy]

theorem moveBy_zero (t : Shape α) : t.moveBy 0 = t := by
  induction t using treeInduction with
  | node t ih =>
    cases t with
    | group f name count vars children =>
      have hchildren : moveAll 0 children = children := by
        rw [moveAll_eq_map]
        exact (List.map_congr_left ih).trans (List.map_id' children)
      simp only [moveBy, Frame.moveBy_zero, hchildren]
    | _ => simp only [moveBy, Frame.moveBy_zero]

theorem moveBy_moveBy_neg (t : Shape α) : (t.moveBy d).moveBy (-d) = t := by
  rw [moveBy_moveBy, add_neg_cancel, moveBy_zero]

/-- **The box of a moved tree** is its box moved by the same vector. -/
theorem bounds_moveBy (t : Shape α) : (t.moveBy d).bounds = t.bounds.translate d := by
  have hafter (p v : Vec α) : p + d + v = p + v + d := by abel
  have hbefore (p v : Vec α) : p + d - v = p - v + d := by abel
  induction t using treeInduction with
  | node t ih =>
    cases t with
    | rect f size rx ry fill stroke =>
      simp only [moveBy, bounds, Frame.moveBy, Bounds.translate_ofCorners, hafter]
    | circle f r fill stroke =>
      simp only [moveBy, bounds, Frame.moveBy, Bounds.translate_ofCorners, hafter, hbefore]
    | text f s size fill =>
      simp only [moveBy, bounds, Frame.moveBy, Bounds.translate_ofCorners, hafter, hbefore]
    | group f name count vars children =>
      have hchildren : boundsOf (moveAll d children) = (boundsOf children).map (·.translate d) := by
        rw [moveAll_eq_map, boundsOf_eq_map, boundsOf_eq_map, List.map_map, List.map_map]
        exact List.map_congr_left ih
      -- Without children the box is that of the anchor, which moves as well.
      rw [moveBy, bounds, bounds, hchildren, Bounds.unionAll?_translate]
      cases Bounds.unionAll? (boundsOf children) <;> rfl

end Shape

/-! ## Groups -/

namespace Group

omit [ExactCoordinate α] in
theorem findById?_moveBy (g : Group α) (id : String) :
    (g.moveBy d).findById? id = (g.findById? id).map (Shape.moveBy d) := by
  have hall := Shape.findSome?_moveBy d id fun s (_ : s ∈ g.children) => Shape.findById?_moveBy d id s
  rw [findById?, findById?, Shape.findAmong?_eq, Shape.findAmong?_eq, ← hall, ← Shape.moveAll_eq_map]
  rfl

omit [ExactCoordinate α] in
theorem findByPath?_moveBy (g : Group α) (path : String) :
    (g.moveBy d).findByPath? path = (g.findByPath? path).map (Shape.moveBy d) :=
  Shape.findBelow?_moveAll d _ g.children

theorem bounds_moveBy (g : Group α) : (g.moveBy d).bounds = g.bounds.translate d :=
  Shape.bounds_moveBy d (Shape.ofGroup g)

end Group

namespace Shape

/-- **Moving a tree moves its box and nothing else.** With exact coordinates the box moves by the same vector, moving
back gives the tree, and look-ups find the moved node of what they found before. -/
theorem moveBy_rigid (t : Shape α) (d : Vec α) :
    (t.moveBy d).bounds = t.bounds.translate d ∧
    (t.moveBy d).moveBy (-d) = t ∧
    (t.moveBy d).unplaced = t.unplaced ∧
    (∀ address, ((t.moveBy d).at? address).map frame =
      (t.at? address).map fun s => { s.frame with pos := s.frame.pos + d }) ∧
    (∀ id, findById? id (t.moveBy d) = (findById? id t).map (moveBy d)) ∧
    (∀ path, findByPath? path (t.moveBy d) = (findByPath? path t).map (moveBy d)) ∧
    ∀ g : Group α, ofGroup g = t →
      ofGroup (g.moveBy d) = t.moveBy d ∧
      (g.moveBy d).bounds = g.bounds.translate d ∧
      (∀ id, (g.moveBy d).findById? id = (g.findById? id).map (moveBy d)) ∧
      ∀ path, (g.moveBy d).findByPath? path = (g.findByPath? path).map (moveBy d) := by
  refine ⟨bounds_moveBy d t, moveBy_moveBy_neg d t, unplaced_moveBy d t, fun address => ?_,
    fun id => findById?_moveBy d id t, fun path => findByPath?_moveBy d path t, ?_⟩
  · rw [at?_moveBy, Option.map_map]
    exact congrArg (Option.map · (t.at? address)) (funext (frame_moveBy d))
  · rintro g rfl
    exact ⟨rfl, g.bounds_moveBy d, g.findById?_moveBy d, g.findByPath?_moveBy d⟩

/-! ### A header of two pins -/

/-- A header with a pad, a hole and an empty group. -/
def header : Group ℚ where
  frame := { id? := some "front.hdr", baseId? := some "hdr", pos := ⟨1, 0⟩ }
  name := "header"
  count := 1
  vars := []
  children := [
    .group { id? := some "front.hdr.pins", baseId? := some "pins", pos := ⟨1, 10⟩ } "pins" 1 [] [
      .rect { id? := some "front.hdr.pins.pad", baseId? := some "pad", pos := ⟨1, 10⟩ } ⟨1, 1⟩ none none none none,
      .circle { id? := some "front.hdr.pins.hole", baseId? := some "hole", pos := ⟨4, 10⟩ } (1 / 2) none none],
    .group { pos := ⟨3, 4⟩ } "none" 0 [] []]

theorem moveBy_rigid_header :
    header.bounds = ⟨1, 4, 9 / 2, 11⟩ ∧
      (header.moveBy ⟨1 / 10, -7⟩).bounds = ⟨11 / 10, -3, 23 / 5, 4⟩ ∧
      ofGroup ((header.moveBy ⟨1 / 10, -7⟩).moveBy (-⟨1 / 10, -7⟩)) = ofGroup header ∧
      ((header.moveBy ⟨1 / 10, -7⟩).findByPath? "pins.hole").map pos = some ⟨41 / 10, 3⟩ := by
  obtain ⟨-, hback, -, -, -, -, hgroup⟩ := moveBy_rigid (ofGroup header) ⟨1 / 10, -7⟩
  obtain ⟨-, hbounds, -, hpath⟩ := hgroup header rfl
  refine ⟨by decide +kernel, ?_, hback, ?_⟩
  · rw [hbounds]
    decide +kernel
  · rw [hpath]
    decide +kernel

end Shape

end BoardAtlas
