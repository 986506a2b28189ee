import BoardAtlas.Proofs.Shape.Moves
import BoardAtlas.Proofs.Shape.Turns

/-!
# Positions of built shapes

A shape is moved when its group is built, and again with every group around it. With exact coordinates the moves add up
to the positions of all includes around a node, each of them once.

* `Shape.placed_eq_moveBy`: an offset that is zero need not be looked at;
* `ShapeBuilder.buildWithin_eq_ok`, `ShapeBuilder.inside_buildWithin`: what a built shape is, and what is right inside;
* `ShapeBuilder.Visits`: the fragments that are built on the way;
* `ShapeBuilder.Written`, `ShapeBuilder.Written.unique`: the frames that are written on the way to a node;
* **`ShapeBuilder.frame_at?_buildWithin`**: the nodes of one shape, by induction on their address;
* **`ShapeBuilder.frame_at?_buildEach`**: the nodes of a list of shapes.
-/

namespace BoardAtlas

open Loading

variable {α : Type} [Coordinate α]

/-- With exact coordinates a shape at its place is a moved one, also where the offset is zero. -/
theorem Shape.placed_eq_moveBy [ExactCoordinate α] (offset : Vec α) (s : Shape α) :
    s.placed offset = s.moveBy offset := by
  unfold placed
  split
  · next h => rw [(Vec.isZero_iff offset).1 h, moveBy_zero]
  · rfl

namespace ShapeBuilder

/-- The sum of the positions of frames. -/
def offsetOf (frames : List (Frame α)) : Vec α := (frames.map Frame.pos).sum

theorem moveBy_offsetOf [ExactCoordinate α] (frame own : Frame α) (around : List (Frame α)) :
    (own.moveBy (offsetOf around)).moveBy frame.pos = own.moveBy (offsetOf (frame :: around)) := by
  rw [Frame.moveBy_moveBy, add_comm (offsetOf around)]
  rfl

theorem exists_turn_of_lt {count length k : Nat} (h : k < count * length) :
    ∃ i < count, ∃ j < length, k = i * length + j := by
  have hlength : 0 < length := Nat.pos_of_mul_pos_left (Nat.zero_lt_of_lt h)
  exact ⟨k / length, Nat.div_lt_of_lt_mul (by rwa [Nat.mul_comm]), k % length, Nat.mod_lt k hlength,
    (Nat.div_add_mod' k length).symm⟩

theorem turn_unique {length i j i' j' : Nat} (hj : j < length) (hj' : j' < length)
    (h : i * length + j = i' * length + j') : i = i' ∧ j = j' := by
  obtain rfl : j = j' := by
    have hmod := congrArg (· % length) h
    simpa only [Nat.mul_add_mod_self_right, Nat.mod_eq_of_lt hj, Nat.mod_eq_of_lt hj'] using hmod
  exact ⟨Nat.eq_of_mul_eq_mul_right (Nat.zero_lt_of_lt hj) (Nat.add_right_cancel h), rfl⟩

section Built

variable [Calculator] {b : ShapeBuilder} {depth : Nat} {scope : Scope} {data : Value} {s : Shape α}

/-! ## What is built -/

/-- A built shape is the finished shape of its fragment, or a group of the children of its include. -/
theorem buildWithin_eq_ok (h : (b.buildWithin depth scope data).result = .ok s) :
    ∃ below f, depth = below + 1 ∧ Fragment.resolve b.presets scope data = .ok f ∧
      (f.plan = .ok (.shape s) ∨
        ∃ frame name count children, f.Includes frame name count ∧ s = .group frame name count f.vars children ∧
          (buildChildren b.library (b.buildWithin below) f.vars scope.path frame name count).result =
            .ok children) := by
  cases depth with
  | zero => cases h
  | succ below =>
    rw [buildWithin, result_bind, result_ofExcept] at h
    obtain ⟨f, hf, h⟩ := Except.bind_eq_ok.1 h
    rw [result_bind, result_ofExcept] at h
    obtain ⟨plan, hplan, h⟩ := Except.bind_eq_ok.1 h
    rw [Except.mapError_eq_ok] at hf hplan
    cases plan with
    | shape s' =>
      cases h
      exact ⟨below, f, rfl, hf, .inl hplan⟩
    | group frame name count =>
      rw [result_bind] at h
      obtain ⟨children, hchildren, h⟩ := Except.bind_eq_ok.1 h
      cases h
      exact ⟨below, f, rfl, hf, .inr ⟨frame, name, count, children, .of_plan hplan, rfl, hchildren⟩⟩

theorem frame_of_buildWithin (h : (b.buildWithin depth scope data).result = .ok s) :
    ∃ f, Fragment.resolve b.presets scope data = .ok f ∧ f.frame = .ok s.frame := by
  obtain ⟨below, f, -, hf, hleaf | ⟨frame, name, count, children, hi, rfl, -⟩⟩ := buildWithin_eq_ok h
  · exact ⟨f, hf, (Fragment.plan_eq_shape hleaf).1⟩
  · exact ⟨f, hf, hi.frame⟩

/-- What is right inside a built shape is built from an entry of its list in one of its turns. -/
theorem inside_buildWithin (h : (b.buildWithin depth scope data).result = .ok s) {k : Nat} {c : Shape α}
    (hc : s.children[k]? = some c) :
    ∃ below f, depth = below + 1 ∧ Fragment.resolve b.presets scope data = .ok f ∧
      ∃ frame name count items i j entry t,
      f.Includes frame name count ∧ b.library.manifest? .shape name = .ok (.list items) ∧
      i < count ∧ items[j]? = some entry ∧ k = i * items.length + j ∧
      (b.buildWithin below (entryScope f.vars scope.path frame name count i j) entry).result = .ok t ∧
      c = t.placed frame.pos := by
  obtain ⟨below, f, hdepth, hf, hleaf | ⟨frame, name, count, children, hi, rfl, hchildren⟩⟩ := buildWithin_eq_ok h
  · have hnone : s.children = [] := by
      have hgroup := (Fragment.plan_eq_shape hleaf).2
      cases s with
      | group => cases hgroup
      | _ => rfl
    rw [hnone] at hc
    cases hc
  · have hk : k < children.length := (List.getElem?_eq_some_iff.1 hc).1
    have hcount : 0 < count := by
      rcases Nat.eq_zero_or_pos count with rfl | hpos
      · cases hchildren
        cases hk
      · exact hpos
    obtain ⟨items, hitems⟩ := manifest?_of_buildChildren hcount hchildren
    obtain ⟨hlength, hget⟩ := getElem?_buildChildren hitems hchildren
    rw [hlength] at hk
    obtain ⟨i, hturn, j, hj, rfl⟩ := exists_turn_of_lt hk
    have hentry : items[j]? = some items[j] := List.getElem?_eq_getElem hj
    obtain ⟨t, ht, hplace⟩ := hget i hturn j _ hentry
    exact ⟨below, f, hdepth, hf, frame, name, count, items, i, j, _, t, hi, hitems, hturn, hentry, rfl, ht,
      Option.some.inj (hc.symm.trans hplace)⟩

/-- The fragments that are built on the way, each in its scope: the fragment itself, and those of all entries of the
lists that are included, in all their turns. -/
inductive Visits (b : ShapeBuilder) (α : Type) [Coordinate α] : Scope → Value → Scope → Value → Prop
  | here {scope : Scope} {data : Value} : Visits b α scope data scope data
  | inside {scope data f name count items i j entry scope' data'} {frame : Frame α}
      (hf : Fragment.resolve b.presets scope data = .ok f) (hi : f.Includes frame name count)
      (hitems : b.library.manifest? .shape name = .ok (.list items)) (hturn : i < count)
      (hentry : items[j]? = some entry)
      (h : Visits b α (entryScope f.vars scope.path frame name count i j) entry scope' data') :
      Visits b α scope data scope' data'

theorem Visits.eq_of_type {scope' : Scope} {data' : Value} {f : Fragment} {kind : String}
    (h : b.Visits α scope data scope' data') (hf : Fragment.resolve b.presets scope data = .ok f)
    (htype : f.data.get? "type" = some (.str kind)) (hkind : kind ≠ "include") : scope' = scope ∧ data' = data := by
  cases h with
  | here => exact ⟨rfl, rfl⟩
  | inside hf' hi =>
    obtain rfl := Except.ok.inj (hf'.symm.trans hf)
    cases hi.type.symm.trans htype
    exact absurd rfl hkind

/-! ## What is written -/

/-- What is written on the way to the node at an address: the frames of the includes around it, from the outermost
inwards, and its own frame, all of them as the resolved fragments have them. -/
inductive Written (b : ShapeBuilder) : Scope → Value → List Nat → List (Frame α) → Frame α → Prop
  | here {scope data f frame} (hf : Fragment.resolve b.presets scope data = .ok f) (hframe : f.frame = .ok frame) :
      Written b scope data [] [] frame
  | inside {scope data f frame name count items i j entry k address around own}
      (hf : Fragment.resolve b.presets scope data = .ok f) (hi : f.Includes frame name count)
      (hitems : b.library.manifest? .shape name = .ok (.list items)) (hturn : i < count)
      (hentry : items[j]? = some entry) (hk : k = i * items.length + j)
      (h : Written b (entryScope f.vars scope.path frame name count i j) entry address around own) :
      Written b scope data (k :: address) (frame :: around) own

theorem Written.unique {address : List Nat} {around around' : List (Frame α)} {own own' : Frame α}
    (h : b.Written scope data address around own) (h' : b.Written scope data address around' own') :
    around' = around ∧ own' = own := by
  induction h generalizing around' own' with
  | here hf hframe =>
    cases h' with
    | here hf' hframe' =>
      cases hf.symm.trans hf'
      exact ⟨rfl, Except.ok.inj (hframe'.symm.trans hframe)⟩
  | @inside scope data f frame name count items i j entry k address around own hf hi hitems hturn hentry hk h ih =>
    cases h' with
    | @inside _ _ f' frame' name' count' items' i' j' entry' _ _ around' _ hf' hi' hitems' hturn' hentry' hk' h' =>
      cases hf.symm.trans hf'
      cases hi.plan.symm.trans hi'.plan
      cases hitems.symm.trans hitems'
      have hj : j < items.length := (List.getElem?_eq_some_iff.1 hentry).1
      have hj' : j' < items.length := (List.getElem?_eq_some_iff.1 hentry').1
      obtain ⟨rfl, rfl⟩ := turn_unique hj' hj (hk'.symm.trans hk)
      cases hentry.symm.trans hentry'
      obtain ⟨haround, hown⟩ := ih h'
      exact ⟨congrArg (frame :: ·) haround, hown⟩

variable [ExactCoordinate α]

/-- **The nodes of a built shape** have the frames that are written for them, moved by the positions of the includes
around them within the shape. -/
theorem frame_at?_buildWithin (h : (b.buildWithin depth scope data).result = .ok s) {address : List Nat}
    {node : Shape α} (hnode : s.at? address = some node) :
    ∃ around own, b.Written scope data address around own ∧ node.frame = own.moveBy (offsetOf around) := by
  induction address generalizing depth scope data s node with
  | nil =>
    cases hnode
    obtain ⟨f, hf, hframe⟩ := frame_of_buildWithin h
    exact ⟨[], s.frame, .here hf hframe, (Frame.moveBy_zero s.frame).symm⟩
  | cons k address ih =>
    rw [Shape.at?_cons] at hnode
    obtain ⟨c, hc, hnode⟩ := Option.bind_eq_some_iff.1 hnode
    obtain ⟨below, f, -, hf, frame, name, count, items, i, j, entry, t, hi, hitems, hturn, hentry, rfl, ht, rfl⟩ :=
      inside_buildWithin h hc
    rw [Shape.placed_eq_moveBy, Shape.at?_moveBy] at hnode
    obtain ⟨inner, hinner, rfl⟩ := Option.map_eq_some_iff.1 hnode
    obtain ⟨around, own, hwritten, hframe⟩ := ih ht hinner
    refine ⟨frame :: around, own, .inside hf hi hitems hturn hentry rfl hwritten, ?_⟩
    rw [Shape.frame_moveBy, hframe, moveBy_offsetOf]

/-- **Positions add up.** Every node that is built has the frame written for it but for the anchor: this is the
position written there, with those of all includes around the node and the offset added once each. -/
theorem frame_at?_buildEach (b : ShapeBuilder) (depth : Nat) (scope : Scope) (items : List Value) (offset : Vec α)
    (shapes : List (Shape α)) (h : (buildEach (b.buildWithin depth) scope items offset).result = .ok shapes) :
    shapes.length = items.length ∧
    ∀ k s address node, shapes[k]? = some s → s.at? address = some node →
      ∃ data around own, items[k]? = some data ∧ b.Written (scope.entry k) data address around own ∧
        (∀ around' own', b.Written (scope.entry k) data address around' own' → around' = around ∧ own' = own) ∧
        node.frame = { own with pos := own.pos + (around.map Frame.pos).sum + offset } := by
  rw [buildEach, result_buildFrom] at h
  obtain ⟨hlength, hget⟩ := Except.getElem?_of_mapM h
  rw [List.length_zipIdx] at hlength
  refine ⟨hlength, fun k s address node hs hnode => ?_⟩
  have hk : k < items.length := hlength ▸ (List.getElem?_eq_some_iff.1 hs).1
  obtain ⟨s', hs', hstep⟩ := hget k (items[k], k) (by simp [hk])
  obtain rfl : s = s' := Option.some.inj (hs.symm.trans hs')
  obtain ⟨t, ht, rfl⟩ := Except.map_eq_ok.1 hstep
  rw [Shape.placed_eq_moveBy, Shape.at?_moveBy] at hnode
  obtain ⟨inner, hinner, rfl⟩ := Option.map_eq_some_iff.1 hnode
  obtain ⟨around, own, hwritten, hframe⟩ := frame_at?_buildWithin ht hinner
  refine ⟨items[k], around, own, List.getElem?_eq_getElem hk, hwritten, fun _ _ => hwritten.unique, ?_⟩
  rw [Shape.frame_moveBy, hframe]
  rfl

end Built

/-! ### A header in a list -/

section Header

open scoped BoardAtlas.Expr

/-- A row of pins, and a list with two turns of it. -/
def pinBuilder : ShapeBuilder where
  library := {
    manifest? := fun kind name =>
      if kind = .shape ∧ name = "header" then .ok (.list [.obj [("type", .str "rect"), ("id", .str "pin$\x7bI\x7d"),
        ("pos", .str "$\x7bI\x7d,0"), ("size", .str "1,1")]])
      else if kind = .shape ∧ name = "nested" then .ok (.list [.obj [("id", .str "inner"), ("name", .str "header"),
        ("repeat", .num 2), ("pos", .str "0,10")]])
      else .error (.unresolved [] name)
    table? := fun _ => .ok []
    names? := fun _ _ => .ok [] }
  presets := []

/-- An include of a list that includes another one. -/
def nestedFragment : Value := .obj [("id", .str "n"), ("name", .str "nested"), ("pos", .str "3,0")]

/-- The shapes of one list of two turns, half a step to the right. -/
def pinShapes : Except (Stop ShapeError) (List (Shape ℚ)) :=
  (buildEach (pinBuilder.buildWithin 3) boardScope [nestedFragment] ⟨1 / 2, 0⟩).result

/-- The anchor of the pin of the second turn. -/
def pinAnchor? : Option (Vec ℚ) :=
  pinShapes.toOption.bind fun shapes => shapes[0]?.bind fun s => (s.at? [0, 1]).map Shape.pos

theorem frame_at?_buildEach_pin :
    pinAnchor? = some ⟨9 / 2, 10⟩ ∧
      ∃ shapes s node around own, pinShapes = .ok shapes ∧ shapes[0]? = some s ∧ s.at? [0, 1] = some node ∧
        pinBuilder.Written (boardScope.entry 0) nestedFragment [0, 1] around own ∧
        node.pos = ⟨9 / 2, 10⟩ ∧ node.pos = own.pos + (around.map Frame.pos).sum + ⟨1 / 2, 0⟩ := by
  have hanchor : pinAnchor? = some ⟨9 / 2, 10⟩ := by decide +kernel
  refine ⟨hanchor, ?_⟩
  obtain ⟨shapes, hshapes, hanchor⟩ := Option.bind_eq_some_iff.1 hanchor
  obtain ⟨s, hs, hanchor⟩ := Option.bind_eq_some_iff.1 hanchor
  obtain ⟨node, hnode, hpos⟩ := Option.map_eq_some_iff.1 hanchor
  have hok : pinShapes = .ok shapes := Except.toOption_eq_some.1 hshapes
  obtain ⟨-, hall⟩ := frame_at?_buildEach pinBuilder 3 boardScope [nestedFragment] ⟨1 / 2, 0⟩ shapes hok
  obtain ⟨data, around, own, hdata, hwritten, -, hframe⟩ := hall 0 s [0, 1] node hs hnode
  cases hdata
  exact ⟨shapes, s, node, around, own, hok, hs, hnode, hwritten, hpos, congrArg Frame.pos hframe⟩

end Header

end ShapeBuilder

end BoardAtlas
