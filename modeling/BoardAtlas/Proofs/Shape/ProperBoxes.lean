import BoardAtlas.Proofs.Shape.Boxes
import BoardAtlas.Proofs.Shape.Positions

/-!
# Proper boxes

A box is proper where its first corner is left of and above its second one. What is built from finite numbers has such
boxes, but for rectangles with a negative side, which nothing forbids.

* `Bounds.Proper`, `Bounds.Contains`, `Bounds.Around.contains`: proper boxes and boxes inside boxes;
* `Shape.Sound`, `Shape.Sound.moveBy`, `Shape.Sound.proper`: nodes of finite extents, and the boxes of leaves;
* `Fragment.FiniteFields`, `Fragment.sound_of_plan`: the fields that boxes depend on, and finished shapes;
* `ShapeBuilder.Resolves`: the fragments that are resolved on the way;
* **`ShapeBuilder.sound_of_buildWithin`**: every node of a built shape, by induction on its address;
* **`ShapeBuilder.boxes_of_build`**: the boxes of a built shape.
-/

namespace BoardAtlas

/-! ## Boxes inside boxes -/

namespace Bounds

/-- The first corner is not to the right of and not below the second one. -/
structure Proper (b : Bounds Float) : Prop where
  x : b.x1 ≤ b.x2
  y : b.y1 ≤ b.y2

/-- The box reaches at least as far as another one to every side. -/
structure Contains (b c : Bounds Float) : Prop where
  x1 : b.x1 ≤ c.x1
  y1 : b.y1 ≤ c.y1
  x2 : c.x2 ≤ b.x2
  y2 : c.y2 ≤ b.y2

variable {b c : Bounds Float} {S T : Set (Bounds Float)}

/-- The smallest box around more boxes contains the one around fewer. -/
theorem Around.contains (h : b.Around S) (h' : c.Around T) (hsub : T ⊆ S) : b.Contains c where
  x1 := h.x1.2 (Set.image_mono hsub h'.x1.1)
  y1 := h.y1.2 (Set.image_mono hsub h'.y1.1)
  x2 := h.x2.2 (Set.image_mono hsub h'.x2.1)
  y2 := h.y2.2 (Set.image_mono hsub h'.y2.1)

theorem Contains.proper (h : b.Contains c) (hc : c.Proper) : b.Proper where
  x := Binary64.le_trans h.x1 (Binary64.le_trans hc.x h.x2)
  y := Binary64.le_trans h.y1 (Binary64.le_trans hc.y h.y2)

end Bounds

/-! ## Sound nodes -/

theorem Vec.Finite.numeric {v : Vec Float} (h : v.Finite) : v.Numeric :=
  ⟨Binary64.isNaN_of_isFinite h.x, Binary64.isNaN_of_isFinite h.y⟩

namespace Shape

variable {node t : Shape Float}

/-- A measured node, with a radius that is not negative if it is a circle. -/
def Sound : Shape Float → Prop
  | circle f r .. => f.pos.Numeric ∧ r.isFinite = true ∧ 0 ≤ r
  | s => s.Measured

theorem Sound.measured (h : node.Sound) : node.Measured := by
  cases node with
  | circle => exact ⟨h.1, h.2.1⟩
  | _ => exact h

theorem Sound.moveBy {d : Vec Float} (hd : d.Finite) (h : node.Sound) : (node.moveBy d).Sound := by
  cases node with
  | rect => exact ⟨h.1.add hd, h.2⟩
  | circle => exact ⟨h.1.add hd, h.2⟩
  | text => exact Vec.Numeric.add h hd
  | group => exact Vec.Numeric.add h hd

/-- A rectangle with a negative side. -/
def NegativeSided : Shape Float → Prop
  | rect _ size .. => size.x < 0 ∨ size.y < 0
  | _ => False

/-- A sound node has a proper box of its own unless it is a rectangle with a negative side. -/
theorem Sound.proper (h : node.Sound) (hside : ¬node.NegativeSided) : node.ownBox.Proper := by
  cases node with
  | rect f size rx ry fill stroke =>
    obtain ⟨hpos, hsize⟩ := h
    obtain ⟨hx, hy⟩ := not_or.1 hside
    have hnonneg {w : Float} (hw : w.isFinite = true) (h : ¬w < 0) : 0 ≤ w :=
      Binary64.le_of_not_lt rfl (Binary64.isNaN_of_isFinite hw) h
    exact ⟨Binary64.le_add hpos.x hsize.x (hnonneg hsize.x hx), Binary64.le_add hpos.y hsize.y (hnonneg hsize.y hy)⟩
  | circle f r fill stroke =>
    obtain ⟨hpos, hr, h0⟩ := h
    exact ⟨Binary64.sub_le_add hpos.x hr h0, Binary64.sub_le_add hpos.y hr h0⟩
  | text f s size fill =>
    have h0 : (0 : Float) ≤ 1.0 := by decide +kernel
    exact ⟨Binary64.sub_le_add h.x rfl h0, Binary64.sub_le_add h.y rfl h0⟩
  | group f name count vars children => exact ⟨Binary64.le_refl h.x, Binary64.le_refl h.y⟩

/-- **The boxes of a sound tree**: each contains those below, and it is proper where a leaf below has a proper one. -/
theorem boxes_of_sound (h : ∀ node ∈ t.nodes, node.Sound) :
    (∀ g ∈ t.nodes, ∀ node ∈ g.nodes, g.bounds.Contains node.bounds) ∧
    ∀ g ∈ t.nodes, ∀ leaf ∈ g.nodes, leaf.children = [] → ¬leaf.NegativeSided → g.bounds.Proper := by
  have haround : ∀ node ∈ t.nodes, node.bounds.Around node.leafBoxes := fun node hnode =>
    (bounds_around_leafBoxes fun inner hinner => (h inner (nodes_subset hnode hinner)).measured).1
  have hcontains : ∀ g ∈ t.nodes, ∀ node ∈ g.nodes, g.bounds.Contains node.bounds := fun g hg node hnode =>
    (haround g hg).contains (haround node (nodes_subset hg hnode)) (leafBoxes_subset hnode)
  refine ⟨hcontains, fun g hg leaf hleaf hnil hside => ?_⟩
  refine (hcontains g hg leaf hleaf).proper ?_
  rw [bounds_of_nil hnil]
  exact (h leaf (nodes_subset hg hleaf)).proper hside

end Shape

/-! ## Fields -/

namespace Fragment

variable [Calculator] {f : Fragment} {frame : Frame Float} {s : Shape Float}

/-- The fields of a fragment that boxes depend on are finite where they are numbers. -/
structure FiniteFields (f : Fragment) : Prop where
  pos : ∀ {p}, f.pair? "pos" = .ok (some p) → (Vec.ofFloats p : Vec Float).Finite
  size : ∀ {p}, f.pair? "size" = .ok (some p) → (Vec.ofFloats p : Vec Float).Finite
  r : ∀ {x}, f.number? "r" = .ok (some x) → x.isFinite = true
  d : ∀ {x}, f.number? "d" = .ok (some x) → x.isFinite = true

theorem finite_pos (hf : f.FiniteFields) (h : f.frame = .ok frame) : frame.pos.Finite := by
  simp only [Fragment.frame, Except.bind_eq_ok] at h
  obtain ⟨_, -, pos, hpos, _, -, h⟩ := h
  cases h
  cases pos with
  | none =>
    have hzero : (0 : Float).isFinite = true := rfl
    exact ⟨hzero, hzero⟩
  | some p => exact hf.pos hpos

omit [Calculator] in
theorem needed_eq_ok {β : Type} {key : String} {o : Option β} {x : β} (h : f.needed key o = .ok x) : o = some x := by
  cases o with
  | none => cases h
  | some y => exact congrArg some (Except.ok.inj h)

theorem sound_of_rect (hf : f.FiniteFields) (hframe : frame.pos.Finite) (h : f.rect frame = .ok s) : s.Sound := by
  simp only [Fragment.rect, Except.bind_eq_ok] at h
  obtain ⟨size?, hsize?, size, hsize, _, -, _, -, _, -, _, -, h⟩ := h
  cases h
  rw [needed_eq_ok hsize] at hsize?
  exact ⟨hframe.numeric, hf.size hsize?⟩

theorem radius_spec (hf : f.FiniteFields) {r : Float} (h : f.radius = .ok r) : r.isFinite = true ∧ 0 ≤ r := by
  simp only [Fragment.radius, Except.bind_eq_ok] at h
  obtain ⟨r?, hr, d?, hd, h⟩ := h
  split at h
  · next x hx =>
    obtain ⟨rfl, hlt⟩ := Option.filter_eq_some_iff.1 hx
    cases h
    exact Binary64.half_spec (hf.d hd) (of_decide_eq_true hlt)
  · next x hx _ =>
    obtain ⟨rfl, hlt⟩ := Option.filter_eq_some_iff.1 hx
    cases h
    exact ⟨hf.r hr, Binary64.le_of_lt (of_decide_eq_true hlt)⟩
  · cases h

theorem sound_of_circle (hf : f.FiniteFields) (hframe : frame.pos.Finite) (h : f.circle frame = .ok s) :
    s.Sound := by
  simp only [Fragment.circle, Except.bind_eq_ok] at h
  obtain ⟨r, hr, _, -, _, -, h⟩ := h
  cases h
  exact ⟨hframe.numeric, radius_spec hf hr⟩

theorem sound_of_text (hframe : frame.pos.Finite) (h : f.text frame = .ok s) : s.Sound := by
  simp only [Fragment.text, Except.bind_eq_ok] at h
  obtain ⟨_, -, _, -, _, -, _, -, h⟩ := h
  cases h
  exact hframe.numeric

theorem sound_of_plan (hf : f.FiniteFields) (h : f.plan = .ok (.shape s)) : s.Sound := by
  rw [Fragment.plan, Except.bind_eq_ok] at h
  obtain ⟨frame, hframe, h⟩ := h
  have hpos := finite_pos hf hframe
  split at h
  · cases h
  · obtain ⟨_, hrect, he⟩ := Except.map_eq_ok.1 h
    cases he
    exact sound_of_rect hf hpos hrect
  · obtain ⟨_, hcircle, he⟩ := Except.map_eq_ok.1 h
    cases he
    exact sound_of_circle hf hpos hcircle
  · obtain ⟨_, htext, he⟩ := Except.map_eq_ok.1 h
    cases he
    exact sound_of_text hpos htext
  · obtain ⟨_, _, he⟩ := inclusion_eq_ok h
    cases he
  · cases h

end Fragment

/-! ## Built shapes -/

namespace ShapeBuilder

section Boxes

variable [Calculator] {b : ShapeBuilder} {depth : Nat} {scope : Scope} {data : Value} {t : Shape Float}

/-- The fragments that are resolved where a shape is built: its own one, and those of all entries of the lists that are
included, in all their turns. -/
def Resolves (b : ShapeBuilder) (scope : Scope) (data : Value) (f : Fragment) : Prop :=
  ∃ scope' data', b.Visits Float scope data scope' data' ∧ Fragment.resolve b.presets scope' data' = .ok f

theorem Resolves.here {f : Fragment} (hf : Fragment.resolve b.presets scope data = .ok f) : b.Resolves scope data f :=
  ⟨scope, data, .here, hf⟩

theorem Resolves.alone {f g : Fragment} {kind : String} (h : b.Resolves scope data g)
    (hf : Fragment.resolve b.presets scope data = .ok f) (htype : f.data.get? "type" = some (.str kind))
    (hkind : kind ≠ "include") : g = f := by
  obtain ⟨scope', data', hvisits, hg⟩ := h
  obtain ⟨rfl, rfl⟩ := hvisits.eq_of_type hf htype hkind
  exact Except.ok.inj (hg.symm.trans hf)

/-- **Every node of a shape built from finite fields is sound**: a node inside is built from its own fields and then
moved by a finite position with every group around it. -/
theorem sound_of_buildWithin (h : (b.buildWithin depth scope data).result = .ok t)
    (hfinite : ∀ f, b.Resolves scope data f → f.FiniteFields) {node : Shape Float} (hnode : node ∈ t.nodes) :
    node.Sound := by
  obtain ⟨address, hnode⟩ := hnode
  induction address generalizing depth scope data t node with
  | nil =>
    cases hnode
    obtain ⟨below, f, -, hf, hleaf | ⟨frame, name, count, children, hi, rfl, -⟩⟩ := buildWithin_eq_ok h
    · exact Fragment.sound_of_plan (hfinite f (.here hf)) hleaf
    · exact (Fragment.finite_pos (hfinite f (.here hf)) hi.frame).numeric
  | cons k address ih =>
    rw [Shape.at?_cons] at hnode
    obtain ⟨c, hc, hnode⟩ := Option.bind_eq_some_iff.1 hnode
    obtain ⟨below, f, -, hf, frame, name, count, items, i, j, entry, u, hi, hitems, hturn, hentry, -, hu, rfl⟩ :=
      inside_buildWithin h hc
    have hoffset : frame.pos.Finite := Fragment.finite_pos (hfinite f (.here hf)) hi.frame
    have hbelow : ∀ g, b.Resolves (entryScope f.vars scope.path frame name count i j) entry g → g.FiniteFields :=
      fun g ⟨_, _, hvisits, hg⟩ => hfinite g ⟨_, _, .inside hf hi hitems hturn hentry hvisits, hg⟩
    rw [Shape.placed] at hnode
    split at hnode
    · exact ih hu hbelow hnode
    · rw [Shape.at?_moveBy] at hnode
      obtain ⟨inner, hinner, rfl⟩ := Option.map_eq_some_iff.1 hnode
      exact (ih hu hbelow hinner).moveBy hoffset

/-- **The boxes of a built shape.** Where all fields that boxes depend on are finite, in the fragment and in all lists
it includes, the box of every group contains the box of every node below it, and every node below which there is a leaf
other than a rectangle with a negative side has a proper box. -/
theorem boxes_of_build (h : (b.buildWithin depth scope data).result = .ok t)
    (hfinite : ∀ f, b.Resolves scope data f → f.FiniteFields) :
    (∀ g ∈ t.nodes, ∀ node ∈ g.nodes, g.bounds.Contains node.bounds) ∧
    ∀ g ∈ t.nodes, ∀ leaf ∈ g.nodes, leaf.children = [] → ¬leaf.NegativeSided → g.bounds.Proper :=
  Shape.boxes_of_sound fun _ hnode => sound_of_buildWithin h hfinite hnode

end Boxes

/-! ### A pad with a hole -/

section Pads

open scoped BoardAtlas.Expr

/-- A list of a pad and a hole at its corner. -/
def padBuilder : ShapeBuilder where
  library := {
    manifest? := fun kind name =>
      if kind = .shape ∧ name = "pads" then .ok (.list [.obj [("type", .str "rect"), ("size", .str "2,1")],
        .obj [("type", .str "circle"), ("d", .num 1)]])
      else .error (.unresolved [] name)
    table? := fun _ => .ok []
    names? := fun _ _ => .ok [] }
  presets := []

/-- A scope without an id. -/
def frontScope : Scope := ⟨none, [], "front[0]"⟩

/-- An include of the list. -/
def padsFragment : Value := .obj [("name", .str "pads"), ("pos", .list [.num 3, .num 1])]

/-- The rectangle of the list, moved to the anchor of the include. -/
def pad : Shape Float := .rect { pos := ⟨3, 1⟩ } ⟨2, 1⟩ none none none none

/-- The list as it is built. -/
def pads : Shape Float := .group { pos := ⟨3, 1⟩ } "pads" 1 [] [pad, .circle { pos := ⟨3, 1⟩ } (1 / 2.0) none none]

theorem boxes_of_build_pads :
    (padBuilder.buildWithin 2 frontScope padsFragment).result = .ok pads ∧
      (∀ f, padBuilder.Resolves frontScope padsFragment f → f.FiniteFields) ∧
      pads.bounds = ⟨2.5, 0.5, 5, 2⟩ ∧ pads.bounds.Proper ∧ pads.bounds.Contains pad.bounds := by
  have hbuild : (padBuilder.buildWithin 2 frontScope padsFragment).result = .ok pads := rfl
  have hfinite : ∀ f, padBuilder.Resolves frontScope padsFragment f → f.FiniteFields := by
    rintro g ⟨scope', data', hvisits, hg⟩
    cases hvisits with
    | here =>
      cases hg
      exact ⟨fun h => by cases h; exact ⟨rfl, rfl⟩, nofun, nofun, nofun⟩
    | @inside _ _ f name count items i j entry _ _ frame hf hi hitems hturn hentry h =>
      have hinner : padBuilder.Resolves (entryScope f.vars frontScope.path frame name count i j) entry g :=
        ⟨scope', data', h, hg⟩
      cases hf
      cases hi.frame
      cases hi.name
      cases hi.count
      cases hitems
      obtain rfl := Nat.lt_one_iff.1 hturn
      match j with
      | 0 =>
        cases hentry
        rw [hinner.alone rfl rfl (by decide : "rect" ≠ "include")]
        exact ⟨nofun, fun h => by cases h; exact ⟨rfl, rfl⟩, nofun, nofun⟩
      | 1 =>
        cases hentry
        rw [hinner.alone rfl rfl (by decide : "circle" ≠ "include")]
        exact ⟨nofun, nofun, nofun, fun h => by cases h; rfl⟩
      | _ + 2 => cases hentry
  have hpad : pad ∈ pads.nodes := ⟨[0], rfl⟩
  obtain ⟨hcontains, hproper⟩ := boxes_of_build hbuild hfinite
  have hside : ¬pad.NegativeSided := by
    rintro (h | h) <;> revert h <;> decide +kernel
  exact ⟨hbuild, hfinite, by decide +kernel, hproper pads (Shape.self_mem_nodes pads) pad hpad rfl hside,
    hcontains pads (Shape.self_mem_nodes pads) pad hpad⟩

/-- A rectangle with a negative width, which is built like any other. -/
def negativeFragment : Value := .obj [("type", .str "rect"), ("size", .str "-3,4")]

/-- **Not everything that is built has a proper box**: a rectangle of finite fields ends left of where it begins. -/
theorem build_negative_width :
    ∃ t : Shape Float, (padBuilder.buildWithin 2 frontScope negativeFragment).result = .ok t ∧
      (∀ f, padBuilder.Resolves frontScope negativeFragment f → f.FiniteFields) ∧
      t.bounds = ⟨0, 0, -3, 4⟩ ∧ ¬t.bounds.Proper := by
  refine ⟨.rect { pos := ⟨0, 0⟩ } ⟨-3, 4⟩ none none none none, rfl, ?_, by decide +kernel, ?_⟩
  · intro f hf
    rw [hf.alone rfl rfl (by decide : "rect" ≠ "include")]
    exact ⟨nofun, fun h => by cases h; exact ⟨rfl, rfl⟩, nofun, nofun⟩
  · intro h
    exact absurd h.x (by decide +kernel)

end Pads

end ShapeBuilder

end BoardAtlas
