import BoardAtlas.Proofs.Number.Sums
import BoardAtlas.Proofs.Shape.Moves

/-!
# Boxes of trees

The box of a tree is the smallest box around its leaves, whatever groups there are between.

* `Shape.nodes`, `Shape.leafBoxes`, `Shape.leafBoxes_of_ne_nil`: the nodes of a tree and the boxes of its leaves;
* `Bounds.Around`, `Bounds.Around.union`, `Bounds.Around.unionAll?`: the smallest box around boxes of doubles;
* `Shape.Measured`, `Shape.Measured.numeric`: nodes whose boxes are numbers;
* `Shape.Rearranged`, `Shape.Rearranged.leafBoxes_eq`: trees of the same leaves in other groups or another order;
* **`Shape.bounds_around_leafBoxes`**: one flat minimum and maximum over all leaves.
-/

namespace BoardAtlas

/-! ## Leaves -/

namespace Shape

variable {α : Type} {t node : Shape α}

/-- The nodes of a tree, the tree itself among them. -/
def nodes (t : Shape α) : Set (Shape α) := {node | ∃ address, t.at? address = some node}

theorem mem_nodes_iff : node ∈ t.nodes ↔ node = t ∨ ∃ s ∈ t.children, node ∈ s.nodes := by
  constructor
  · rintro ⟨_ | ⟨k, address⟩, h⟩
    · exact .inl (Option.some.inj h).symm
    · obtain ⟨s, hs, h⟩ := Option.bind_eq_some_iff.1 h
      exact .inr ⟨s, List.mem_of_getElem? hs, address, h⟩
  · rintro (rfl | ⟨s, hs, address, h⟩)
    · exact ⟨[], rfl⟩
    · obtain ⟨k, hk⟩ := List.mem_iff_getElem?.1 hs
      exact ⟨k :: address, by rw [at?_cons, hk, Option.bind_some, h]⟩

theorem self_mem_nodes (t : Shape α) : t ∈ t.nodes := ⟨[], rfl⟩

theorem forall_mem_nodes {P : Shape α → Prop} :
    (∀ node ∈ t.nodes, P node) ↔ P t ∧ ∀ s ∈ t.children, ∀ node ∈ s.nodes, P node := by
  simp only [mem_nodes_iff (t := t), forall_eq_or_imp, forall_exists_index, and_imp]
  exact and_congr_right fun _ => ⟨fun h s hs node => h node s hs, fun h node s hs => h s hs node⟩

theorem forall_mem_nodes_of_nil {P : Shape α → Prop} (h : t.children = []) (ht : P t) : ∀ node ∈ t.nodes, P node :=
  forall_mem_nodes.2 ⟨ht, by simp [h]⟩

theorem nodes_subset (h : node ∈ t.nodes) : node.nodes ⊆ t.nodes := by
  induction t using treeInduction with
  | node t ih =>
    obtain rfl | ⟨s, hs, h⟩ := mem_nodes_iff.1 h
    · exact subset_rfl
    · exact fun inner hinner => mem_nodes_iff.2 (.inr ⟨s, hs, ih s hs h hinner⟩)

variable [Coordinate α]

/-- The box of a node without what is inside it: the point of its anchor for a group. -/
def ownBox : Shape α → Bounds α
  | group f .. => Bounds.point f.pos
  | s => s.bounds

/-- The boxes of the leaves of a tree: of all that is no group, and of all groups without children. -/
def leafBoxes (t : Shape α) : Set (Bounds α) := {b | ∃ node ∈ t.nodes, node.children = [] ∧ node.ownBox = b}

theorem leafBoxes_of_nil (h : t.children = []) : t.leafBoxes = {t.ownBox} := by
  ext b
  rw [Set.mem_singleton_iff]
  constructor
  · rintro ⟨node, hnode, -, rfl⟩
    obtain rfl | ⟨s, hs, -⟩ := mem_nodes_iff.1 hnode
    · rfl
    · rw [h] at hs
      cases hs
  · rintro rfl
    exact ⟨t, self_mem_nodes t, h, rfl⟩

/-- The leaves of a shape with children are those of its children. -/
theorem leafBoxes_of_ne_nil (h : t.children ≠ []) : t.leafBoxes = {b | ∃ s ∈ t.children, b ∈ s.leafBoxes} := by
  ext b
  constructor
  · rintro ⟨node, hnode, hleaf, rfl⟩
    obtain rfl | ⟨s, hs, hnode⟩ := mem_nodes_iff.1 hnode
    · exact absurd hleaf h
    · exact ⟨s, hs, node, hnode, hleaf, rfl⟩
  · rintro ⟨s, hs, node, hnode, hleaf, rfl⟩
    exact ⟨node, mem_nodes_iff.2 (.inr ⟨s, hs, hnode⟩), hleaf, rfl⟩

theorem leafBoxes_subset (h : node ∈ t.nodes) : node.leafBoxes ⊆ t.leafBoxes :=
  fun _ ⟨leaf, hleaf, hrest⟩ => ⟨leaf, nodes_subset h hleaf, hrest⟩

theorem bounds_of_nil (h : t.children = []) : t.bounds = t.ownBox := by
  cases t with
  | group f name count vars children =>
    obtain rfl : children = [] := h
    rfl
  | _ => rfl

theorem bounds_of_ne_nil (h : t.children ≠ []) : some t.bounds = Bounds.unionAll? (t.children.map bounds) := by
  cases t with
  | group f name count vars children =>
    rw [bounds, boundsOf_eq_map]
    cases children with
    | nil => exact absurd rfl h
    | cons s rest => rfl
  | _ => exact absurd rfl h

/-! ## Other groups and another order -/

/-- Trees of the same leaves: children in another order, a group with something inside opened into the group around
it, a tree inside a group of its own, and all this at any depth and in both directions. -/
inductive Rearranged : Shape α → Shape α → Prop
  | refl t : Rearranged t t
  | symm {t u} (h : Rearranged t u) : Rearranged u t
  | trans {t u v} (h : Rearranged t u) (h' : Rearranged u v) : Rearranged t v
  | reorder {f name count vars shapes shapes'} (h : shapes.Perm shapes') :
      Rearranged (group f name count vars shapes) (group f name count vars shapes')
  | inside {f name count vars s s' rest} (h : Rearranged s s') :
      Rearranged (group f name count vars (s :: rest)) (group f name count vars (s' :: rest))
  | ungroup {f name count vars f' name' count' vars' inner rest} (h : inner ≠ []) :
      Rearranged (group f name count vars (group f' name' count' vars' inner :: rest))
        (group f name count vars (inner ++ rest))
  | unwrap f name count vars t : Rearranged (group f name count vars [t]) t

theorem Rearranged.leafBoxes_eq {t u : Shape α} (h : Rearranged t u) : t.leafBoxes = u.leafBoxes := by
  have hgroup {f name count vars} {shapes : List (Shape α)} (h : shapes ≠ []) :
      (group f name count vars shapes).leafBoxes = {b | ∃ s ∈ shapes, b ∈ s.leafBoxes} := leafBoxes_of_ne_nil h
  induction h with
  | refl => rfl
  | symm _ ih => exact ih.symm
  | trans _ _ ih ih' => exact ih.trans ih'
  | @reorder f name count vars shapes shapes' h =>
    by_cases hnil : shapes = []
    · subst hnil
      rw [List.nil_perm.1 h]
    · have hne : shapes' ≠ [] := fun hnil' => hnil (List.perm_nil.1 (hnil' ▸ h))
      rw [hgroup hnil, hgroup hne]
      ext b
      exact exists_congr fun s => and_congr_left' h.mem_iff
  | @inside f name count vars s s' rest _ ih =>
    rw [hgroup (List.cons_ne_nil s rest), hgroup (List.cons_ne_nil s' rest)]
    ext b
    simp [ih]
  | @ungroup f name count vars f' name' count' vars' inner rest h =>
    rw [hgroup (List.cons_ne_nil _ rest), hgroup (List.append_ne_nil_of_left_ne_nil h rest)]
    ext b
    simp [hgroup h, or_and_right, exists_or]
  | unwrap f name count vars t =>
    rw [hgroup (List.cons_ne_nil t [])]
    simp

end Shape

/-! ## Boxes of doubles -/

namespace Bounds

/-- A box whose corners are numbers. -/
structure Numeric (b : Bounds Float) : Prop where
  x1 : b.x1.isNaN = false
  y1 : b.y1.isNaN = false
  x2 : b.x2.isNaN = false
  y2 : b.y2.isNaN = false

/-- Boxes that are equal as numbers, the zero of either sign being the same number. -/
structure Same (b c : Bounds Float) : Prop where
  x1 : (b.x1 == c.x1) = true
  y1 : (b.y1 == c.y1) = true
  x2 : (b.x2 == c.x2) = true
  y2 : (b.y2 == c.y2) = true

/-- **The smallest box around boxes**: its first corner has the minimum of all first corners in each coordinate, and
its second corner the maximum of all second corners. -/
structure Around (b : Bounds Float) (boxes : Set (Bounds Float)) : Prop where
  x1 : IsLeast (Bounds.x1 '' boxes) b.x1
  y1 : IsLeast (Bounds.y1 '' boxes) b.y1
  x2 : IsGreatest (Bounds.x2 '' boxes) b.x2
  y2 : IsGreatest (Bounds.y2 '' boxes) b.y2

variable {b c : Bounds Float} {S T : Set (Bounds Float)}

theorem Numeric.around (h : b.Numeric) : b.Around {b} where
  x1 := by simpa [IsLeast, lowerBounds] using Binary64.le_refl h.x1
  y1 := by simpa [IsLeast, lowerBounds] using Binary64.le_refl h.y1
  x2 := by simpa [IsGreatest, upperBounds] using Binary64.le_refl h.x2
  y2 := by simpa [IsGreatest, upperBounds] using Binary64.le_refl h.y2

theorem Around.union (h : b.Around S) (h' : c.Around T) : (b.union c).Around (S ∪ T) where
  x1 := Set.image_union .. ▸ Binary64.isLeast_smaller h.x1 h'.x1
  y1 := Set.image_union .. ▸ Binary64.isLeast_smaller h.y1 h'.y1
  x2 := Set.image_union .. ▸ Binary64.isGreatest_larger h.x2 h'.x2
  y2 := Set.image_union .. ▸ Binary64.isGreatest_larger h.y2 h'.y2

theorem Around.foldl {γ : Type} {box : γ → Bounds Float} {boxes : γ → Set (Bounds Float)} (h : b.Around S)
    {items : List γ} (hitems : ∀ i ∈ items, (box i).Around (boxes i)) :
    ((items.map box).foldl Bounds.union b).Around (S ∪ {c | ∃ i ∈ items, c ∈ boxes i}) := by
  induction items generalizing b S with
  | nil => simpa using h
  | cons i rest ih =>
    obtain ⟨hi, hrest⟩ := List.forall_mem_cons.1 hitems
    have hboxes : S ∪ {c | ∃ j ∈ i :: rest, c ∈ boxes j} = S ∪ boxes i ∪ {c | ∃ j ∈ rest, c ∈ boxes j} := by
      ext c
      simp [or_assoc]
    rw [hboxes]
    exact ih (h.union hi) hrest

/-- The smallest box around boxes that have others inside is the smallest around those. -/
theorem Around.unionAll? {γ : Type} {box : γ → Bounds Float} {boxes : γ → Set (Bounds Float)} {items : List γ}
    (hitems : ∀ i ∈ items, (box i).Around (boxes i)) (h : some b = Bounds.unionAll? (items.map box)) :
    b.Around {c | ∃ i ∈ items, c ∈ boxes i} := by
  cases items with
  | nil => cases h
  | cons i rest =>
    cases h
    obtain ⟨hi, hrest⟩ := List.forall_mem_cons.1 hitems
    have hboxes : {c | ∃ j ∈ i :: rest, c ∈ boxes j} = boxes i ∪ {c | ∃ j ∈ rest, c ∈ boxes j} := by
      ext c
      simp
    rw [hboxes]
    exact hi.foldl hrest

theorem Around.same (h : b.Around S) (h' : c.Around S) : b.Same c where
  x1 := Binary64.beq_of_le_of_le (h.x1.2 h'.x1.1) (h'.x1.2 h.x1.1)
  y1 := Binary64.beq_of_le_of_le (h.y1.2 h'.y1.1) (h'.y1.2 h.y1.1)
  x2 := Binary64.beq_of_le_of_le (h'.x2.2 h.x2.1) (h.x2.2 h'.x2.1)
  y2 := Binary64.beq_of_le_of_le (h'.y2.2 h.y2.1) (h.y2.2 h'.y2.1)

end Bounds

theorem Shape.bounds_around {t : Shape Float} (h : ∀ b ∈ t.leafBoxes, b.Numeric) : t.bounds.Around t.leafBoxes := by
  induction t using treeInduction with
  | node t ih =>
    by_cases hnil : t.children = []
    · rw [leafBoxes_of_nil hnil] at h ⊢
      rw [bounds_of_nil hnil]
      exact (h t.ownBox rfl).around
    · rw [leafBoxes_of_ne_nil hnil] at h ⊢
      exact Bounds.Around.unionAll? (fun s hs => ih s hs fun b hb => h b ⟨s, hs, hb⟩) (bounds_of_ne_nil hnil)

/-! ## Finite coordinates -/

/-- A vector whose coordinates are numbers. -/
structure Vec.Numeric (v : Vec Float) : Prop where
  x : v.x.isNaN = false
  y : v.y.isNaN = false

/-- A vector whose coordinates are finite. -/
structure Vec.Finite (v : Vec Float) : Prop where
  x : v.x.isFinite = true
  y : v.y.isFinite = true

theorem Bounds.numeric_ofCorners {p q : Vec Float} (hp : p.Numeric) (hq : q.Numeric) :
    (Bounds.ofCorners p q).Numeric := ⟨hp.x, hp.y, hq.x, hq.y⟩

namespace Vec

variable {v w : Vec Float}

theorem Numeric.add (hv : v.Numeric) (hw : w.Finite) : (v + w).Numeric :=
  ⟨Binary64.isNaN_add hv.x hw.x, Binary64.isNaN_add hv.y hw.y⟩

theorem Numeric.sub (hv : v.Numeric) (hw : w.Finite) : (v - w).Numeric :=
  ⟨Binary64.isNaN_sub hv.x hw.x, Binary64.isNaN_sub hv.y hw.y⟩

end Vec

namespace Shape

/-- A node at a place of numbers and of a finite extent. What is inside a group does not matter. -/
def Measured : Shape Float → Prop
  | rect f size .. => f.pos.Numeric ∧ size.Finite
  | circle f r .. => f.pos.Numeric ∧ r.isFinite = true
  | text f .. => f.pos.Numeric
  | group f .. => f.pos.Numeric

theorem Measured.numeric {node : Shape Float} (h : node.Measured) : node.ownBox.Numeric := by
  cases node with
  | rect f size rx ry fill stroke => exact Bounds.numeric_ofCorners h.1 (h.1.add h.2)
  | circle f r fill stroke =>
    have hr : Vec.Finite ⟨r, r⟩ := ⟨h.2, h.2⟩
    exact Bounds.numeric_ofCorners (h.1.sub hr) (h.1.add hr)
  | text f s size fill =>
    have hone : Vec.Finite ⟨1.0, 1.0⟩ := ⟨rfl, rfl⟩
    exact Bounds.numeric_ofCorners (Vec.Numeric.sub h hone) (Vec.Numeric.add h hone)
  | group f name count vars children => exact Bounds.numeric_ofCorners h h

/-- **Group boxes are the boxes of their leaves.** The box of a tree has the minimum and the maximum of the
coordinates over the boxes of its leaves; neither the order of children nor the groups in between change it. -/
theorem bounds_around_leafBoxes {t : Shape Float} (h : ∀ node ∈ t.nodes, node.Measured) :
    t.bounds.Around t.leafBoxes ∧ ∀ u : Shape Float, Rearranged t u → u.bounds.Same t.bounds := by
  have hnumeric : ∀ b ∈ t.leafBoxes, b.Numeric := by
    rintro b ⟨node, hnode, -, rfl⟩
    exact (h node hnode).numeric
  refine ⟨bounds_around hnumeric, fun u hu => ?_⟩
  have hleaves := hu.leafBoxes_eq
  have haround := bounds_around (hleaves ▸ hnumeric)
  exact (hleaves ▸ haround).same (bounds_around hnumeric)

/-- A pad in a group of its own, an empty group and a hole. -/
def panel : Shape Float :=
  .group { pos := ⟨7, 7⟩ } "panel" 1 [] [
    .group { pos := ⟨0, 0⟩ } "pads" 1 [] [.rect { pos := ⟨1, 10⟩ } ⟨2, 1⟩ none none none none],
    .group { pos := ⟨-1, 4⟩ } "none" 0 [] [],
    .circle { pos := ⟨4, 10⟩ } 0.5 none none]

/-- The same leaves in another order and without the group around the pad. -/
def flatPanel : Shape Float :=
  .group { pos := ⟨7, 7⟩ } "panel" 1 [] [
    .rect { pos := ⟨1, 10⟩ } ⟨2, 1⟩ none none none none,
    .circle { pos := ⟨4, 10⟩ } 0.5 none none,
    .group { pos := ⟨-1, 4⟩ } "none" 0 [] []]

theorem bounds_around_leafBoxes_panel :
    (∀ node ∈ panel.nodes, node.Measured) ∧ panel.bounds.x1 = -1 ∧ IsLeast (Bounds.x1 '' panel.leafBoxes) (-1) ∧
      panel.bounds.x2 = 4.5 ∧ IsGreatest (Bounds.x2 '' panel.leafBoxes) 4.5 ∧
      flatPanel.bounds.Same panel.bounds := by
  have hmeasured : ∀ node ∈ panel.nodes, node.Measured := by
    refine forall_mem_nodes.2 ⟨⟨rfl, rfl⟩, List.forall_mem_cons.2 ⟨forall_mem_nodes.2 ⟨⟨rfl, rfl⟩,
      List.forall_mem_singleton.2 ?pad⟩, List.forall_mem_cons.2 ⟨?none, List.forall_mem_singleton.2 ?hole⟩⟩⟩
    case pad => exact forall_mem_nodes_of_nil rfl ⟨⟨rfl, rfl⟩, rfl, rfl⟩
    case none => exact forall_mem_nodes_of_nil rfl ⟨rfl, rfl⟩
    case hole => exact forall_mem_nodes_of_nil rfl ⟨⟨rfl, rfl⟩, rfl⟩
  obtain ⟨haround, hsame⟩ := bounds_around_leafBoxes hmeasured
  have hx1 : panel.bounds.x1 = -1 := by decide +kernel
  have hx2 : panel.bounds.x2 = 4.5 := by decide +kernel
  refine ⟨hmeasured, hx1, hx1 ▸ haround.x1, hx2, hx2 ▸ haround.x2, hsame _ (.trans (.ungroup nofun) (.reorder ?_))⟩
  exact .cons _ (.swap _ _ [])

end Shape

end BoardAtlas
