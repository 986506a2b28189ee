import BoardAtlas.Proofs.Manifest.Untouched
import BoardAtlas.Proofs.Shape.Moves

/-!
# Look-ups by id and by path

A look-up by id compares whole ids all over a tree; one by path takes one piece of the path after another and goes down
one level with each. Where every id is that of the group around it, a dot and a piece of its own, the pieces of an id
are the way to its node, and both look-ups meet there.

* `Text.piecesOf_dotted`: the pieces of a text with a dot in it;
* `Shape.Dotted`: trees with such ids;
* `Shape.Way`, `Shape.Dotted.piecesOf_id`: own pieces on the way to a node, and the id that they make up;
* **`Shape.Dotted.address_unique`**: no two nodes of a tree have one id;
* `Shape.exists_address_of_findById?`, `Shape.exists_findById?_of_at?`: what a look-up by id finds;
* `Shape.Dotted.findBelow?_of_way`, `Shape.exists_address_of_findBelow?`: what a look-up by path finds;
* **`Group.findById?_eq_some_iff_findByPath?`**: both look-ups of a pad.
-/

namespace BoardAtlas

/-! ## Pieces of dotted texts -/

namespace Text

/-- The pieces of a dotted text are those in front of the dot and those behind it. -/
theorem piecesOf_dotted (s t : String) : piecesOf '.' (s ++ "." ++ t) = piecesOf '.' s ++ piecesOf '.' t :=
  piecesOf_separated '.' s t

end Text

variable {α : Type}

namespace Shape

/-! ## Dotted ids -/

/-- The ids of a tree below an id: every id is that of the group around it, a dot and the own id of the node. Own ids
are not empty, have no dot, and differ among the shapes right inside one group. -/
inductive Dotted : String → Shape α → Prop
  | intro {id : String} {t : Shape α} (own : t.id? = some id)
      (named : ∀ s ∈ t.children, ∃ base, s.frame.baseId? = some base ∧ base ≠ "" ∧ '.' ∉ base.toList)
      (distinct : (t.children.map fun s => s.frame.baseId?).Nodup)
      (inside : ∀ s ∈ t.children, ∀ base, s.frame.baseId? = some base → Dotted (id ++ "." ++ base) s) :
      Dotted id t

/-- The own ids on the way from a tree to its node at an address. -/
inductive Way : Shape α → List String → List Nat → Shape α → Prop
  | here {t : Shape α} : Way t [] [] t
  | inside {t s node : Shape α} {base : String} {names : List String} {k : Nat} {address : List Nat}
      (hs : t.children[k]? = some s) (hbase : s.frame.baseId? = some base) (h : Way s names address node) :
      Way t (base :: names) (k :: address) node

variable {id : String} {t node : Shape α} {names : List String} {address : List Nat}

theorem Dotted.leaf (own : t.id? = some id) (h : t.children = []) : Dotted id t := by
  refine .intro own ?_ ?_ ?_ <;> simp [h]

theorem Dotted.exists_way (hd : Dotted id t) (h : t.at? address = some node) :
    ∃ names, Way t names address node := by
  induction address generalizing t id with
  | nil =>
    cases h
    exact ⟨[], .here⟩
  | cons k address ih =>
    obtain ⟨-, named, -, inside⟩ := hd
    obtain ⟨s, hs, h⟩ := Option.bind_eq_some_iff.1 h
    have hmem := List.mem_of_getElem? hs
    obtain ⟨base, hbase, -⟩ := named s hmem
    obtain ⟨names, hway⟩ := ih (inside s hmem base hbase) h
    exact ⟨base :: names, .inside hs hbase hway⟩

/-- **The pieces of an id** are those of the id of the tree and the own ids on the way. -/
theorem Dotted.piecesOf_id (hd : Dotted id t) (h : Way t names address node) :
    ∃ own, node.id? = some own ∧ Text.piecesOf '.' own = Text.piecesOf '.' id ++ names := by
  induction h generalizing id with
  | here =>
    obtain ⟨own, -⟩ := hd
    exact ⟨id, own, (List.append_nil _).symm⟩
  | @inside _ s _ base names _ _ hs hbase _ ih =>
    obtain ⟨-, named, -, inside⟩ := hd
    have hmem := List.mem_of_getElem? hs
    obtain ⟨own, hown, hpieces⟩ := ih (inside s hmem base hbase)
    obtain ⟨_, hbase', -, hdot⟩ := named s hmem
    cases hbase.symm.trans hbase'
    refine ⟨own, hown, ?_⟩
    rw [hpieces, Text.piecesOf_dotted, Text.piecesOf_of_not_mem hdot, List.append_assoc, List.singleton_append]

theorem Dotted.way_unique (hd : Dotted id t) {address' : List Nat} {node' : Shape α}
    (h : Way t names address node) (h' : Way t names address' node') : address = address' := by
  induction h generalizing id address' with
  | here =>
    cases h'
    rfl
  | @inside t s _ base _ k _ hs hbase _ ih =>
    cases h' with
    | @inside _ s' _ _ _ k' _ hs' hbase' h' =>
      obtain ⟨-, -, distinct, inside⟩ := hd
      have hplace {k : Nat} {s : Shape α} (hs : t.children[k]? = some s) (hbase : s.frame.baseId? = some base) :
          (t.children.map fun s => s.frame.baseId?)[k]? = some (some base) := by
        rw [List.getElem?_map, hs, Option.map_some, hbase]
      have hk := hplace hs hbase
      obtain rfl : k = k' :=
        (List.getElem?_inj (List.getElem?_eq_some_iff.1 hk).1 distinct).1 (hk.trans (hplace hs' hbase').symm)
      cases hs.symm.trans hs'
      exact congrArg (k :: ·) (ih (inside s (List.mem_of_getElem? hs) base hbase) h')

/-- **No two nodes of a tree have one id.** -/
theorem Dotted.address_unique (hd : Dotted id t) {address' : List Nat} {node' : Shape α}
    (h : t.at? address = some node) (h' : t.at? address' = some node') (hid : node.id? = node'.id?) :
    address = address' := by
  obtain ⟨names, hway⟩ := hd.exists_way h
  obtain ⟨names', hway'⟩ := hd.exists_way h'
  obtain ⟨own, hown, hpieces⟩ := hd.piecesOf_id hway
  obtain ⟨own', hown', hpieces'⟩ := hd.piecesOf_id hway'
  cases hown.symm.trans (hid.trans hown')
  obtain rfl : names = names' := List.append_cancel_left (hpieces.symm.trans hpieces')
  exact hd.way_unique hway hway'

/-! ## What look-ups find -/

theorem exists_address_of_findById? (h : findById? id t = some node) :
    node.id? = some id ∧ ∃ address, t.at? address = some node := by
  induction t using treeInduction with
  | node t ih =>
    rw [findById?_eq] at h
    split at h
    · next hid =>
      cases h
      exact ⟨hid, [], rfl⟩
    · obtain ⟨s, hs, h⟩ := List.exists_of_findSome?_eq_some h
      obtain ⟨hid, address, haddress⟩ := ih s hs h
      obtain ⟨k, hk⟩ := List.getElem?_of_mem hs
      exact ⟨hid, k :: address, by rw [at?_cons, hk, Option.bind_some, haddress]⟩

theorem exists_findById?_of_at? (h : t.at? address = some node) (hid : node.id? = some id) :
    ∃ found, findById? id t = some found := by
  induction address generalizing t with
  | nil =>
    cases h
    exact ⟨node, by rw [findById?_eq, if_pos hid]⟩
  | cons k address ih =>
    obtain ⟨s, hs, h⟩ := Option.bind_eq_some_iff.1 h
    obtain ⟨found, hfound⟩ := ih h
    rw [findById?_eq]
    split
    · exact ⟨t, rfl⟩
    · refine Option.isSome_iff_exists.1 (List.findSome?_isSome_iff.2 ⟨s, List.mem_of_getElem? hs, ?_⟩)
      rw [hfound]
      rfl

theorem Dotted.find?_baseId (hd : Dotted id t) {s : Shape α} {base : String} (hs : s ∈ t.children)
    (hbase : s.frame.baseId? = some base) : t.children.find? (fun s => s.frame.baseId? == some base) = some s := by
  obtain ⟨-, -, distinct, -⟩ := hd
  obtain ⟨found, hfound⟩ : ∃ found, t.children.find? (fun s => s.frame.baseId? == some base) = some found :=
    Option.isSome_iff_exists.1 (List.find?_isSome.2 ⟨s, hs, beq_iff_eq.2 hbase⟩)
  have hsame : found.frame.baseId? = s.frame.baseId? :=
    (beq_iff_eq.1 (List.find?_some hfound :)).trans hbase.symm
  rw [hfound, List.inj_on_of_nodup_map distinct (List.mem_of_find?_eq_some hfound) hs hsame]

/-- In a tree with dotted ids a look-up by path finds what the pieces are the way to. -/
theorem Dotted.findBelow?_of_way (hd : Dotted id t) (h : Way t names address node) (hne : names ≠ []) :
    findBelow? names t.children = some node := by
  induction h generalizing id with
  | here => exact absurd rfl hne
  | @inside t s _ base names _ _ hs hbase hway ih =>
    have hmem := List.mem_of_getElem? hs
    rw [findBelow?, hd.find?_baseId hmem hbase]
    cases hway with
    | here => rfl
    | inside hs' hbase' hway' =>
      obtain ⟨-, -, -, inside⟩ := hd
      have hbelow := ih (inside s hmem base hbase) (List.cons_ne_nil _ _)
      cases s with
      | group => exact hbelow
      | _ => cases hs'

theorem exists_address_of_findBelow? (h : findBelow? names t.children = some node) :
    ∃ address, t.at? address = some node := by
  induction names generalizing t with
  | nil => cases h
  | cons head rest ih =>
    rw [findBelow?] at h
    split at h
    · cases h
    · next s hfind =>
      obtain ⟨k, hk⟩ := List.getElem?_of_mem (List.mem_of_find?_eq_some hfind)
      have hinside {address : List Nat} (hs : s.at? address = some node) : t.at? (k :: address) = some node := by
        rw [at?_cons, hk, Option.bind_some, hs]
      split at h
      · cases h
        exact ⟨[k], hinside rfl⟩
      · cases s with
        | group f name count vars children =>
          have hbelow : findBelow? rest (group f name count vars children).children = some node := h
          obtain ⟨address, haddress⟩ := ih hbelow
          exact ⟨k :: address, hinside haddress⟩
        | _ =>
          cases h
          exact ⟨[k], hinside rfl⟩

end Shape

/-! ## Look-ups of pads -/

namespace Group

variable {g : Group α} {root : String}

theorem findById?_dotted (hd : (Shape.ofGroup g).Dotted root) (path : String) :
    g.findById? (root ++ "." ++ path) = (Shape.ofGroup g).findById? (root ++ "." ++ path) := by
  obtain ⟨own, -⟩ := hd
  have hne : (Shape.ofGroup g).id? ≠ some (root ++ "." ++ path) := by
    intro h
    have hpieces := congrArg (Text.piecesOf '.') (Option.some.inj (own.symm.trans h))
    rw [Text.piecesOf_dotted] at hpieces
    exact Text.piecesOf_ne_nil '.' path (List.self_eq_append_right.1 hpieces)
  rw [Shape.findById?_eq, if_neg hne, findById?, Shape.findAmong?_eq]
  rfl

/-- **Both look-ups find the same shape.** In a group with dotted ids a shape is found under the id of a path if and
only if it is found along the path and has that id; a path that goes on behind a pad finds the pad, which has another
one. The shape is one node of the group, as no two of its nodes have one id. -/
theorem findById?_eq_some_iff_findByPath? (g : Group α) (root : String) (hd : (Shape.ofGroup g).Dotted root) :
    (∀ path node, g.findById? (root ++ "." ++ path) = some node ↔
      g.findByPath? path = some node ∧ node.id? = some (root ++ "." ++ path)) ∧
    ∀ address address' node node', (Shape.ofGroup g).at? address = some node →
      (Shape.ofGroup g).at? address' = some node' → node.id? = node'.id? → address = address' := by
  refine ⟨fun path node => ?_, fun _ _ _ _ => hd.address_unique⟩
  rw [findById?_dotted hd]
  constructor
  · intro h
    obtain ⟨hid, address, haddress⟩ := Shape.exists_address_of_findById? h
    obtain ⟨names, hway⟩ := hd.exists_way haddress
    obtain ⟨own, hown, hpieces⟩ := hd.piecesOf_id hway
    cases hid.symm.trans hown
    rw [Text.piecesOf_dotted] at hpieces
    obtain rfl : Text.piecesOf '.' path = names := List.append_cancel_left hpieces
    exact ⟨hd.findBelow?_of_way hway (Text.piecesOf_ne_nil '.' path), hid⟩
  · rintro ⟨h, hid⟩
    have hbelow : Shape.findBelow? (Text.piecesOf '.' path) (Shape.ofGroup g).children = some node := h
    obtain ⟨address, haddress⟩ := Shape.exists_address_of_findBelow? hbelow
    obtain ⟨found, hfound⟩ := Shape.exists_findById?_of_at? haddress hid
    obtain ⟨hid', address', haddress'⟩ := Shape.exists_address_of_findById? hfound
    obtain rfl := hd.address_unique haddress haddress' (hid.trans hid'.symm)
    rw [hfound, ← haddress', haddress]

/-! ### Pads named like their group -/

/-- A group with two pads. -/
def innerPads : Shape ℚ :=
  .group { id? := some "b.b", baseId? := some "b", pos := ⟨0, 0⟩ } "inner" 1 [] [
    .circle { id? := some "b.b.b", baseId? := some "b", pos := ⟨1, 0⟩ } 1 none none,
    .circle { id? := some "b.b.c", baseId? := some "c", pos := ⟨2, 0⟩ } 1 none none]

/-- The group with two pads in a group of the same name, before another pad. -/
def outerPads : Group ℚ where
  frame := { id? := some "b", pos := ⟨0, 0⟩ }
  name := "outer"
  count := 1
  vars := []
  children := [innerPads, .circle { id? := some "b.c", baseId? := some "c", pos := ⟨3, 0⟩ } 1 none none]

theorem dotted_innerPads : innerPads.Dotted "b.b" := by
  refine .intro rfl (by simp [innerPads, Shape.children, Shape.frame]) (by decide) fun s hs base hbase => ?_
  obtain rfl | rfl := List.mem_pair.1 hs
  · cases hbase
    exact .leaf (by decide) rfl
  · cases hbase
    exact .leaf (by decide) rfl

theorem dotted_outerPads : (Shape.ofGroup outerPads).Dotted "b" := by
  refine .intro rfl ?_ (by decide) fun s hs base hbase => ?_
  · simp [outerPads, innerPads, Shape.ofGroup, Shape.children, Shape.frame]
  obtain rfl | rfl := List.mem_pair.1 hs
  · cases hbase
    exact dotted_innerPads
  · cases hbase
    exact .leaf (by decide) rfl

theorem findById?_eq_some_iff_findByPath?_pads :
    (Shape.ofGroup outerPads).Dotted "b" ∧
      ∃ node, outerPads.findById? ("b" ++ "." ++ "b.c") = some node ∧ outerPads.findByPath? "b.c" = some node ∧
        node.pos = ⟨2, 0⟩ := by
  refine ⟨dotted_outerPads, ?_⟩
  obtain ⟨hiff, -⟩ := findById?_eq_some_iff_findByPath? outerPads "b" dotted_outerPads
  have hfound : (outerPads.findById? ("b" ++ "." ++ "b.c")).map Shape.pos = some ⟨2, 0⟩ := by decide +kernel
  obtain ⟨node, hnode, hpos⟩ := Option.map_eq_some_iff.1 hfound
  exact ⟨node, hnode, ((hiff "b.c" node).1 hnode).1, hpos⟩

end Group

end BoardAtlas
