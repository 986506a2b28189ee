import BoardAtlas.Proofs.Shape.Lookups

/-!
# Where a path ends

A look-up by path takes one piece of the path after another and goes to the first shape of the next level that has it
for its own id. In a group it goes on to the end of the path. A shape that is not a group has nothing inside, and there
the look-up stops with the shape, whatever is left of the path.

* `Shape.FirstChild`, `Shape.find?_eq_some_iff`: the first shape of a level with an own id;
* `Shape.FirstWay`: the way from first shape to first shape;
* `Shape.findBelow?_eq_some_iff`: a look-up by pieces;
* **`Group.findByPath?_eq_some_iff`**: a look-up by path.
-/

namespace BoardAtlas

variable {α : Type}

namespace Shape

variable {t s node : Shape α} {base : String} {names pieces : List String} {address : List Nat} {k : Nat}

/-- The child at a place has the own id, and none before it has it. -/
structure FirstChild (t : Shape α) (base : String) (k : Nat) (s : Shape α) : Prop where
  here : t.children[k]? = some s
  named : s.frame.baseId? = some base
  first : ∀ j < k, ∀ s', t.children[j]? = some s' → s'.frame.baseId? ≠ some base

/-- **The way from first child to first child** that own ids lead along. -/
inductive FirstWay : Shape α → List String → List Nat → Shape α → Prop
  | here {t : Shape α} : FirstWay t [] [] t
  | inside {t s node : Shape α} {base : String} {names : List String} {k : Nat} {address : List Nat}
      (hs : FirstChild t base k s) (h : FirstWay s names address node) :
      FirstWay t (base :: names) (k :: address) node

theorem find?_eq_some_iff :
    t.children.find? (fun s => s.frame.baseId? == some base) = some s ↔ ∃ k, t.FirstChild base k s := by
  rw [List.find?_eq_some_iff_getElem]
  constructor
  · rintro ⟨hbase, k, hk, hs, hbefore⟩
    refine ⟨k, ?_, beq_iff_eq.1 hbase, fun j hj s' hs' => ?_⟩
    · rw [List.getElem?_eq_getElem hk, hs]
    · obtain ⟨hj', rfl⟩ := List.getElem?_eq_some_iff.1 hs'
      simpa using hbefore j hj
  · rintro ⟨k, hs, hbase, hbefore⟩
    obtain ⟨hk, rfl⟩ := List.getElem?_eq_some_iff.1 hs
    refine ⟨beq_iff_eq.2 hbase, k, hk, rfl, fun j hj => ?_⟩
    simpa using hbefore j hj _ (List.getElem?_eq_getElem (hj.trans hk))

theorem findBelow?_of_leaf (h : s.asGroup? = none) : findBelow? pieces s.children = none := by
  have hnone : s.children = [] := by
    cases s with
    | group => cases h
    | _ => rfl
  rw [hnone]
  cases pieces <;> rfl

/-- One piece leads to the first child with it for an own id; the look-up ends there when no piece is left or the child
is not a group, and else goes on inside it. -/
theorem findBelow?_cons_of_firstChild (hs : FirstChild t base k s) :
    findBelow? (base :: pieces) t.children =
      if pieces = [] ∨ s.asGroup? = none then some s else findBelow? pieces s.children := by
  rw [findBelow?, find?_eq_some_iff.2 ⟨k, hs⟩]
  cases pieces with
  | nil => simp
  | cons => cases s <;> simp [asGroup?, children]

/-- **A look-up by pieces** finds the shape that some of them lead to, one at least. They are all the pieces, unless the
shape is not a group. -/
theorem findBelow?_eq_some_iff :
    findBelow? pieces t.children = some node ↔
      ∃ names rest address, names ≠ [] ∧ pieces = names ++ rest ∧ FirstWay t names address node ∧
        (rest = [] ∨ node.asGroup? = none) := by
  induction pieces generalizing t with
  | nil =>
    constructor
    · rintro ⟨⟩
    · rintro ⟨names, rest, address, hne, hsplit, -⟩
      exact absurd (List.append_eq_nil_iff.1 hsplit.symm).1 hne
  | cons base pieces ih =>
    constructor
    · intro h
      obtain ⟨s, hfind⟩ : ∃ s, t.children.find? (fun s => s.frame.baseId? == some base) = some s := by
        rw [findBelow?] at h
        split at h
        · cases h
        · next s hfind => exact ⟨s, hfind⟩
      obtain ⟨k, hs⟩ := find?_eq_some_iff.1 hfind
      rw [findBelow?_cons_of_firstChild hs] at h
      split at h
      · next hend =>
        cases h
        exact ⟨[base], pieces, [k], List.cons_ne_nil _ _, rfl, .inside hs .here, hend⟩
      · obtain ⟨names, rest, address, -, rfl, hway, hend⟩ := ih.1 h
        exact ⟨base :: names, rest, k :: address, List.cons_ne_nil _ _, rfl, .inside hs hway, hend⟩
    · rintro ⟨names, rest, address, hne, hsplit, hway, hend⟩
      cases hway with
      | here => exact absurd rfl hne
      | @inside _ s _ _ names k address hs hway =>
        obtain ⟨rfl, rfl⟩ := List.cons.inj hsplit
        rw [findBelow?_cons_of_firstChild hs]
        cases hway with
        | here => exact if_pos hend
        | inside hs' hway' =>
          have hbelow := ih.2 ⟨_, rest, _, List.cons_ne_nil _ _, rfl, .inside hs' hway', hend⟩
          rw [if_neg]
          · exact hbelow
          · rintro (hnil | hleaf)
            · cases hnil
            · rw [findBelow?_of_leaf hleaf] at hbelow
              cases hbelow

end Shape

namespace Group

/-- **What a look-up by path finds.** A shape is found exactly when pieces from the beginning of the path lead to it,
each to the first shape of a level with that own id, and the path ends there or the shape is not a group. -/
theorem findByPath?_eq_some_iff (g : Group α) (path : String) (node : Shape α) :
    g.findByPath? path = some node ↔
      ∃ names rest address, names ≠ [] ∧ Text.piecesOf '.' path = names ++ rest ∧
        (Shape.ofGroup g).FirstWay names address node ∧ (rest = [] ∨ node.asGroup? = none) :=
  Shape.findBelow?_eq_some_iff (t := Shape.ofGroup g)

/-- A pad. -/
def lonePad : Shape Float :=
  .rect { id? := some "b.p1", baseId? := some "p1", pos := ⟨0, 0⟩ } ⟨1, 1⟩ none none none none

/-- **A path that goes on behind a pad** is answered with the pad, although the pieces of the path are not the way to
it. -/
theorem findByPath?_behind_pad :
    ¬ ∀ (g : Group Float) (path : String) (node : Shape Float), g.findByPath? path = some node →
      ∃ address, (Shape.ofGroup g).Way (Text.piecesOf '.' path) address node := by
  intro h
  obtain ⟨address, hway⟩ := h (wrap "b" [lonePad]) "p1.x" lonePad rfl
  have hpieces : Text.piecesOf '.' "p1.x" = ["p1", "x"] := by decide
  rw [hpieces] at hway
  -- The pad is the only child, and it has none itself.
  obtain - | ⟨hs, -, hway⟩ := hway
  obtain rfl := List.mem_singleton.1 (List.mem_of_getElem? hs)
  obtain - | ⟨hs', -, -⟩ := hway
  cases List.mem_of_getElem? hs'

end Group

end BoardAtlas
