import BoardAtlas.Board.Resolver
import BoardAtlas.Proofs.Library.Memory

/-!
# What a resolver reads

Shapes and boards read from the library of their builder or resolver and from nothing else, at any depth of
nested includes.

* `faithful_buildFrom`, `faithful_buildChildren`: lists and includes, for any way to build one shape;
* **`ShapeBuilder.faithful_buildWithin`**: one shape, by induction on the depth;
* **`Resolver.faithful_resolve`**: a board.
-/

namespace BoardAtlas

open Loading

/-! ## Shapes -/

section Shapes

variable {α : Type} [Coordinate α] {lib : Library} {build : BuildOne α}

theorem faithful_buildFrom (hb : ∀ scope data, (build scope data).Faithful lib) (scope : Scope)
    (offset : Vec α) (i : Nat) (items : List Value) :
    (buildFrom build scope offset i items).Faithful lib := by
  induction items generalizing i with
  | nil => exact faithful_pure []
  | cons data rest ih =>
    rw [buildFrom]
    exact (hb _ data).bind fun _ => (ih (i + 1)).bind fun _ => faithful_pure _

theorem faithful_buildNamed (hb : ∀ scope data, (build scope data).Faithful lib) (scope : Scope)
    (name : String) (offset : Vec α) : (buildNamed lib build scope name offset).Faithful lib := by
  rw [buildNamed]
  refine ((lib.faithful_manifest .shape name).mapError _).bind fun v => ?_
  cases v with
  | list items => exact faithful_buildFrom hb _ offset 0 items
  | _ => exact faithful_throw _

omit [Coordinate α] in
theorem faithful_buildTurns {turn : Nat → Loading (Stop ShapeError) (List (Shape α))}
    (ht : ∀ i, (turn i).Faithful lib) (i n : Nat) : (buildTurns turn i n).Faithful lib := by
  induction n generalizing i with
  | zero => exact faithful_pure []
  | succ n ih =>
    rw [buildTurns]
    exact (ht i).bind fun _ => (ih (i + 1)).bind fun _ => faithful_pure _

theorem faithful_buildChildren (hb : ∀ scope data, (build scope data).Faithful lib) (vars : Vars)
    (path : String) (frame : Frame α) (name : String) (count : Nat) :
    (buildChildren lib build vars path frame name count).Faithful lib :=
  faithful_buildTurns (fun _ => faithful_buildNamed hb _ name frame.pos) 0 count

variable [Calculator]

/-- **A shape reads from the library of its builder**, at any depth. -/
theorem ShapeBuilder.faithful_buildWithin (b : ShapeBuilder) (depth : Nat) (scope : Scope)
    (data : Value) :
    (b.buildWithin depth scope data : Loading (Stop ShapeError) (Shape α)).Faithful b.library := by
  induction depth generalizing scope data with
  | zero => exact faithful_throw _
  | succ depth ih =>
    rw [buildWithin]
    refine (faithful_ofExcept _).bind fun fragment => (faithful_ofExcept _).bind fun plan => ?_
    cases plan with
    | shape s => exact faithful_pure s
    | group frame name count =>
      exact (faithful_buildChildren ih _ _ frame name count).bind fun _ => faithful_pure _

theorem ShapeBuilder.faithful_buildList (b : ShapeBuilder) (depth : Nat) (scope : Scope) (items : List Value)
    (offset : Vec α) : (b.buildList depth scope items offset).Faithful b.library :=
  faithful_buildFrom (b.faithful_buildWithin depth) scope offset 0 items

end Shapes

/-! ## Boards -/

namespace Resolver

variable (r : Resolver)

theorem faithful_template (name : String) : (r.template name).Faithful r.library := by
  rw [template]
  exact (r.library.faithful_manifest .template name).bind fun _ => faithful_ofExcept _

theorem faithful_templates (board : String) (names : List String) :
    (r.templates board names).Faithful r.library := by
  induction names with
  | nil => exact faithful_pure []
  | cons name rest ih =>
    rw [templates]
    exact ((r.faithful_template name).mapError _).bind fun _ => ih.bind fun _ => faithful_pure _

variable [Calculator] (depth : Nat)

theorem faithful_sideShapes (side : Side) (sources : List ShapeSource) :
    (r.sideShapes depth side sources).Faithful r.library := by
  induction sources with
  | nil => exact faithful_pure []
  | cons s rest ih =>
    have hs : (r.sourceShapes depth side s).Faithful r.library :=
      (ShapeBuilder.mk r.library r.tables.presets).faithful_buildList depth _ _ _
    rw [sideShapes]
    exact hs.bind fun _ => ih.bind fun _ => faithful_pure _

theorem faithful_sideGroup (name : String) (sources : List ShapeSource) (side : Side) :
    (r.sideGroup depth name sources side).Faithful r.library := by
  rw [sideGroup]
  exact (r.faithful_sideShapes depth side sources).bind fun _ => faithful_pure _

theorem faithful_assemble (name : String) (b : Board) (p : Pcb) :
    (r.assemble depth name b p).Faithful r.library := by
  rw [assemble]
  refine ((r.faithful_templates b.id p.templates).mapError _).bind fun templates => ?_
  refine ((r.faithful_sideGroup depth name _ .front).mapError _).bind fun front => ?_
  exact ((r.faithful_sideGroup depth name _ .back).mapError _).bind fun _ => faithful_pure _

/-- **A board reads from the library of its resolver.** -/
theorem faithful_resolve (name : String) : (r.resolve depth name).Faithful r.library := by
  rw [resolve]
  refine ((r.library.faithful_board name).mapError _).bind fun manifest => ?_
  refine (faithful_ofExcept _).bind fun b => ?_
  cases b.pcb with
  | none => exact faithful_pure b
  | some p => exact (r.faithful_assemble depth name b p).bind fun _ => faithful_pure _

end Resolver

end BoardAtlas
