import BoardAtlas.Board.Resolver
import BoardAtlas.Formula.Reader
import BoardAtlas.Proofs.Writes
import BoardAtlas.Proofs.Manifest.Records

/-!
# Composed boards

A resolved board is composed of its templates and its own part, in an order for each kind of thing. Shapes stand
side by side, those of the templates first and the board's own last. Of variables the three that every board has
count before its own, and both before those of the template that sees them; no other template sees those. Of pads
those of a later template count before those of an earlier one, and the board's own last. Pads and test pads are
two dictionaries, each of them composed so.

* `fixedVars`, `layered_templateVars`: the variables of a source;
* `Template.distinct_pads`, `Board.distinct_vars`: the dictionaries that are read repeat no keys;
* `Builds`: the shapes of a source;
* `templates_eq_ok`, `sideShapes_concat_eq_ok`, `assemble_eq_ok`: what the steps of a resolution make;
* **`composition_of_resolve`**: a resolved board.
-/

namespace BoardAtlas

namespace Resolver

/-! ## Variables -/

section Vars

variable {b : Board} {own : Pcb}

/-- The variables that every board has. -/
def fixedVars (b : Board) (own : Pcb) : Vars :=
  [("NAME", .str b.id), ("TITLE", .str b.name), ("SYMBOL", .str own.symbol)]

theorem layered_boardVars (b : Board) (own : Pcb) : Dict.Layered [fixedVars b own, own.vars] (boardVars b own) := by
  have hfixed : (fixedVars b own).Distinct := by
    simp [fixedVars, Dict.Distinct, Dict.keys]
  exact Dict.layered_extend (Dict.layered_singleton (fixedVars b own)) (Dict.layered_singleton own.vars) hfixed

theorem distinct_boardVars (h : Dict.Distinct own.vars) : Dict.Distinct (boardVars b own) :=
  Dict.distinct_extend h (fixedVars b own)

/-- A template sees its own variables and those of the board, which count first. -/
theorem layered_templateVars (h : Dict.Distinct own.vars) (t : Template) :
    Dict.Layered [fixedVars b own, own.vars, t.vars] (t.vars.extend (boardVars b own)) :=
  Dict.layered_extend (layered_boardVars b own) (Dict.layered_singleton t.vars) (distinct_boardVars h)

end Vars

end Resolver

/-! ## Dictionaries that are read -/

/-- The dictionaries of a template that is read repeat no keys. -/
theorem Template.distinct_pads {v : Value} (hv : v.Distinct) {what : String} {t : Template}
    (h : v.readAs what Template.ofJson = .ok t) : Dict.Distinct t.pads ∧ Dict.Distinct t.testPads := by
  have hread : Template.ofJson v.toJson = .ok t := Except.mapError_eq_ok.1 h
  rw [Template.ofJson] at hread
  simp only [Except.bind_eq_ok] at hread
  obtain ⟨fields, hfields, id, -, name, -, title, -, width, -, height, -, vars, -, front, -, back, -,
    pads, hpads, testPads, htestPads, hread⟩ := hread
  cases hread
  have hplain := Json.plain_of_asRecord hv hfields
  exact ⟨Json.distinct_of_getOr_asDict hplain hpads, Json.distinct_of_getOr_asDict hplain htestPads⟩

theorem Pcb.distinct_vars {v : Value} (hv : v.Distinct) {board : String} {p : Pcb}
    (h : Pcb.ofManifest board v = .ok p) : Dict.Distinct p.vars := by
  rw [Pcb.ofManifest] at h
  obtain ⟨r, hr, h⟩ := Except.bind_eq_ok.1 h
  obtain ⟨pinout, -, h⟩ := Except.bind_eq_ok.1 h
  cases h
  have hread : PcbRecord.ofJson v.toJson = .ok r := Except.mapError_eq_ok.1 (Except.mapError_eq_ok.1 hr)
  rw [PcbRecord.ofJson] at hread
  simp only [Except.bind_eq_ok] at hread
  obtain ⟨fields, hfields, id, -, name, -, symbol, -, templates, -, scale, -, vars, hvars, front, -, back, -,
    pads, -, testPads, -, hidden, -, hread⟩ := hread
  cases hread
  exact Json.distinct_of_getOr_asDict (Json.plain_of_asRecord hv hfields) hvars

theorem Board.distinct_vars {name : String} {manifest : Value} (hv : manifest.Distinct) {titles : Dict Value}
    {b : Board} {own : Pcb} (h : Board.ofManifest name manifest titles = .ok b) (hp : b.pcb = some own) :
    Dict.Distinct own.vars := by
  rw [Board.ofManifest] at h
  obtain ⟨r, -, h⟩ := Except.bind_eq_ok.1 h
  obtain ⟨flash, -, h⟩ := Except.bind_eq_ok.1 h
  obtain ⟨pcb, hpcb, h⟩ := Except.bind_eq_ok.1 h
  cases h
  change pcb = some own at hp
  rw [pcbOf] at hpcb
  split at hpcb
  · next members hmembers =>
    obtain ⟨p, hread, rfl⟩ := Except.map_eq_ok.1 hpcb
    cases hp
    cases manifest with
    | obj fields => exact Pcb.distinct_vars (hv.of_get? hmembers) hread
    | _ => cases hmembers
  · cases hpcb
    cases hp

/-- The fragments of a side. -/
def Template.side (t : Template) : Side → List Value
  | .front => t.front
  | .back => t.back

namespace Resolver

section Composition

variable [Calculator] {r : Resolver} {depth : Nat}

/-! ## The steps of a resolution -/

/-- **The shapes of a source**: those of its list for a side, under the id of its owner there. -/
def Builds (r : Resolver) (depth : Nat) (side : Side) (owner label : String) (vars : Vars) (fragments : List Value)
    (shapes : List (Shape Float)) : Prop :=
  ((ShapeBuilder.mk r.library r.tables.presets).buildList depth
    ⟨some (owner ++ "." ++ side.name), vars, label ++ "." ++ side.name⟩ fragments Vec.zero).result = .ok shapes

omit [Calculator] in
theorem templates_eq_ok {board : String} {names : List String} {templates : List (String × Template)}
    (h : (r.templates board names).result = .ok templates) :
    List.Forall₂ (fun n e => e.1 = n ∧ (r.template n).result = .ok e.2) names templates := by
  induction names generalizing templates with
  | nil =>
    cases h
    exact .nil
  | cons n rest ih =>
    rw [Resolver.templates, Loading.result_bind] at h
    obtain ⟨t, ht, h⟩ := Except.bind_eq_ok.1 h
    rw [Loading.result_bind] at h
    obtain ⟨more, hmore, h⟩ := Except.bind_eq_ok.1 h
    cases h
    exact .cons ⟨rfl, Except.mapError_eq_ok.1 ht⟩ (ih hmore)

theorem sideShapes_concat_eq_ok {side : Side} {sources : List ShapeSource} {s : ShapeSource}
    {shapes : List (Shape Float)} (h : (r.sideShapes depth side (sources ++ [s])).result = .ok shapes) :
    ∃ parts last, shapes = parts.flatten ++ last ∧
      List.Forall₂ (fun s part => r.Builds depth side s.owner s.path s.vars (s.side side) part) sources parts ∧
      r.Builds depth side s.owner s.path s.vars (s.side side) last := by
  induction sources generalizing shapes with
  | nil =>
    rw [List.nil_append, sideShapes, Loading.result_bind] at h
    obtain ⟨last, hlast, h⟩ := Except.bind_eq_ok.1 h
    cases h
    exact ⟨[], last, List.append_nil last, .nil, hlast⟩
  | cons first rest ih =>
    rw [List.cons_append, sideShapes, Loading.result_bind] at h
    obtain ⟨part, hpart, h⟩ := Except.bind_eq_ok.1 h
    rw [Loading.result_bind] at h
    obtain ⟨more, hmore, h⟩ := Except.bind_eq_ok.1 h
    cases h
    obtain ⟨parts, last, rfl, hparts, hlast⟩ := ih hmore
    exact ⟨part :: parts, last, by rw [List.flatten_cons, List.append_assoc], .cons hpart hparts, hlast⟩

theorem sideGroup_eq_ok {name : String} {sources : List ShapeSource} {side : Side} {group : Side × Group Float}
    (h : (r.sideGroup depth name sources side).result = .ok group) :
    ∃ shapes, (r.sideShapes depth side sources).result = .ok shapes ∧
      group = (side, Group.wrap (name ++ "." ++ side.name) shapes) := by
  rw [sideGroup, Loading.result_bind] at h
  obtain ⟨shapes, hshapes, h⟩ := Except.bind_eq_ok.1 h
  cases h
  exact ⟨shapes, hshapes, rfl⟩

theorem assemble_eq_ok {name : String} {b : Board} {own p : Pcb} (h : (r.assemble depth name b own).result = .ok p) :
    ∃ (templates : List (String × Template)) (sides : Side → List (Shape Float)),
      (r.templates b.id own.templates).result = .ok templates ∧
      (∀ side, (r.sideShapes depth side (sourcesOf b own templates)).result = .ok (sides side)) ∧
      p.shapes = Side.all.map (fun side => (side, Group.wrap (name ++ "." ++ side.name) (sides side))) ∧
      p.pads = templates.foldl (fun pads e => pads.extend e.2.pads) own.pads ∧
      p.testPads = templates.foldl (fun pads e => pads.extend e.2.testPads) own.testPads := by
  rw [assemble, Loading.result_bind] at h
  obtain ⟨templates, htemplates, h⟩ := Except.bind_eq_ok.1 h
  rw [Loading.result_bind] at h
  obtain ⟨front, hfront, h⟩ := Except.bind_eq_ok.1 h
  rw [Loading.result_bind] at h
  obtain ⟨back, hback, h⟩ := Except.bind_eq_ok.1 h
  cases h
  obtain ⟨frontShapes, hfrontShapes, rfl⟩ := sideGroup_eq_ok (Except.mapError_eq_ok.1 hfront)
  obtain ⟨backShapes, hbackShapes, rfl⟩ := sideGroup_eq_ok (Except.mapError_eq_ok.1 hback)
  refine ⟨templates, fun side => match side with | .front => frontShapes | .back => backShapes,
    Except.mapError_eq_ok.1 htemplates, ?_, rfl, rfl, rfl⟩
  rintro (_ | _)
  · exact hfrontShapes
  · exact hbackShapes

theorem resolve_eq_ok {name : String} {board : Board} {p : Pcb} (h : (r.resolve depth name).result = .ok board)
    (hp : board.pcb = some p) :
    ∃ manifest b own, (r.library.board name).result = .ok manifest ∧
      Board.ofManifest name manifest r.tables.flashTitles = .ok b ∧ b.pcb = some own ∧
      board = { b with pcb := some p } ∧ (r.assemble depth name b own).result = .ok p := by
  rw [resolve, Loading.result_bind] at h
  obtain ⟨manifest, hmanifest, h⟩ := Except.bind_eq_ok.1 h
  rw [Loading.result_bind] at h
  obtain ⟨b, hb, h⟩ := Except.bind_eq_ok.1 h
  cases hown : b.pcb with
  | none =>
    simp only [hown, Loading.result_pure] at h
    cases h
    rw [hown] at hp
    cases hp
  | some own =>
    simp only [hown, Loading.result_bind] at h
    obtain ⟨p', hp', h⟩ := Except.bind_eq_ok.1 h
    cases h
    cases hp
    exact ⟨manifest, b, own, Except.mapError_eq_ok.1 hmanifest, Except.mapError_eq_ok.1 hb, hown, rfl, hp'⟩

/-! ## Resolved boards -/

omit [Calculator] in
theorem distinct_pads_of_templates (hlib : ∀ kind name v, r.library.manifest? kind name = .ok v → v.Distinct)
    {names : List String} {templates : List (String × Template)}
    (h : List.Forall₂ (fun n e => e.1 = n ∧ (r.template n).result = .ok e.2) names templates) :
    ∀ e ∈ templates, Dict.Distinct e.2.pads ∧ Dict.Distinct e.2.testPads := by
  induction h with
  | nil => simp
  | cons hfirst _ ih =>
    obtain ⟨-, hfirst⟩ := hfirst
    rw [template, Loading.result_bind, Library.result_manifest] at hfirst
    obtain ⟨v, hv, hread⟩ := Except.bind_eq_ok.1 hfirst
    exact List.forall_mem_cons.2 ⟨Template.distinct_pads (hlib _ _ _ hv) hread, ih⟩

/-- **A composed board** is the board of its manifest with the shapes of its templates, in their order, before its
own. What it and each template see are the variables of the board under `NAME`, `TITLE` and `SYMBOL`, and a pad is
that of the last template with the pin. -/
theorem composition_of_resolve (r : Resolver) (depth : Nat) (name : String) (board : Board) (p : Pcb)
    (hlib : ∀ kind name v, r.library.manifest? kind name = .ok v → v.Distinct)
    (h : (r.resolve depth name).result = .ok board) (hp : board.pcb = some p) :
    ∃ (manifest : Value) (b : Board) (own : Pcb) (templates : List (String × Template))
      (sides : Side → List (Shape Float)),
      (r.library.board name).result = .ok manifest ∧
      Board.ofManifest name manifest r.tables.flashTitles = .ok b ∧ b.pcb = some own ∧
      board = { b with pcb := some p } ∧
      List.Forall₂ (fun n e => e.1 = n ∧ (r.template n).result = .ok e.2) own.templates templates ∧
      p.shapes = Side.all.map (fun side => (side, Group.wrap (name ++ "." ++ side.name) (sides side))) ∧
      (∀ side, ∃ parts last, sides side = parts.flatten ++ last ∧
        List.Forall₂ (fun e part => ∃ vars, Dict.Layered [fixedVars b own, own.vars, e.2.vars] vars ∧
          r.Builds depth side ((e.2.id.or e.2.name).getD b.id) ("templates/" ++ e.1) vars (e.2.side side) part)
          templates parts ∧
        ∃ vars, Dict.Layered [fixedVars b own, own.vars] vars ∧
          r.Builds depth side (own.id.getD b.id) "pcb" vars (own.side side) last) ∧
      Dict.Layered ((templates.map fun e => e.2.pads).reverse ++ [own.pads]) p.pads ∧
      Dict.Layered ((templates.map fun e => e.2.testPads).reverse ++ [own.testPads]) p.testPads := by
  obtain ⟨manifest, b, own, hmanifest, hb, hown, hboard, hassemble⟩ := resolve_eq_ok h hp
  obtain ⟨templates, sides, htemplates, hsides, hshapes, hpads, htestPads⟩ := assemble_eq_ok hassemble
  have hread := templates_eq_ok htemplates
  have hvars := Board.distinct_vars (Library.distinct_board hlib hmanifest) hb hown
  have hdistinct := distinct_pads_of_templates hlib hread
  refine ⟨manifest, b, own, templates, sides, hmanifest, hb, hown, hboard, hread, hshapes, fun side => ?_, ?_, ?_⟩
  · obtain ⟨parts, last, hsplit, hparts, hlast⟩ := sideShapes_concat_eq_ok (hsides side)
    refine ⟨parts, last, hsplit, ?_, _, layered_boardVars b own, ?_⟩
    · rw [List.forall₂_map_left_iff] at hparts
      refine hparts.imp fun e part hpart => ⟨_, layered_templateVars hvars e.2, ?_⟩
      cases side <;> exact hpart
    · cases side <;> exact hlast
  · rw [hpads]
    exact Dict.layered_foldl_extend (Dict.layered_singleton own.pads) templates fun e he => (hdistinct e he).1
  · rw [htestPads]
    exact Dict.layered_foldl_extend (Dict.layered_singleton own.testPads) templates fun e he => (hdistinct e he).2

end Composition

/-! ### A board with two templates -/

section Module

open scoped BoardAtlas.Expr

/-- A text shape in a list of fragments. -/
def textFragment (id text : String) : Value :=
  .obj [("type", .str "text"), ("id", .str id), ("text", .str text), ("font_size", .str "2")]

/-- A board with a variable that one of its templates has as well, and with a title that is never seen. -/
def moduleManifest? : ManifestKind → String → Except ManifestError Value
  | .board, "module" => .ok (.obj [("name", .str "Module"), ("build", .obj [("variant", .str "m1")]),
      ("pcb", .obj [("templates", .list [.str "dip", .str "shield"]),
        ("vars", .obj [("w", .str "own"), ("TITLE", .str "hidden")]),
        ("front", .list [textFragment "logo" "$\x7bTITLE\x7d $\x7bw\x7d"]),
        ("pads", .obj [("1", .str "a"), ("2", .str "b"), ("3", .str "c")])])])
  | .template, "dip" => .ok (.obj [("name", .str "body"), ("vars", .obj [("w", .str "dip"), ("d", .str "dip")]),
      ("front", .list [textFragment "outline" "$\x7bw\x7d $\x7bd\x7d"]),
      ("pads", .obj [("1", .str "dip1"), ("2", .str "dip2")])])
  | .template, "shield" => .ok (.obj [("pads", .obj [("2", .str "shield2")])])
  | kind, name => .error (.notFound kind name)

/-- A resolver over these manifests alone. -/
def moduleResolver : Resolver where
  library := { manifest? := moduleManifest?, table? := fun _ => .ok [], names? := fun _ _ => .ok [] }
  tables := ⟨[], .empty, []⟩

/-- The ids and texts of the texts among shapes. -/
def writtenTexts (shapes : List (Shape Float)) : List (Option String × String) :=
  shapes.filterMap fun s =>
    match s with
    | .text frame text _ _ => some (frame.id?, text)
    | _ => none

/-- The pads of a board that resolves at depth 1, and the texts of its sides. -/
def padsAndTexts? (r : Resolver) (name : String) : Option (Dict String × List (List (Option String × String))) :=
  (r.resolve 1 name).result.toOption.bind fun board =>
    board.pcb.map fun p => (p.pads, p.shapes.map fun side => writtenTexts side.2.children)

theorem composition_of_resolve_module :
    (∀ kind name v, moduleResolver.library.manifest? kind name = .ok v → v.Distinct) ∧
      moduleResolver.padsAndTexts? "module" =
        some ([("1", "dip1"), ("2", "shield2"), ("3", "c")],
          [[(some "body.front.outline", "own dip"), (some "m1.front.logo", "Module own")], []]) ∧
      ∃ (board : Board) (p own : Pcb) (templates : List (String × Template)),
        (moduleResolver.resolve 1 "module").result = .ok board ∧ board.pcb = some p ∧
        List.Forall₂ (fun n e => e.1 = n ∧ (moduleResolver.template n).result = .ok e.2) own.templates templates ∧
        Dict.Layered ((templates.map fun e => e.2.pads).reverse ++ [own.pads]) p.pads := by
  have hlib : ∀ kind name v, moduleResolver.library.manifest? kind name = .ok v → v.Distinct := by
    intro kind name v hv
    change moduleManifest? kind name = .ok v at hv
    unfold moduleManifest? at hv
    split at hv <;> cases hv <;>
      simp [textFragment, Value.Distinct, Value.DistinctItems, Value.DistinctMembers, Dict.Distinct, Dict.keys]
  have hseen : moduleResolver.padsAndTexts? "module" =
      some ([("1", "dip1"), ("2", "shield2"), ("3", "c")],
        [[(some "body.front.outline", "own dip"), (some "m1.front.logo", "Module own")], []]) := by decide +kernel
  obtain ⟨board, hboard, hpcb⟩ := Option.bind_eq_some_iff.1 hseen
  obtain ⟨p, hp, -⟩ := Option.map_eq_some_iff.1 hpcb
  have hresolve := Except.toOption_eq_some.1 hboard
  obtain ⟨-, -, own, templates, -, -, -, -, -, htemplates, -, -, hpads, -⟩ :=
    composition_of_resolve moduleResolver 1 "module" board p hlib hresolve hp
  exact ⟨hlib, hseen, board, p, own, templates, hresolve, hp, htemplates, hpads⟩

end Module

end Resolver

end BoardAtlas
