import BoardAtlas.Board.Docs
import BoardAtlas.Variant.Draft
import BoardAtlas.Shape.Builder
import BoardAtlas.Shape.Label

/-!
# Resolving boards

A resolved board has the shapes of its templates and of its own, side by side in one group for each side. As
shapes need not end, boards are followed to a depth like them.

* `Tables`, `Tables.load`: what is read once;
* `Resolver`: a library with the tables;
* `ShapeSource`, `sourcesOf`: what contributes shapes, templates first;
* **`Resolver.resolve`**: a board with its shapes;
* `BoardDrawing`, `Resolver.draw`, `Resolver.document`, `Resolver.generate`: what is made of a board;
* `BatchReport`, **`Resolver.resolveAll`**: many boards, each on its own.
-/

namespace BoardAtlas

/-! ## Tables -/

/-- The tables that are read once. -/
structure Tables where
  presets : PresetTable
  roles : RoleRegistry
  flashTitles : Dict Value

namespace Tables

/-- The roles of a table. -/
def rolesOf (table : Dict Value) : Except BoardError RoleRegistry := do
  let entries ← table.mapM fun (name, v) =>
    ((v.readAs ("role " ++ name) RoleEntry.ofJson).map fun e => (name, e)).mapError
      (BoardError.table .roles)
  (RoleRegistry.ofEntries entries).mapError .roles

/-- A table of a library. -/
def read (lib : Library) (kind : TableKind) : Loading BoardError (Dict Value) :=
  (lib.table kind).mapError (.table kind)

/-- Reads the tables of a library. -/
def load (lib : Library) : Loading BoardError Tables := do
  let presets ← read lib .presets
  let roles ← Loading.ofExcept (rolesOf (← read lib .roles))
  let flashTitles ← read lib .flash
  pure ⟨presets, roles, flashTitles⟩

end Tables

/-- A library with its tables. -/
structure Resolver where
  library : Library
  tables : Tables
  /-- Of pins with one alias the first keeps it, and the others are no error. -/
  lenient : Bool := false

/-! ## Shapes -/

/-- What contributes shapes to a board: a template or the board itself. -/
structure ShapeSource where
  path : String
  owner : String
  vars : Vars
  front : List Value
  back : List Value

/-- The fragments of a side. -/
def ShapeSource.side (s : ShapeSource) : Side → List Value
  | .front => s.front
  | .back => s.back

namespace Resolver

variable [Calculator] (r : Resolver)

/-- A template by name. -/
def template (name : String) : Loading ManifestError Template := do
  let manifest ← r.library.manifest .template name
  Loading.ofExcept (manifest.readAs ("template " ++ name) Template.ofJson)

/-- The templates of a board, with their names. -/
def templates (board : String) : List String → Loading BoardError (List (String × Template))
  | [] => pure []
  | name :: rest => do
    let t ← (r.template name).mapError (.manifest board)
    let more ← templates board rest
    pure ((name, t) :: more)

/-- The variables that a board always has, written over its own. -/
def boardVars (b : Board) (p : Pcb) : Vars :=
  ((p.vars.insert "NAME" (.str b.id)).insert "TITLE" (.str b.name)).insert "SYMBOL" (.str p.symbol)

/-- The source of a template; the variables of the board are written over its own. -/
def templateSource (b : Board) (vars : Vars) (name : String) (t : Template) : ShapeSource where
  path := "templates/" ++ name
  owner := (t.id.or t.name).getD b.id
  vars := t.vars.extend vars
  front := t.front
  back := t.back

/-- The source of a board itself. -/
def ownSource (b : Board) (p : Pcb) (vars : Vars) : ShapeSource where
  path := "pcb"
  owner := p.id.getD b.id
  vars
  front := p.front
  back := p.back

/-- What contributes shapes to a board: its templates, then the board itself. -/
def sourcesOf (b : Board) (p : Pcb) (templates : List (String × Template)) : List ShapeSource :=
  let vars := boardVars b p
  (templates.map fun (name, t) => templateSource b vars name t) ++ [ownSource b p vars]

/-- The shapes of one source on a side. -/
def sourceShapes (depth : Nat) (side : Side) (s : ShapeSource) :
    Loading (Stop ShapeError) (List (Shape Float)) :=
  let scope : Scope := ⟨some (s.owner ++ "." ++ side.name), s.vars, s.path ++ "." ++ side.name⟩
  (ShapeBuilder.mk r.library r.tables.presets).buildList depth scope (s.side side) Vec.zero

/-- The shapes of sources on a side, one source after the other. -/
def sideShapes (depth : Nat) (side : Side) :
    List ShapeSource → Loading (Stop ShapeError) (List (Shape Float))
  | [] => pure []
  | s :: rest => do
    let shapes ← r.sourceShapes depth side s
    let more ← sideShapes depth side rest
    pure (shapes ++ more)

/-- The group of a side. -/
def sideGroup (depth : Nat) (name : String) (sources : List ShapeSource) (side : Side) :
    Loading (Stop ShapeError) (Side × Group Float) := do
  let shapes ← r.sideShapes depth side sources
  pure (side, Group.wrap (name ++ "." ++ side.name) shapes)

/-- The physical part of a board with the pads of its templates and the shapes of both sides. -/
def assemble (depth : Nat) (name : String) (b : Board) (p : Pcb) : Loading (Stop BoardError) Pcb := do
  let templates ← (r.templates b.id p.templates).mapError .failed
  let sources := sourcesOf b p templates
  let front ← (r.sideGroup depth name sources .front).mapError (.map (.shape b.id))
  let back ← (r.sideGroup depth name sources .back).mapError (.map (.shape b.id))
  pure { p with
    vars := boardVars b p
    pads := templates.foldl (fun pads (_, t) => pads.extend t.pads) p.pads
    testPads := templates.foldl (fun pads (_, t) => pads.extend t.testPads) p.testPads
    shapes := [front, back] }

/-- **A board with its shapes.** -/
def resolve (depth : Nat) (name : String) : Loading (Stop BoardError) Board := do
  let manifest ← (r.library.board name).mapError fun e => .failed (.manifest name e)
  let b ← Loading.ofExcept ((Board.ofManifest name manifest r.tables.flashTitles).mapError .failed)
  match b.pcb with
  | none => pure b
  | some p =>
    let p ← r.assemble depth name b p
    pure { b with pcb := some p }

end Resolver

/-! ## Drawings -/

/-- A drawn side. -/
structure SideDrawing where
  side : Side
  shapes : Group Float
  labels : LabelSet Float
  /-- The box of shapes and labels. -/
  bounds : Bounds Float

/-- A drawn board; without a physical part it has no sides. -/
structure BoardDrawing where
  board : String
  title : String
  scale : Option Float
  sides : List SideDrawing

namespace Resolver

variable (r : Resolver)

/-- A side with the labels of its pins. -/
def drawSide (p : Pcb) (side : Side) (shapes : Group Float) : SideDrawing :=
  let labels := LabelSet.ofSide r.tables.roles shapes p.allPads p.pinout p.pinoutHidden
  let bounds := match labels.bounds? with
    | some box => shapes.bounds.union box
    | none => shapes.bounds
  ⟨side, shapes, labels, bounds⟩

/-- The drawing of a resolved board. -/
def draw (b : Board) : BoardDrawing :=
  match b.pcb with
  | none => ⟨b.id, b.name, none, []⟩
  | some p => ⟨b.id, b.name, p.scale, p.shapes.map fun (side, shapes) => r.drawSide p side shapes⟩

/-- The documentation of a resolved board. -/
def document (b : Board) : BoardDocs := BoardDocs.ofBoard b r.tables.roles

/-- The variant facts of a resolved board. -/
def generate (b : Board) : Except BoardError VariantFacts :=
  VariantFacts.ofBoard r.tables.roles r.lenient b

end Resolver

/-- The document of a side that is drawn. -/
def SideDrawing.toJson (d : SideDrawing) : Json :=
  .obj [("side", .str d.side.name), ("shapes", d.shapes.toJson), ("labels", d.labels.toJson),
    ("bounds", d.bounds.toJson)]

/-- The document of a drawing. -/
def BoardDrawing.toJson (d : BoardDrawing) : Json :=
  .obj [("board", .str d.board), ("title", .str d.title), ("scale", Json.option .float d.scale),
    ("sides", .arr (d.sides.map SideDrawing.toJson))]

/-! ## Batches -/

/-- The name that stands for every board there is. -/
def allBoards : String := "all"

/-- A board that failed. -/
structure BoardFailure where
  board : String
  error : BoardError

/-- The boards of a batch that are resolved, and those that are not. -/
structure BatchReport where
  boards : List Board := []
  failures : List BoardFailure := []

namespace BatchReport

/-- Nothing failed. -/
def isOk (b : BatchReport) : Bool := b.failures.isEmpty

/-- The report of one more name: a board whose id an earlier one has is a failure. -/
def add (report : BatchReport) (name : String) : Except BoardError Board → BatchReport
  | .error e => { report with failures := report.failures ++ [⟨name, e⟩] }
  | .ok b =>
    match report.boards.find? fun first => first.id == b.id with
    | some first =>
      let error := .duplicateBoard b.id first.manifest name
      { report with failures := report.failures ++ [⟨name, error⟩] }
    | none => { report with boards := report.boards ++ [b] }

end BatchReport

namespace Resolver

variable [Calculator] (r : Resolver)

/-- The names of boards, where `all` stands for every one. -/
def expandNames (names : List String) : Except BoardError (List String) :=
  if names.contains allBoards then
    (r.library.names? .board false).mapError (.manifest allBoards)
  else .ok names

/-- Adds boards to a report, one after the other. -/
def resolveInto (depth : Nat) (report : BatchReport) : List String → Loading (Stop Empty) BatchReport
  | [] => pure report
  | name :: rest => do
    let b ← (r.resolve depth name).attempt
    resolveInto depth (report.add name b) rest

/-- **Resolves boards, each on its own**: a failure does not stop the others, but a board that is unfinished
does. -/
def resolveAll (depth : Nat) (names : List String) : Loading (Stop Empty) BatchReport :=
  match r.expandNames names with
  | .ok names => r.resolveInto depth {} names
  | .error e => pure { failures := [⟨allBoards, e⟩] }

end Resolver

end BoardAtlas
