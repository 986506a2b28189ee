import BoardAtlas.Board.Record
import BoardAtlas.Board.Pinout
import BoardAtlas.Board.Flash
import BoardAtlas.Shape.Document

/-!
# Boards

* `Side`: the two sides of a board;
* `Pcb`, `Pcb.ofManifest`: the physical part of a board;
* `Board`, **`Board.ofManifest`**: a board as its manifest has it, without shapes;
* `Board.clockText`, `Board.flashText`, `Board.firmwareText`, `Board.ramText`: amounts for readers.
-/

namespace BoardAtlas

/-- A side of a board. -/
inductive Side where
  | front
  | back
  deriving DecidableEq, Repr

namespace Side

/-- Both sides, the front first. -/
def all : List Side := [front, back]

/-- The name of a side in manifests and documents. -/
def name : Side → String
  | front => "front"
  | back => "back"

end Side

/-- The physical part of a board. -/
structure Pcb where
  id : Option String
  symbol : String
  templates : List String
  scale : Option Float
  vars : Dict Value
  ic : Dict RoleMap
  front : List Value
  back : List Value
  pads : Dict String
  testPads : Dict String
  pinout : Dict RoleMap
  pinoutHidden : List String
  /-- The shapes of each side, once they are built. -/
  shapes : List (Side × Group Float) := []

namespace Pcb

/-- The names between commas, blank ones left out. -/
def hiddenNames (s : String) : List String :=
  ((Text.piecesOf ',' s).map Text.trimText).filter (· ≠ "")

/-- The physical part of a manifest. -/
def ofManifest (board : String) (manifest : Value) : Except BoardError Pcb := do
  let r ← (manifest.readAs "pcb" PcbRecord.ofJson).mapError (.manifest board)
  let pinout ← Pinout.ofValues board (manifest.get? "ic") (manifest.get? "pinout")
  pure {
    id := r.id.or r.name
    symbol := r.symbol
    templates := r.templates
    scale := r.scale
    vars := r.vars
    ic := pinout.ic
    front := r.front
    back := r.back
    pads := r.pads
    testPads := r.testPads
    pinout := pinout.pins
    pinoutHidden := hiddenNames r.pinoutHidden }

/-- The fragments of a side. -/
def side (p : Pcb) : Side → List Value
  | .front => p.front
  | .back => p.back

/-- Pads and test pads together; of two for one pin the test pad counts. -/
def allPads (p : Pcb) : Dict String := p.pads.extend p.testPads

/-- The document of the physical part. -/
def toJson (p : Pcb) : Json :=
  .obj [("id", Json.text? p.id), ("symbol", .str p.symbol),
    ("templates", Json.strings p.templates), ("scale", Json.option .float p.scale),
    ("vars", Json.members Value.toJson p.vars), ("ic", Json.members RoleMap.toJson p.ic),
    ("front", .arr (p.front.map Value.toJson)), ("back", .arr (p.back.map Value.toJson)),
    ("pads", Json.members .str p.pads), ("test_pads", Json.members .str p.testPads),
    ("pinout", Json.members RoleMap.toJson p.pinout),
    ("pinout_hidden", Json.strings p.pinoutHidden),
    ("shapes", .obj (p.shapes.map fun (side, g) => (side.name, g.toJson)))]

end Pcb

/-- A board. -/
structure Board where
  /-- The name of its variant, which no two boards of a batch share. -/
  id : String
  /-- The name of its manifest. -/
  manifest : String
  name : String
  vendor : String
  url : Option String
  connectivity : List String
  frameworks : List String
  build : BuildRecord
  upload : UploadRecord
  debug : DebugRecord
  doc : DocRecord
  flash : List FlashRegion
  pcb : Option Pcb

namespace Board

/-- The flash regions of a manifest; only an object is a layout. -/
def flashOf (id : String) (manifest titles : Dict Value) : Except BoardError (List FlashRegion) :=
  match manifest.get? "flash" with
  | some (.obj layout) => FlashRegion.ofLayout id layout titles
  | _ => .ok []

/-- The physical part of a manifest, which must be an object. -/
def pcbOf (id : String) (manifest : Dict Value) : Except BoardError (Option Pcb) :=
  match manifest.get? "pcb" with
  | some (.obj members) => (Pcb.ofManifest id (.obj members)).map some
  | _ => .ok none

/-- **The board of a manifest**, without shapes. -/
def ofManifest (manifestName : String) (manifest : Value) (titles : Dict Value) :
    Except BoardError Board := do
  let r ← (manifest.readAs "board" BoardRecord.ofJson).mapError (.manifest manifestName)
  let id := r.build.variant
  let members := manifest.members?.getD []
  let flash ← flashOf id members titles
  let pcb ← pcbOf id members
  pure {
    id
    manifest := manifestName
    name := r.name
    vendor := r.vendor
    url := r.url
    connectivity := r.connectivity
    frameworks := r.frameworks
    build := r.build
    upload := r.upload
    debug := r.debug
    doc := r.doc
    flash
    pcb }

/-! ## Amounts -/

/-- The size of the flash memory. -/
def flashText (b : Board) : String := byteSize b.upload.flashSize

/-- The size that firmware may have. -/
def firmwareText (b : Board) : String := byteSize b.upload.maximumSize

/-- The size of the memory. -/
def ramText (b : Board) : String := byteSize b.upload.maximumRamSize

/-- The clock of the processor, from the digits of its text. -/
def clockText (b : Board) : String :=
  let digits := b.build.clock.toList.filter Char.isDigit
  sizeText ((readNumber? digits).getD 0) "Hz" 1000

/-- The board runs the Arduino framework. -/
def hasArduinoCore (b : Board) : Bool := b.frameworks.contains "arduino"

/-- The pins of a board, if it has some. -/
def pins? (b : Board) : Option (Dict RoleMap) :=
  (b.pcb.map Pcb.pinout).filter fun pins => !pins.isEmpty

/-- The document of a board. -/
def toJson (b : Board) : Json :=
  .obj [("id", .str b.id), ("manifest", .str b.manifest), ("name", .str b.name),
    ("vendor", .str b.vendor), ("url", Json.text? b.url),
    ("connectivity", Json.strings b.connectivity), ("frameworks", Json.strings b.frameworks),
    ("build", b.build.toJson), ("upload", b.upload.toJson), ("debug", b.debug.toJson),
    ("doc", b.doc.toJson), ("flash", .arr (b.flash.map FlashRegion.toJson)),
    ("pcb", Json.option Pcb.toJson b.pcb)]

end Board

end BoardAtlas
