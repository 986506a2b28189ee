import BoardAtlas.Manifest.Typed

/-!
# Records of a board manifest

The parts of a board that are taken from its manifest as they are. A missing field is empty.

* `BuildRecord`, `UploadRecord`, `DebugRecord`: how a board is built for, flashed and debugged;
* `DocParams`, `DocRecord`: what its documentation says;
* `BoardRecord`, `PcbRecord`, `Template`: the manifests of boards and templates.
-/

namespace BoardAtlas

open Json (asText asNumber asNatural asOption asList asDict asValue asVars asRecord)

/-- How a board is built for. -/
structure BuildRecord where
  /-- The clock of the processor in Hertz, perhaps with a suffix. -/
  clock : String := ""
  family : String := ""
  mcu : String := ""
  variant : String := ""

namespace BuildRecord

/-- A clock is a text or any other value; `null` is empty. -/
def clockText : Json.Reader String
  | .null => .ok ""
  | v => .ok (Value.ofJson v).varText

/-- Reads the record. -/
def ofJson (v : Json) : Except String BuildRecord := do
  let fields ← asRecord ["f_cpu", "family", "mcu", "variant"] v
  pure {
    clock := ← fields.getOr "f_cpu" clockText ""
    family := ← fields.getOr "family" asText ""
    mcu := ← fields.getOr "mcu" asText ""
    variant := ← fields.getOr "variant" asText "" }

/-- The document of the record. -/
def toJson (r : BuildRecord) : Json :=
  .obj [("f_cpu", .str r.clock), ("family", .str r.family), ("mcu", .str r.mcu),
    ("variant", .str r.variant)]

end BuildRecord

/-- How a board is flashed. -/
structure UploadRecord where
  flashSize : Nat := 0
  maximumSize : Nat := 0
  maximumRamSize : Nat := 0
  protocol : Option String := none
  protocols : List String := []
  speed : Option Nat := none

namespace UploadRecord

/-- Reads the record. -/
def ofJson (v : Json) : Except String UploadRecord := do
  let fields ← asRecord
    ["flash_size", "maximum_size", "maximum_ram_size", "protocol", "protocols", "speed"] v
  pure {
    flashSize := ← fields.getOr "flash_size" asNatural 0
    maximumSize := ← fields.getOr "maximum_size" asNatural 0
    maximumRamSize := ← fields.getOr "maximum_ram_size" asNatural 0
    protocol := ← fields.getOr "protocol" (asOption asText) none
    protocols := ← fields.getOr "protocols" (asList asText) []
    speed := ← fields.getOr "speed" (asOption asNatural) none }

/-- The document of the record. -/
def toJson (r : UploadRecord) : Json :=
  .obj [("flash_size", .nat r.flashSize), ("maximum_size", .nat r.maximumSize),
    ("maximum_ram_size", .nat r.maximumRamSize), ("protocol", Json.text? r.protocol),
    ("protocols", Json.strings r.protocols), ("speed", Json.option Json.nat r.speed)]

end UploadRecord

/-- How a board is debugged. -/
structure DebugRecord where
  protocol : Option String := none
  protocols : List String := []

namespace DebugRecord

/-- Reads the record. -/
def ofJson (v : Json) : Except String DebugRecord := do
  let fields ← asRecord ["protocol", "protocols"] v
  pure {
    protocol := ← fields.getOr "protocol" (asOption asText) none
    protocols := ← fields.getOr "protocols" (asList asText) [] }

/-- The document of the record. -/
def toJson (r : DebugRecord) : Json :=
  .obj [("protocol", Json.text? r.protocol), ("protocols", Json.strings r.protocols)]

end DebugRecord

/-- The parameters in the documentation of a board. -/
structure DocParams where
  manufacturer : Option String := none
  series : Option String := none
  voltage : Option String := none
  extra : Dict String := []

namespace DocParams

/-- Reads the parameters. -/
def ofJson (v : Json) : Except String DocParams := do
  let fields ← asRecord ["manufacturer", "series", "voltage", "extra"] v
  pure {
    manufacturer := ← fields.getOr "manufacturer" (asOption asText) none
    series := ← fields.getOr "series" (asOption asText) none
    voltage := ← fields.getOr "voltage" (asOption asText) none
    extra := ← fields.getOr "extra" (asDict asText) [] }

/-- The document of the parameters. -/
def toJson (p : DocParams) : Json :=
  .obj [("manufacturer", Json.text? p.manufacturer), ("series", Json.text? p.series),
    ("voltage", Json.text? p.voltage), ("extra", Json.members .str p.extra)]

end DocParams

/-- What the documentation of a board says. -/
structure DocRecord where
  params : DocParams := {}
  links : Dict String := []
  extra : List String := []
  fccid : Option String := none

namespace DocRecord

/-- Reads the record. -/
def ofJson (v : Json) : Except String DocRecord := do
  let fields ← asRecord ["params", "links", "extra", "fccid"] v
  pure {
    params := ← fields.getOr "params" DocParams.ofJson {}
    links := ← fields.getOr "links" (asDict asText) []
    extra := ← fields.getOr "extra" (asList asText) []
    fccid := ← fields.getOr "fccid" (asOption asText) none }

/-- The document of the record. -/
def toJson (r : DocRecord) : Json :=
  .obj [("params", r.params.toJson), ("links", Json.members .str r.links),
    ("extra", Json.strings r.extra), ("fccid", Json.text? r.fccid)]

end DocRecord

/-! ## Manifests -/

/-- The manifest of a board but for its flash layout and its layout of pins. -/
structure BoardRecord where
  name : String
  vendor : String
  url : Option String
  symbol : Option String
  connectivity : List String
  frameworks : List String
  build : BuildRecord
  upload : UploadRecord
  debug : DebugRecord
  doc : DocRecord

/-- Reads what a board manifest says. -/
def BoardRecord.ofJson (v : Json) : Except String BoardRecord := do
  let fields ← asRecord ["name", "vendor", "url", "symbol", "connectivity", "frameworks", "build",
    "upload", "debug", "doc"] v
  pure {
    name := ← fields.getOr "name" asText ""
    vendor := ← fields.getOr "vendor" asText ""
    url := ← fields.getOr "url" (asOption asText) none
    symbol := ← fields.getOr "symbol" (asOption asText) none
    connectivity := ← fields.getOr "connectivity" (asList asText) []
    frameworks := ← fields.getOr "frameworks" (asList asText) []
    build := ← fields.getOr "build" BuildRecord.ofJson {}
    upload := ← fields.getOr "upload" UploadRecord.ofJson {}
    debug := ← fields.getOr "debug" DebugRecord.ofJson {}
    doc := ← fields.getOr "doc" DocRecord.ofJson {} }

/-- The physical part of a board manifest but for its pins. -/
structure PcbRecord where
  id : Option String
  name : Option String
  symbol : String
  templates : List String
  scale : Option Float
  vars : Dict Value
  front : List Value
  back : List Value
  pads : Dict String
  testPads : Dict String
  pinoutHidden : String

/-- Reads what a manifest says of the physical part. -/
def PcbRecord.ofJson (v : Json) : Except String PcbRecord := do
  let fields ← asRecord ["id", "name", "symbol", "templates", "scale", "vars", "front", "back",
    "pads", "test_pads", "pinout_hidden"] v
  pure {
    id := ← fields.getOr "id" (asOption asText) none
    name := ← fields.getOr "name" (asOption asText) none
    symbol := ← fields.getOr "symbol" asText ""
    templates := ← fields.getOr "templates" (asList asText) []
    scale := ← fields.getOr "scale" (asOption asNumber) none
    vars := ← fields.getOr "vars" asVars []
    front := ← fields.getOr "front" (asList asValue) []
    back := ← fields.getOr "back" (asList asValue) []
    pads := ← fields.getOr "pads" (asDict asText) []
    testPads := ← fields.getOr "test_pads" (asDict asText) []
    pinoutHidden := ← fields.getOr "pinout_hidden" asText "" }

/-- A drawing that boards of one shape share. -/
structure Template where
  id : Option String
  name : Option String
  title : String
  width : Float
  height : Float
  vars : Dict Value
  front : List Value
  back : List Value
  pads : Dict String
  testPads : Dict String

namespace Template

/-- Reads a template. -/
def ofJson (v : Json) : Except String Template := do
  let fields ← asRecord ["id", "name", "title", "width", "height", "vars", "front", "back", "pads",
    "test_pads"] v
  pure {
    id := ← fields.getOr "id" (asOption asText) none
    name := ← fields.getOr "name" (asOption asText) none
    title := ← fields.getOr "title" asText ""
    width := ← fields.getOr "width" asNumber 0
    height := ← fields.getOr "height" asNumber 0
    vars := ← fields.getOr "vars" asVars []
    front := ← fields.getOr "front" (asList asValue) []
    back := ← fields.getOr "back" (asList asValue) []
    pads := ← fields.getOr "pads" (asDict asText) []
    testPads := ← fields.getOr "test_pads" (asDict asText) [] }

/-- The document of a template. -/
def toJson (t : Template) : Json :=
  .obj [("id", Json.text? t.id), ("name", Json.text? t.name), ("title", .str t.title),
    ("width", .float t.width), ("height", .float t.height),
    ("vars", Json.members Value.toJson t.vars), ("front", .arr (t.front.map Value.toJson)),
    ("back", .arr (t.back.map Value.toJson)), ("pads", Json.members .str t.pads),
    ("test_pads", Json.members .str t.testPads)]

end Template

end BoardAtlas
