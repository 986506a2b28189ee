import BoardAtlas.Board.Basic
import BoardAtlas.Listing
import BoardAtlas.Text.Natural
import BoardAtlas.Text.Upper

/-!
# Documentation of a board

* `BoardDocs.ioCounts`, `BoardDocs.specsOf`: the table of specifications;
* `ArduinoRow`, `arduinoRows`: the table of Arduino pins, digital ones first;
* `FlashSpan.ofLayout`, `FlashMap.ofBoard`: the map of the flash memory with its gaps;
* `BoardDocs`, **`BoardDocs.ofBoard`**: everything together.
-/

namespace BoardAtlas

namespace BoardDocs

/-! ## Specifications -/

/-- The roles that are counted. -/
def countedRoles : List RoleType := [.gpio, .pwm, .uart, .adc]

/-- What a token counts as: tokens of one index are one. -/
def countedName (token : String) : String :=
  match splitIndexed? token with
  | some (index, _) => index
  | none => token

/-- The distinct functions of a role on pins. -/
def countedNames (pins : List RoleMap) (r : RoleType) : List String :=
  Listing.firsts (pins.flatMap fun roles =>
    match roles.get? r with
    | some v => v.tokens.map countedName
    | none => [])

/-- How many functions of each counted role there are; roles without one are left out. -/
def ioCounts (pinout : Dict RoleMap) : String :=
  Text.joined ", " (countedRoles.filterMap fun r =>
    let n := (countedNames pinout.values r).length
    if n = 0 then none else some (toString n ++ "x " ++ r.name))

/-- A row that is there if its value is. -/
def rowOf (title : String) : Option String → Dict String
  | some s => [(title, s)]
  | none => []

/-- The rows of specifications. -/
def specsOf (b : Board) : Dict String :=
  let params := b.doc.params
  [("Board code", "`" ++ b.id ++ "`"), ("MCU", Text.upperText b.build.mcu)] ++
    rowOf "Manufacturer" params.manufacturer ++ rowOf "Series" params.series ++
    [("Frequency", b.clockText), ("Flash size", b.flashText), ("RAM size", b.ramText)] ++
    rowOf "Voltage" params.voltage ++ rowOf "I/O" (b.pins?.map ioCounts) ++ params.extra ++
    rowOf "FCC ID" (b.doc.fccid.map fun id => "[" ++ id ++ "](https://fccid.io/" ++ id ++ ")")

end BoardDocs

/-! ## Arduino pins -/

/-- A row of the table of Arduino pins. -/
structure ArduinoRow where
  number : String
  pin : String
  uart : String := ""
  i2c : String := ""
  spi : String := ""
  pwm : String := ""
  other : String := ""

namespace ArduinoRow

/-- The long texts of registered roles of a pin, in the order asked for. -/
def longTexts (registry : RoleRegistry) (roles : RoleMap) (types : List RoleType) : List String :=
  types.flatMap fun r =>
    match roles.get? r, registry.get? r with
    | some v, some role => role.format v true []
    | _, _ => []

/-- The texts of a column. -/
def column (registry : RoleRegistry) (roles : RoleMap) (types : List RoleType) : String :=
  Text.joined ", " (longTexts registry roles types)

/-- The row of a pin with a digital alias. -/
def digital? (registry : RoleRegistry) (roles : RoleMap) : Option ArduinoRow :=
  (roles.first? .ardD).map fun number =>
    { number
      pin := column registry roles [.gpio]
      uart := column registry roles [.uart]
      i2c := column registry roles [.i2c]
      spi := column registry roles [.spi]
      pwm := column registry roles [.pwm]
      other := column registry roles [.swd, .jtag, .dvp] }

/-- The row of a pin with an analog alias. -/
def analog? (registry : RoleRegistry) (roles : RoleMap) : Option ArduinoRow :=
  (roles.first? .ardA).map fun number => { number, pin := column registry roles [.gpio, .adc] }

end ArduinoRow

/-- The rows of all pins with an alias: digital, then analog, each in natural order. -/
def arduinoRows (pinout : Dict RoleMap) (registry : RoleRegistry) : List ArduinoRow :=
  Text.naturalSortBy ArduinoRow.number (pinout.values.filterMap (ArduinoRow.digital? registry)) ++
    Text.naturalSortBy ArduinoRow.number (pinout.values.filterMap (ArduinoRow.analog? registry))

/-- The document of a row. -/
def ArduinoRow.toJson (r : ArduinoRow) : Json :=
  .obj [("number", .str r.number), ("pin", .str r.pin), ("uart", .str r.uart), ("i2c", .str r.i2c),
    ("spi", .str r.spi), ("pwm", .str r.pwm), ("other", .str r.other)]

/-! ## Flash memory -/

/-- A range of addresses in the map: a region or the gap before one. -/
structure FlashSpan where
  name : String
  reserved : Bool
  offset : Nat
  length : Nat
  /-- The least number of digits of addresses. -/
  digits : Nat
  deriving DecidableEq, Repr

namespace FlashSpan

/-- The name of a gap. -/
def gapName : String := "(reserved)"

/-- The range of a region; without a known title it has the region's name. -/
def ofRegion (r : FlashRegion) : FlashSpan :=
  ⟨if r.title = unknownRegion then r.name else r.title, false, r.offset, r.length, r.offsetDigits⟩

/-- The gap before a region, if there is one. -/
def gapBefore (address : Nat) (r : FlashRegion) : List FlashSpan :=
  if address < r.offset then [⟨gapName, true, address, r.offset - address, r.offsetDigits⟩]
  else []

/-- The ranges of regions and the gaps before them, the first address being given. -/
def spansFrom : Nat → List FlashRegion → List FlashSpan
  | _, [] => []
  | address, r :: rest => gapBefore address r ++ ofRegion r :: spansFrom r.stop rest

/-- The ranges of a layout by their first addresses. -/
def ofLayout (regions : List FlashRegion) : List FlashSpan :=
  spansFrom 0 (regions.mergeSort fun r s => r.offset ≤ s.offset)

end FlashSpan

/-- A row of the map. -/
structure FlashRow where
  name : String
  start : String
  length : String
  stop : String

/-- The row of a range. -/
def FlashSpan.row (s : FlashSpan) : FlashRow where
  name := s.name
  start := hexText s.offset s.digits
  length := byteSize s.length ++ " / " ++ hexText s.length 0
  stop := hexText (min (s.offset + s.length) (pow2 64 - 1)) s.digits

/-- The document of a row. -/
def FlashRow.toJson (r : FlashRow) : Json :=
  .obj [("name", .str r.name), ("start", .str r.start), ("length", .str r.length),
    ("end", .str r.stop)]

/-- The map of the flash memory. -/
structure FlashMap where
  size : String
  rows : List FlashRow

namespace FlashMap

/-- The map of a board. -/
def ofBoard (b : Board) : FlashMap where
  size :=
    let n := b.upload.flashSize
    b.flashText ++ " / " ++ thousands n ++ " B / " ++ hexText n 0
  rows := (FlashSpan.ofLayout b.flash).map FlashSpan.row

/-- The document of the map. -/
def toJson (m : FlashMap) : Json :=
  .obj [("size", .str m.size), ("rows", .arr (m.rows.map FlashRow.toJson))]

end FlashMap

/-! ## Everything -/

/-- The documentation of a board. -/
structure BoardDocs where
  id : String
  title : String
  vendor : String
  url : Option String
  links : Dict String
  specs : Dict String
  arduino : Option (List ArduinoRow)
  flash : Option FlashMap
  extra : List String

namespace BoardDocs

/-- **The documentation of a board.** The Arduino table needs pins and the Arduino framework. -/
def ofBoard (b : Board) (registry : RoleRegistry) : BoardDocs where
  id := b.id
  title := b.name
  vendor := b.vendor
  url := b.url
  links := b.doc.links
  specs := BoardDocs.specsOf b
  arduino := if b.hasArduinoCore then b.pins?.map fun pins => arduinoRows pins registry else none
  flash := if b.flash.isEmpty then none else some (FlashMap.ofBoard b)
  extra := b.doc.extra

/-- The value of the first row with a title. -/
def spec? (d : BoardDocs) (title : String) : Option String := d.specs.get? title

/-- The document of the documentation. -/
def toJson (d : BoardDocs) : Json :=
  .obj [("id", .str d.id), ("title", .str d.title), ("vendor", .str d.vendor),
    ("url", Json.text? d.url), ("links", Json.members .str d.links),
    ("specs", .arr (d.specs.map fun (title, s) => Json.strings [title, s])),
    ("arduino", Json.option (fun rows => .arr (rows.map ArduinoRow.toJson)) d.arduino),
    ("flash", Json.option FlashMap.toJson d.flash), ("extra", Json.strings d.extra)]

end BoardDocs

end BoardAtlas
