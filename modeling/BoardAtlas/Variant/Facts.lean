import BoardAtlas.Variant.Bus

/-!
# Facts of a variant

What the header and the table of pins of a variant are made from: defines in sections, and an entry for
every alias.

* `Define`, `HeaderPart`, `HeaderSection`: the defines of a header;
* `PinEntry`: the table of pins;
* `VariantFacts`, `VariantFacts.definesOf?`, `VariantFacts.define?`: the facts of a variant.
-/

namespace BoardAtlas

/-- A define of a header. -/
structure Define where
  key : String
  value : Nat
  comment : Option String
  deriving DecidableEq, Repr

/-- A section of a header. -/
inductive HeaderPart where
  | pins
  | arduino
  | ports
  | bus (bus : Bus)
  | macros
  deriving DecidableEq, Repr

namespace HeaderPart

/-- All sections, in the order they are written. -/
def all : List HeaderPart := [pins, arduino, ports] ++ Bus.all.map bus ++ [macros]

/-- The name of a section. -/
def name : HeaderPart → String
  | pins => "pins"
  | arduino => "arduino"
  | ports => "ports"
  | bus .spi => "spi"
  | bus .wire => "wire"
  | bus .serial => "serial"
  | macros => "macros"

/-- The title of a section. -/
def title : HeaderPart → String
  | pins => "Pins"
  | arduino => "Arduino pin names"
  | ports => "Port availability"
  | bus .spi => "SPI Interfaces"
  | bus .wire => "Wire Interfaces"
  | bus .serial => "Serial ports"
  | macros => "Pin function macros"

end HeaderPart

/-- A section with its defines. -/
structure HeaderSection where
  part : HeaderPart
  defines : List Define

/-- An entry of the table of pins. -/
structure PinEntry where
  arduino : String
  /-- The device name of the pin. -/
  device : String
  features : PinFeatures
  comment : String

/-- The facts of a variant. -/
structure VariantFacts where
  board : String
  sections : List HeaderSection
  /-- The table of pins; there is none without an alias. -/
  pins : Option (List PinEntry)

namespace VariantFacts

/-- The defines of a section. -/
def definesOf? (f : VariantFacts) (part : HeaderPart) : Option (List Define) :=
  (f.sections.find? fun s => s.part == part).map HeaderSection.defines

/-- The first define with a key. -/
def define? (f : VariantFacts) (key : String) : Option Define :=
  (f.sections.flatMap HeaderSection.defines).find? fun d => d.key == key

end VariantFacts

/-! ## Documents -/

/-- The document of a define. -/
def Define.toJson (d : Define) : Json :=
  .obj [("key", .str d.key), ("value", .nat d.value), ("comment", Json.text? d.comment)]

/-- The document of a section. -/
def HeaderSection.toJson (s : HeaderSection) : Json :=
  .obj [("section", .str s.part.name), ("title", .str s.part.title),
    ("defines", .arr (s.defines.map Define.toJson))]

/-- The document of an entry. -/
def PinEntry.toJson (e : PinEntry) : Json :=
  .obj [("alias", .str e.arduino), ("c_name", .str e.device), ("features", e.features.toJson),
    ("comment", .str e.comment)]

/-- The document of the facts. -/
def VariantFacts.toJson (f : VariantFacts) : Json :=
  .obj [("board", .str f.board), ("sections", .arr (f.sections.map HeaderSection.toJson)),
    ("pins", Json.option (fun pins => .arr (pins.map PinEntry.toJson)) f.pins)]

end BoardAtlas
