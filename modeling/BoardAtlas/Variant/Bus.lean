import BoardAtlas.Variant.Site
import BoardAtlas.Listing

/-!
# Indexed buses

A token such as `0_SCK` puts a pin to use as a signal of a bus with an index. An index counts once pins are
in use for all signals it needs.

* `Bus`, `Bus.required`: the buses and the signals they need;
* `SignalUse`, `PinSite.usesFor`: the uses of a pin;
* `isComplete`, **`completeIndexes`**: the indexes that count;
* `pinsOf`: the numbers of the pins in use for a signal.
-/

namespace BoardAtlas

/-- An indexed bus. -/
inductive Bus where
  | spi
  | wire
  | serial
  deriving DecidableEq, Repr

namespace Bus

/-- All buses, in the order their sections are written. -/
def all : List Bus := [spi, wire, serial]

/-- The role whose tokens put pins to use for a bus. -/
def roleType : Bus → RoleType
  | spi => .spi
  | wire => .i2c
  | serial => .uart

/-- The name of a bus in defines. -/
def tag : Bus → String
  | spi => "SPI"
  | wire => "WIRE"
  | serial => "SERIAL"

/-- The signals that an index needs. -/
def required : Bus → List String
  | spi => ["SCK", "MISO", "MOSI"]
  | wire => ["SDA", "SCL"]
  | serial => ["TX"]

end Bus

/-- A pin in use for a signal of an index. -/
structure SignalUse where
  index : Nat
  signal : String
  number : Nat
  deriving DecidableEq, Repr

/-- The use that a token asks for; the index has at most 32 bits. -/
def useOf? (number : Nat) (token : String) : Option SignalUse := do
  let (index, signal) ← splitIndexed? token
  let index ← readWord32? index.toList
  some ⟨index, signal, number⟩

/-- The uses of one pin for a bus, in the order of its tokens. -/
def PinSite.usesFor (s : PinSite) (bus : Bus) : List SignalUse :=
  match s.roles.get? bus.roleType with
  | some v => v.tokens.filterMap (useOf? s.number)
  | none => []

/-- The signals of an index that pins are in use for, in ascending order. -/
def signalsOf (uses : List SignalUse) (index : Nat) : List String :=
  Listing.ascendingTexts ((uses.filter fun c => c.index == index).map SignalUse.signal)

/-- The numbers of the pins in use for a signal. -/
def pinsOf (uses : List SignalUse) (index : Nat) (signal : String) : List Nat :=
  (uses.filter fun c => c.index == index && c.signal == signal).map SignalUse.number

/-- A pin is in use for every signal that the index needs. -/
def isComplete (bus : Bus) (uses : List SignalUse) (index : Nat) : Bool :=
  bus.required.all fun s => uses.any fun c => c.index == index && c.signal == s

/-- **The indexes that count**, in ascending order. -/
def completeIndexes (bus : Bus) (uses : List SignalUse) : List Nat :=
  (Listing.ascendingNumbers (uses.map SignalUse.index)).filter (isComplete bus uses)

end BoardAtlas
