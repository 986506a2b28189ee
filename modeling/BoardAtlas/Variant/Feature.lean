import BoardAtlas.Role.Type
import BoardAtlas.Json.Tree
import BoardAtlas.Text.Cut
import BoardAtlas.Number.Power

/-!
# Pin features

* `PinFeature`: what the table of pins can say about a pin;
* `RoleType.feature?`: the feature that a role stands for;
* `PinFeatures`, `PinFeatures.add`, `PinFeatures.addRoles`: sets of features, in which the mark for
  having none gives way to any other.
-/

namespace BoardAtlas

/-- A feature of a pin, in the order of its bit. -/
inductive PinFeature where
  /-- The mark of a pin without features. -/
  | none
  | gpio
  | irq
  | pwm
  | adc
  | dac
  | i2c
  | i2s
  | jtag
  | spi
  | swd
  | uart
  deriving DecidableEq, Repr

namespace PinFeature

/-- All features, in the order they are written. -/
def all : List PinFeature := [none, gpio, irq, pwm, adc, dac, i2c, i2s, jtag, spi, swd, uart]

/-- The name of a feature. -/
def name : PinFeature → String
  | none => "PIN_NONE"
  | gpio => "PIN_GPIO"
  | irq => "PIN_IRQ"
  | pwm => "PIN_PWM"
  | adc => "PIN_ADC"
  | dac => "PIN_DAC"
  | i2c => "PIN_I2C"
  | i2s => "PIN_I2S"
  | jtag => "PIN_JTAG"
  | spi => "PIN_SPI"
  | swd => "PIN_SWD"
  | uart => "PIN_UART"

/-- The bit of a feature. -/
def bit (f : PinFeature) : Nat := pow2 (all.idxOf f)

end PinFeature

/-- The feature that a role stands for. -/
def RoleType.feature? : RoleType → Option PinFeature
  | .ardD => some .gpio
  | .ardA => some .adc
  | .pwm => some .pwm
  | .i2c => some .i2c
  | .i2s => some .i2s
  | .irq => some .irq
  | .jtag => some .jtag
  | .spi => some .spi
  | .swd => some .swd
  | .uart => some .uart
  | _ => none

/-- A set of features. -/
structure PinFeatures where
  has : PinFeature → Bool

namespace PinFeatures

/-- No feature but the mark for having none. -/
def empty : PinFeatures := ⟨fun f => f = .none⟩

/-- The set with one more feature; the mark for having none goes. -/
def add (s : PinFeatures) (f : PinFeature) : PinFeatures :=
  ⟨fun g => g = f || (g ≠ .none && s.has g)⟩

/-- The set with the features of roles. -/
def addRoles (s : PinFeatures) (roles : List RoleType) : PinFeatures :=
  (roles.filterMap RoleType.feature?).foldl add s

/-- The features in the order of their bits. -/
def toList (s : PinFeatures) : List PinFeature := PinFeature.all.filter s.has

/-- The names of the features. -/
def names (s : PinFeatures) : List String := s.toList.map PinFeature.name

/-- The number made of the bits of the features. -/
def bits (s : PinFeatures) : Nat := s.toList.foldl (fun n f => n + f.bit) 0

/-- The names as one text. -/
def text (s : PinFeatures) : String := Text.joined " | " s.names

theorem has_add (s : PinFeatures) (f g : PinFeature) :
    (s.add f).has g = (g = f || (g ≠ .none && s.has g)) := rfl

/-- The document of a set: its names. -/
def toJson (s : PinFeatures) : Json := Json.strings s.names

end PinFeatures

end BoardAtlas
