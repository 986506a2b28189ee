import BoardAtlas.Variant.Feature
import BoardAtlas.Board.Basic

/-!
# Pins of a variant

A pin takes part in a variant if its GPIO number can be read and it has an Arduino alias.

* `gpioNumber?`, `readPin?`: the device name and the number of a pin;
* `PinSite`, `PinSite.ofPin?`, **`pinSites`**: the pins that take part, in the order of the pinout;
* `PinSite.comment`, `PinSite.shortTexts`: what is said about a pin.
-/

namespace BoardAtlas

/-- The roles left out of comments. -/
def commentHidden : List String := ["ARD_A", "ARD_D", "IO", "C_NAME"]

/-- The roles whose short texts name a pin. -/
def namingRoles : List RoleType := [.spi, .i2c, .uart, .gpio, .adc, .pwm]

/-- The number of a GPIO: a given one, or else the digits of its name. -/
def gpioNumber? (name : String) (roles : RoleMap) : Option Nat :=
  match roles.get? .gpioNum with
  | none => readWord32? (name.toList.filter Char.isDigit)
  | some (.number x) =>
    if x ≥ 0 then some (Binary64.truncated (pow2 32 - 1) x) else none
  | some v => v.first?.bind fun s => readWord32? (Text.trim s.toList)

/-- The device name and the number of a pin with a GPIO or ADC role. -/
def readPin? (roles : RoleMap) : Option (String × Nat) := do
  let name ← (roles.first? .gpio).or (roles.first? .adc)
  let number ← gpioNumber? name roles
  some ((roles.first? .cName).getD name, number)

/-- A pin that takes part in a variant. -/
structure PinSite where
  pin : String
  roles : RoleMap
  /-- The device name of the pin. -/
  device : String
  number : Nat
  /-- The alias that counts: the digital one, or else the analog one. -/
  arduino : String

namespace PinSite

/-- The aliases of a pin, the digital one first. -/
def aliasesOfRoles (roles : RoleMap) : List String :=
  AliasKind.all.filterMap fun kind => roles.first? kind.roleType

/-- A pin as part of a variant. -/
def ofPin? (pin : String) (roles : RoleMap) : Option PinSite := do
  let (device, number) ← readPin? roles
  let arduino ← (aliasesOfRoles roles).head?
  some ⟨pin, roles, device, number, arduino⟩

/-- The aliases of the pin, the digital one first. -/
def aliases (s : PinSite) : List String := aliasesOfRoles s.roles

/-- The texts of registered roles. -/
def texts (registry : RoleRegistry) (long : Bool) (roles : List (RoleType × RoleValue)) :
    List String :=
  roles.flatMap fun (r, v) =>
    match registry.get? r with
    | some role => role.format v long commentHidden
    | none => []

/-- The long texts of all roles. -/
def comment (registry : RoleRegistry) (s : PinSite) : String :=
  Text.joined ", " (texts registry true s.roles.entries)

/-- The short texts of the roles that name a pin. -/
def shortTexts (registry : RoleRegistry) (s : PinSite) : List String :=
  texts registry false (s.roles.entries.filter fun (r, _) => namingRoles.contains r)

end PinSite

/-- **The pins that take part in a variant**, in the order of the pinout. -/
def pinSites (pinout : Dict RoleMap) : List PinSite :=
  pinout.filterMap fun (pin, roles) => PinSite.ofPin? pin roles

end BoardAtlas
