/-!
# Roles of a pin

* `RoleType`, `RoleType.all`: the functions a pin may have, in the order labels and comments list them;
* `RoleType.name`, `RoleType.ofName?`: their names in manifests;
* `FormatRule`, `RoleType.defaultRule`: how their values are shown;
* `IoType`: the direction drawn next to a pad.
-/

namespace BoardAtlas

/-- A function of a pin, in display order. -/
inductive RoleType where
  | nc
  | cName
  | io
  | irq
  | physical
  | pwr
  | gnd
  | ctrl
  | ic
  | gpio
  | gpioNum
  | adc
  | ardD
  | ardA
  | uart
  | i2c
  | i2s
  | dvp
  | spi
  | sd
  | usb
  | irda
  | pwm
  | tmr
  | wake
  | rtc
  | jtag
  | swd
  | flash
  deriving DecidableEq, Repr

/-- How the values of a role are shown. -/
inductive FormatRule where
  /-- `1_RX` becomes `RX1` or `UART1_RX`. -/
  | indexSwap
  /-- `3` becomes `ADC3` or `ADC_3`. -/
  | nameIndex
  /-- `DIO` becomes `SWDIO`. -/
  | swd
  /-- `3.3` becomes `3V3`. -/
  | power
  /-- Values are shown as they are. -/
  | verbatim
  deriving DecidableEq, Repr

namespace RoleType

/-- All roles in display order. -/
def all : List RoleType :=
  [nc, cName, io, irq, physical, pwr, gnd, ctrl, ic, gpio, gpioNum, adc, ardD, ardA, uart, i2c, i2s,
    dvp, spi, sd, usb, irda, pwm, tmr, wake, rtc, jtag, swd, flash]

/-- The name of a role in manifests. -/
def name : RoleType → String
  | nc => "NC"
  | cName => "C_NAME"
  | io => "IO"
  | irq => "IRQ"
  | physical => "PHYSICAL"
  | pwr => "PWR"
  | gnd => "GND"
  | ctrl => "CTRL"
  | ic => "IC"
  | gpio => "GPIO"
  | gpioNum => "GPIONUM"
  | adc => "ADC"
  | ardD => "ARD_D"
  | ardA => "ARD_A"
  | uart => "UART"
  | i2c => "I2C"
  | i2s => "I2S"
  | dvp => "DVP"
  | spi => "SPI"
  | sd => "SD"
  | usb => "USB"
  | irda => "IRDA"
  | pwm => "PWM"
  | tmr => "TMR"
  | wake => "WAKE"
  | rtc => "RTC"
  | jtag => "JTAG"
  | swd => "SWD"
  | flash => "FLASH"

/-- The place of a role in display order. -/
def index (r : RoleType) : Nat := all.idxOf r

/-- The role with a name. -/
def ofName? (s : String) : Option RoleType := all.find? fun r => r.name = s

theorem mem_all (r : RoleType) : r ∈ all := by cases r <;> decide

theorem ofName?_name (r : RoleType) : ofName? r.name = some r := by cases r <;> decide

/-- The rule of a role that does not name one. -/
def defaultRule : RoleType → FormatRule
  | uart | spi | i2c | i2s | tmr => .indexSwap
  | adc | pwm | wake => .nameIndex
  | swd => .swd
  | pwr => .power
  | _ => .verbatim

end RoleType

namespace FormatRule

/-- All rules. -/
def all : List FormatRule := [indexSwap, nameIndex, swd, power, verbatim]

/-- The name of a rule in the table of roles. -/
def name : FormatRule → String
  | indexSwap => "index_swap"
  | nameIndex => "name_index"
  | swd => "swd"
  | power => "power"
  | verbatim => "default"

/-- The rule with a name. -/
def ofName? (s : String) : Option FormatRule := all.find? fun r => r.name = s

end FormatRule

/-- A direction of a pin. -/
inductive IoType where
  | nc
  | io
  | input
  | output
  | pwm
  | pwr
  | null
  deriving DecidableEq, Repr

namespace IoType

/-- All directions. -/
def all : List IoType := [nc, io, input, output, pwm, pwr, null]

/-- The name of a direction on pins. -/
def name : IoType → String
  | nc => "NC"
  | io => "IO"
  | input => "I"
  | output => "O"
  | pwm => "PWM"
  | pwr => "PWR"
  | null => "NULL"

/-- The direction with a name. -/
def ofName? (s : String) : Option IoType := all.find? fun t => t.name = s

end IoType

end BoardAtlas
