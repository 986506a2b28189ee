import BoardAtlas.Variant.Facts
import BoardAtlas.Text.Natural

/-!
# Drafts of a variant

The facts of a variant are gathered pin by pin. Every pin that takes part adds its aliases, names, uses and
number; the first with an alias also gets an entry and is counted, and a later one with the same alias only
adds its features to that entry, or else is an error. The buses come last, when all uses are known.

* `Draft`, `Draft.add`, `Draft.increment`: what is gathered, and how defines are written;
* `Draft.note`, `Draft.enter`, `Draft.join`, **`Draft.addPin`**: one pin;
* `Draft.addInterface`, `Draft.addBus`, `Draft.close`: the buses and the largest number;
* `Draft.facts`, **`VariantFacts.ofBoard`**: the facts of a draft, and of a board.
-/

namespace BoardAtlas

namespace PinSite

/-- The defines of the aliases of a pin. -/
def aliasDefines (s : PinSite) : List Define :=
  s.aliases.map fun a => ⟨"PIN_" ++ a, s.number, some s.device⟩

/-- The defines of the short texts of a pin. -/
def macroDefines (registry : RoleRegistry) (s : PinSite) : List Define :=
  (s.shortTexts registry).map fun text => ⟨"PIN_" ++ text, s.number, some s.device⟩

/-- The set of features with those of a pin. -/
def addFeatures (s : PinSite) (features : PinFeatures) : PinFeatures :=
  features.addRoles (s.roles.entries.map Prod.fst)

/-- The entry of a pin that is alone with its alias. -/
def entry (registry : RoleRegistry) (s : PinSite) : PinEntry :=
  ⟨s.arduino, s.device, s.addFeatures .empty, s.comment registry⟩

end PinSite

/-- The four counts of pins. -/
def pinCounts (total digital analog pwm : Nat) : List Define :=
  [⟨"PINS_COUNT", total, some "Total GPIO count"⟩,
    ⟨"NUM_DIGITAL_PINS", digital, some "Digital inputs/outputs"⟩,
    ⟨"NUM_ANALOG_INPUTS", analog, some "ADC inputs"⟩,
    ⟨"NUM_ANALOG_OUTPUTS", pwm, some "PWM & DAC outputs"⟩]

/-- The roles whose pins are counted, with the keys of their counts. -/
def countedRoles : List (RoleType × String) :=
  [(.ardD, "NUM_DIGITAL_PINS"), (.ardA, "NUM_ANALOG_INPUTS"), (.pwm, "NUM_ANALOG_OUTPUTS")]

/-- The first define with a key counted up; if there is none, one is added. -/
def countUp (key : String) (defines : List Define) : List Define :=
  if defines.any fun x => x.key == key then
    Listing.updateFirst (fun x => x.key == key) (fun x => { x with value := x.value + 1 }) defines
  else defines ++ [⟨key, 1, none⟩]

/-- The key that counts the indexes of a bus. -/
def Bus.countKey (bus : Bus) : String := bus.tag ++ "_INTERFACES_COUNT"

/-- The define that says that an index is there. -/
def Bus.presence (bus : Bus) (index : Nat) : Define := ⟨"HAS_" ++ bus.tag ++ toString index, 1, none⟩

/-- The defines of a signal: one for a single pin, numbered ones for several. -/
def signalDefines (device? : Nat → Option String) (key : String) : List Nat → List Define
  | [n] => [⟨key, n, device? n⟩]
  | ns => ns.zipIdx.map fun (n, i) => ⟨key ++ "_" ++ toString i, n, device? n⟩

/-- The defines of all signals of an index. -/
def interfaceDefines (device? : Nat → Option String) (bus : Bus) (uses : List SignalUse)
    (index : Nat) : List Define :=
  (signalsOf uses index).flatMap fun signal =>
    signalDefines device? ("PIN_" ++ bus.tag ++ toString index ++ "_" ++ signal)
      (pinsOf uses index signal)

/-- What has been gathered from some of the pins. -/
@[ext] structure Draft where
  /-- The defines of each section, in the order they were added. -/
  defines : HeaderPart → List Define
  uses : Bus → List SignalUse
  /-- The entries of the table of pins, in the order of the pinout. -/
  entries : List PinEntry
  /-- The pin that each alias belongs to. -/
  owners : Dict String
  /-- Numbers with the device names of the first pins that have them. -/
  devices : List (Nat × String)
  largest : Nat

namespace Draft

/-- Before the first pin there are only counts. -/
def start : Draft where
  defines part := if part = .pins then pinCounts 0 0 0 0 else []
  uses _ := []
  entries := []
  owners := []
  devices := []
  largest := 0

/-- Adds defines at the end of a section. -/
def add (d : Draft) (part : HeaderPart) (new : List Define) : Draft :=
  { d with defines := fun p => if p = part then d.defines p ++ new else d.defines p }

/-- Counts up in a section. -/
def increment (d : Draft) (part : HeaderPart) (key : String) : Draft :=
  { d with defines := fun p => if p = part then countUp key (d.defines p) else d.defines p }

/-! ## One pin -/

/-- What every pin adds: its names, its uses and its number. -/
def note (registry : RoleRegistry) (d : Draft) (s : PinSite) : Draft :=
  { d.add .macros (s.macroDefines registry) with
    uses := fun bus => d.uses bus ++ s.usesFor bus
    devices := if (d.devices.lookup s.number).isSome then d.devices
      else d.devices ++ [(s.number, s.device)]
    largest := max d.largest s.number }

/-- Counts a pin for a role that it has. -/
def countFor (s : PinSite) (d : Draft) (counted : RoleType × String) : Draft :=
  if s.roles.has counted.1 then d.increment .pins counted.2 else d

/-- The first pin with its alias is counted and gets an entry. -/
def enter (registry : RoleRegistry) (d : Draft) (s : PinSite) : Draft :=
  let d := countedRoles.foldl (countFor s) (d.increment .pins "PINS_COUNT")
  { d with
    entries := d.entries ++ [s.entry registry]
    owners := d.owners.insert s.arduino s.pin }

/-- A later pin with the alias only adds its features. -/
def join (d : Draft) (s : PinSite) : Draft :=
  { d with
    entries := Listing.updateFirst (fun e => e.arduino == s.arduino)
      (fun e => { e with features := s.addFeatures e.features }) d.entries }

/-- A pin that takes part. Its aliases are written before it is known whether another pin has one. -/
def addSite (registry : RoleRegistry) (board : String) (lenient : Bool) (d : Draft) (s : PinSite) :
    Except BoardError Draft :=
  let d := d.add .arduino s.aliasDefines
  match d.owners.get? s.arduino with
  | none => .ok ((d.note registry s).enter registry s)
  | some first =>
    if lenient then .ok ((d.note registry s).join s)
    else .error (.duplicateAlias board s.arduino first s.pin)

/-- **One pin further**; a pin that does not take part adds nothing. -/
def addPin (registry : RoleRegistry) (board : String) (lenient : Bool) (d : Draft) :
    String × RoleMap → Except BoardError Draft
  | (pin, roles) => match PinSite.ofPin? pin roles with
    | some s => d.addSite registry board lenient s
    | none => .ok d

/-! ## The buses -/

/-- An index that counts: it is counted, and there are defines for it and for its signals. -/
def addInterface (bus : Bus) (d : Draft) (index : Nat) : Draft :=
  ((d.increment .ports bus.countKey).add .ports [bus.presence index]).add (.bus bus)
    (interfaceDefines (fun n => d.devices.lookup n) bus (d.uses bus) index)

/-- All indexes of a bus that count. -/
def addBus (d : Draft) (bus : Bus) : Draft :=
  (completeIndexes bus (d.uses bus)).foldl (addInterface bus) d

/-- The buses, and the largest number of a pin. -/
def close (d : Draft) : Draft :=
  (Bus.all.foldl addBus d).add .pins [⟨"PINS_GPIO_MAX", d.largest, some "Last usable GPIO number"⟩]

/-! ## Facts -/

/-- The defines of a section as they are written: of functions the first with each name, in natural
order. -/
def written (d : Draft) : HeaderPart → List Define
  | .macros => Text.naturalSortBy Define.key (Listing.firstsBy Define.key (d.defines .macros))
  | part => d.defines part

/-- The facts of a draft; empty sections are left out, and entries come in natural order. -/
def facts (board : String) (d : Draft) : VariantFacts where
  board
  sections := (HeaderPart.all.map fun part => ⟨part, d.written part⟩).filter fun s =>
    !s.defines.isEmpty
  pins := if d.entries.isEmpty then none
    else some (Text.naturalSortBy PinEntry.arduino d.entries)

end Draft

namespace VariantFacts

/-- The facts of a pinout. Unless aliases are lenient, no two pins may have the same. -/
def ofPinout (board : String) (registry : RoleRegistry) (lenient : Bool) (pinout : Dict RoleMap) :
    Except BoardError VariantFacts :=
  (pinout.foldlM (Draft.addPin registry board lenient) .start).map fun d => d.close.facts board

/-- **The facts of a board**; there are none without pins or without the Arduino framework. -/
def ofBoard (registry : RoleRegistry) (lenient : Bool) (b : Board) :
    Except BoardError VariantFacts :=
  match b.pins?, b.hasArduinoCore with
  | some pinout, true => ofPinout b.id registry lenient pinout
  | _, _ => .ok ⟨b.id, [], none⟩

end VariantFacts

end BoardAtlas
