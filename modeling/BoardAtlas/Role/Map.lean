import BoardAtlas.Role.Type
import BoardAtlas.Json.Field
import BoardAtlas.Number.Layout

/-!
# The roles of one pin

* `RoleValue`, `RoleValue.tokens`: what a manifest says about one role;
* `RoleMap`, `RoleMap.get?`, `RoleMap.insert`, `RoleMap.entries`: the roles of a pin, always listed in
  display order;
* **`RoleMap.inferIo`**: the direction of a pin from its other roles.
-/

namespace BoardAtlas

/-- The value of a role as the manifest has it. -/
inductive RoleValue where
  | absent
  | number (x : Float)
  | text (s : String)
  | list (items : List String)

namespace RoleValue

/-- The value as a list of texts. -/
def tokens : RoleValue → List String
  | absent => []
  | number x => [formatNumber x]
  | text s => [s]
  | list items => items

/-- The first text, where a role names a single thing. -/
def first? (v : RoleValue) : Option String := v.tokens.head?

/-- The document of a value. -/
def toJson : RoleValue → Json
  | absent => .null
  | number x => if x.isFinite then .float x else .null
  | text s => .str s
  | list items => Json.strings items

/-- The value of a document: `null`, a number, a text or a list of texts. -/
def ofJson : Json.Reader RoleValue
  | .null => .ok absent
  | .int n => .ok (number (Binary64.ofInt n))
  | .float x => .ok (number x)
  | .str s => .ok (text s)
  | .arr items => (items.mapM Json.asText).map list
  | _ => .error "a role value is expected"

end RoleValue

/-- The roles of a pin: a value or nothing for every role. -/
structure RoleMap where
  get? : RoleType → Option RoleValue

namespace RoleMap

/-- A pin without roles. -/
def empty : RoleMap := ⟨fun _ => none⟩

/-- Gives a role a value. -/
def insert (m : RoleMap) (r : RoleType) (v : RoleValue) : RoleMap :=
  ⟨fun q => if q = r then some v else m.get? q⟩

/-- The pin has the role. -/
def has (m : RoleMap) (r : RoleType) : Bool := (m.get? r).isSome

/-- The roles and their values, in display order. -/
def entries (m : RoleMap) : List (RoleType × RoleValue) :=
  RoleType.all.filterMap fun r => (m.get? r).map fun v => (r, v)

/-- The first text of a role. -/
def first? (m : RoleMap) (r : RoleType) : Option String := (m.get? r).bind RoleValue.first?

@[simp] theorem get?_insert (m : RoleMap) (r q : RoleType) (v : RoleValue) :
    (m.insert r v).get? q = if q = r then some v else m.get? q := rfl

theorem mem_entries {m : RoleMap} {r : RoleType} {v : RoleValue} :
    (r, v) ∈ m.entries ↔ m.get? r = some v := by
  simp [entries, RoleType.mem_all]

/-- The direction that the other roles of a pin imply, if it has to be set. Not being connected comes
first, then PWM, then a GPIO without a direction, then power. -/
def impliedIo? (m : RoleMap) : Option IoType :=
  if m.has .nc then some .nc
  else if m.has .pwm then some .pwm
  else if m.has .gpio && !m.has .io then some .io
  else if m.has .pwr || m.has .gnd then some .pwr
  else if !m.has .io then some .null
  else none

/-- **The roles with the direction set**; ground is always shown as `GND`. -/
def inferIo (m : RoleMap) : RoleMap :=
  let m := match m.impliedIo? with
    | some t => m.insert .io (.text t.name)
    | none => m
  if m.has .gnd then m.insert .gnd (.text "GND") else m

/-- The document of a map. -/
def toJson (m : RoleMap) : Json := .obj (m.entries.map fun (r, v) => (r.name, v.toJson))

/-- Reads a map; every name has to be that of a role. -/
def ofJson (v : Json) : Except String RoleMap := do
  let fields ← Json.asDict RoleValue.ofJson v
  fields.foldlM (fun m (name, value) =>
    match RoleType.ofName? name with
    | some r => .ok (m.insert r value)
    | none => .error ("unknown role " ++ name)) empty

end RoleMap

end BoardAtlas
