import BoardAtlas.Board.Error

/-!
# Pinouts

A board lists the pins of its chip and its own pins, each with roles. A pin that names a chip pin gets
the roles of that one written over its own. Arduino aliases may be given together and are told apart by
their first letter.

* `RawRoles`, `Pinout.rawTable`: roles as the manifest has them;
* `Pinout.overlay`, `Pinout.splitAliases`, `Pinout.roleMapOf`: the three steps to the roles of a pin;
* `Pinout`, **`Pinout.ofValues`**: the roles of all pins.
-/

namespace BoardAtlas

/-- The roles of a pin as the manifest has them. -/
abbrev RawRoles : Type := Dict Value

/-- The roles of the chip's pins and of the board's pins. -/
structure Pinout where
  ic : Dict RoleMap
  pins : Dict RoleMap

namespace Pinout

/-- The roles of a pin of a table. -/
def rawRoles (board field pin : String) : Value → Except BoardError RawRoles
  | .obj roles => .ok roles
  | v => .error (.invalidField board field (.pinNotObject pin v.kind))

/-- A table of pins; a missing one is empty. -/
def rawTable (board field : String) : Option Value → Except BoardError (Dict RawRoles)
  | none => .ok []
  | some (.obj pins) => pins.mapM fun (pin, v) => (rawRoles board field pin v).map fun r => (pin, r)
  | some v => .error (.invalidField board field (.notObject v.kind))

/-- A pin's own roles with those of the chip pin it names written over them. -/
def overlay (ic : Dict RawRoles) (own : RawRoles) : RawRoles :=
  match (own.get? RoleType.ic.name).bind fun v => ic.get? v.varText with
  | some roles => own.extend roles
  | none => own

/-! ## Arduino aliases -/

/-- The key under which aliases of both kinds may be given together. -/
def aliasKey : String := "ARD"

/-- The aliases that a value gives. -/
def aliasTexts : Value → List String
  | .list items => items.map Value.varText
  | v => [v.varText]

/-- The aliases of a kind. -/
def aliasesOf (kind : AliasKind) (aliases : List String) : List String :=
  aliases.filter fun a => a.toList.head? = some kind.letter

/-- Gives a pin its alias of a kind, of which there must not be two. -/
def addAlias (board pin : String) (aliases : List String) (roles : RawRoles) (kind : AliasKind) :
    Except BoardError RawRoles :=
  match aliasesOf kind aliases with
  | [] => .ok roles
  | [a] => .ok (roles.insert kind.roleType.name (.str a))
  | several => .error (.ambiguousAlias board pin kind several)

/-- Tells the aliases of a pin apart. -/
def splitAliases (board pin : String) (roles : RawRoles) : Except BoardError RawRoles :=
  match roles.get? aliasKey with
  | none => .ok roles
  | some v => AliasKind.all.foldlM (addAlias board pin (aliasTexts v)) (roles.erase aliasKey)

/-! ## Roles -/

/-- The value of a role. -/
def roleValueOf (board pin : String) (r : RoleType) : Value → Except BoardError RoleValue
  | .null => .ok .absent
  | .num x => .ok (.number x)
  | .str s => .ok (.text s)
  | .bool b => .ok (.text (Value.bool b).varText)
  | .list items => .ok (.list (items.map Value.varText))
  | .obj _ => .error (.invalidField board ("pinout." ++ pin ++ "." ++ r.name) .objectValue)

/-- The roles of a pin. -/
def roleMapOf (board pin : String) (roles : RawRoles) : Except BoardError RoleMap :=
  roles.foldlM (fun m (key, v) =>
    match RoleType.ofName? key with
    | some r => (roleValueOf board pin r v).map fun x => m.insert r x
    | none => .error (.unknownRole board pin key)) RoleMap.empty

/-- The roles of a chip pin. -/
def chipRoles (board pin : String) (roles : RawRoles) : Except BoardError RoleMap := do
  roleMapOf board pin (← splitAliases board pin roles)

/-- The roles of a board pin, its direction set. -/
def pinRoles (board : String) (ic : Dict RawRoles) (pin : String) (own : RawRoles) :
    Except BoardError RoleMap := do
  let roles ← roleMapOf board pin (← splitAliases board pin (overlay ic own))
  pure roles.inferIo

/-- **The roles of all pins.** -/
def ofValues (board : String) (ic pinout : Option Value) : Except BoardError Pinout := do
  let ic ← rawTable board "ic" ic
  let own ← rawTable board "pinout" pinout
  let chip ← ic.mapM fun (pin, roles) => (chipRoles board pin roles).map fun m => (pin, m)
  let pins ← own.mapM fun (pin, roles) => (pinRoles board ic pin roles).map fun m => (pin, m)
  pure ⟨chip, pins⟩

end Pinout

end BoardAtlas
