import BoardAtlas.Role.Format

/-!
# The registry of roles

* `RoleEntry`: one entry of the roles table;
* `Role`, `Role.format`: a role with its title, color, width and rule;
* `UnknownRole`, `RoleRegistry.ofEntries`, `RoleRegistry.format`: all registered roles.
-/

namespace BoardAtlas

/-- An entry of the roles table. -/
structure RoleEntry where
  title : String
  color : String
  ratio : Float
  format : Option FormatRule

namespace RoleEntry

/-- The rule named by a document: its name, or an object with its name alone. -/
def ruleOfJson : Json.Reader FormatRule
  | .str s | .obj [(s, .null)] => match FormatRule.ofName? s with
    | some r => .ok r
    | none => .error ("unknown rule " ++ s)
  | _ => .error "a rule name is expected"

/-- The entry of a document; the width ratio is 1.8 unless it is given. -/
def ofJson (v : Json) : Except String RoleEntry := do
  let fields ← Json.asRecord ["title", "color", "ratio", "format"] v
  pure {
    title := ← fields.get "title" Json.asText
    color := ← fields.get "color" Json.asText
    ratio := ← fields.getOr "ratio" Json.asNumber 1.8
    format := ← fields.getOr "format" (Json.asOption ruleOfJson) none }

/-- The document of an entry. -/
def toJson (e : RoleEntry) : Json :=
  .obj [("title", .str e.title), ("color", .str e.color), ("ratio", .float e.ratio),
    ("format", Json.option (fun r => .str r.name) e.format)]

end RoleEntry

/-- A registered role. -/
structure Role where
  roleType : RoleType
  title : String
  color : String
  ratio : Float
  rule : FormatRule

namespace Role

/-- The role of an entry. -/
def ofEntry (r : RoleType) (e : RoleEntry) : Role :=
  ⟨r, e.title, e.color, e.ratio, e.format.getD r.defaultRule⟩

/-- The texts of a value of this role. -/
def format (r : Role) (value : RoleValue) (long : Bool) (hidden : List String) : List String :=
  formatTokens r.roleType r.rule value long hidden

/-- The document of a role. -/
def toJson (r : Role) : Json :=
  .obj [("role_type", .str r.roleType.name), ("title", .str r.title), ("color", .str r.color),
    ("ratio", .float r.ratio), ("rule", .str r.rule.name)]

end Role

/-- A name that is no role. -/
structure UnknownRole where
  name : String
  deriving DecidableEq, Repr

/-- What is told of a name that no role has. -/
def UnknownRole.message (e : UnknownRole) : String := "unknown pin role \"" ++ e.name ++ "\""

/-- The registered roles. -/
structure RoleRegistry where
  get? : RoleType → Option Role

namespace RoleRegistry

/-- No role is registered. -/
def empty : RoleRegistry := ⟨fun _ => none⟩

/-- Registers a role. -/
def insert (g : RoleRegistry) (r : Role) : RoleRegistry :=
  ⟨fun q => if q = r.roleType then some r else g.get? q⟩

/-- The registry of entries by name. -/
def ofEntries (entries : Dict RoleEntry) : Except UnknownRole RoleRegistry :=
  entries.foldlM (fun g (name, entry) =>
    match RoleType.ofName? name with
    | some r => .ok (g.insert (Role.ofEntry r entry))
    | none => .error ⟨name⟩) empty

/-- The registered roles in display order. -/
def roles (g : RoleRegistry) : List Role := RoleType.all.filterMap g.get?

/-- The texts of a value, by the registered rule or else the role's own. -/
def format (g : RoleRegistry) (r : RoleType) (value : RoleValue) (long : Bool)
    (hidden : List String) : List String :=
  let rule := match g.get? r with
    | some role => role.rule
    | none => r.defaultRule
  formatTokens r rule value long hidden

end RoleRegistry

end BoardAtlas
