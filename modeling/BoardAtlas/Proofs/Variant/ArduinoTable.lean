import BoardAtlas.Board.Docs
import BoardAtlas.Proofs.Text.NaturalOrder
import BoardAtlas.Proofs.Variant.Aliases
import Mathlib.Data.List.Perm.Basic

/-!
# The table of Arduino pins and the header

A header writes the aliases of a pin one after the other, whether or not one of them is taken. The table of a board's
documentation lists the digital aliases of all pins before the analog ones, each in natural order. For pins with a
number both have the same aliases.

* `readablePins`, `variantSites_eq_pinSites`, `flatMap_aliases_pinSites`: the pins with a number, and the aliases of a
  header;
* `aliasesOfRoles_eq`, `aliases_perm`: the aliases of a pin, gathered by pins or by kinds;
* `ArduinoRow.number_digital?`, `ArduinoRow.number_analog?`, `exists_arduinoRows_eq`: the rows of the table;
* **`arduinoRows_perm_header`**: the aliases of the table and of the header.
-/

namespace BoardAtlas

/-! ## Aliases -/

/-- The pins with a number that can be read. -/
def readablePins (pinout : Dict RoleMap) : Dict RoleMap := pinout.filter fun (_, roles) => (readPin? roles).isSome

/-- The pins of a board, also if there are none. -/
def Board.pinout (b : Board) : Dict RoleMap := (b.pcb.map Pcb.pinout).getD []

namespace PinSite

theorem aliasesOfRoles_eq (roles : RoleMap) :
    aliasesOfRoles roles = (roles.first? .ardD).toList ++ (roles.first? .ardA).toList := by
  rw [aliasesOfRoles, List.filterMap_eq_flatMap_toList]
  simp [AliasKind.all, AliasKind.roleType]

theorem toList_ofPin?_flatMap_aliases (pin : String) (roles : RoleMap) :
    (ofPin? pin roles).toList.flatMap aliases = if (readPin? roles).isSome then aliasesOfRoles roles else [] := by
  rw [ofPin?]
  cases readPin? roles with
  | none => rfl
  | some read =>
    cases hhead : (aliasesOfRoles roles).head? with
    | none => simp [List.head?_eq_none_iff.1 hhead]
    | some arduino => simp [aliases]

end PinSite

/-- The aliases of a header are those of the pins with a number. -/
theorem flatMap_aliases_pinSites (pinout : Dict RoleMap) :
    (pinSites pinout).flatMap PinSite.aliases = (readablePins pinout).values.flatMap PinSite.aliasesOfRoles := by
  rw [pinSites, List.filterMap_eq_flatMap_toList, List.flatMap_assoc, readablePins]
  induction pinout with
  | nil => rfl
  | cons e rest ih =>
    obtain ⟨pin, roles⟩ := e
    rw [List.flatMap_cons, PinSite.toList_ofPin?_flatMap_aliases, ih, List.filter_cons]
    split <;> rfl

/-- With the Arduino framework all pins of a board are looked at. -/
theorem variantSites_eq_pinSites {b : Board} (hcore : b.hasArduinoCore = true) :
    variantSites b = pinSites b.pinout := by
  rw [variantSites, Board.pins?, Board.pinout, hcore]
  cases b.pcb.map Pcb.pinout with
  | none => rfl
  | some pinout => cases pinout <;> rfl

theorem flatMap_aliases_variantSites {b : Board} (hcore : b.hasArduinoCore = true) :
    (variantSites b).flatMap PinSite.aliases = (readablePins b.pinout).values.flatMap PinSite.aliasesOfRoles := by
  rw [variantSites_eq_pinSites hcore, flatMap_aliases_pinSites]

theorem aliases_perm (pins : List RoleMap) :
    (pins.flatMap PinSite.aliasesOfRoles).Perm
      (pins.filterMap (·.first? .ardD) ++ pins.filterMap (·.first? .ardA)) := by
  rw [funext PinSite.aliasesOfRoles_eq, List.filterMap_eq_flatMap_toList, List.filterMap_eq_flatMap_toList]
  exact (List.flatMap_append_perm pins _ _).symm

/-! ## Rows -/

namespace ArduinoRow

theorem number_digital? (registry : RoleRegistry) (roles : RoleMap) :
    (digital? registry roles).map number = roles.first? .ardD := by
  rw [digital?, Option.map_map]
  exact Option.map_id'

theorem number_analog? (registry : RoleRegistry) (roles : RoleMap) :
    (analog? registry roles).map number = roles.first? .ardA := by
  rw [analog?, Option.map_map]
  exact Option.map_id'

theorem map_number_filterMap {row? : RoleMap → Option ArduinoRow} {r : RoleType}
    (hrow : ∀ roles, (row? roles).map number = roles.first? r) (pins : List RoleMap) :
    (pins.filterMap row?).map number = pins.filterMap (·.first? r) := by
  rw [List.map_filterMap]
  exact List.filterMap_congr fun roles _ => hrow roles

end ArduinoRow

/-- The rows of a table: of each pin the digital alias in the first part, and the analog one in the second. -/
theorem exists_arduinoRows_eq (registry : RoleRegistry) (pinout : Dict RoleMap) :
    ∃ digital analog, arduinoRows pinout registry = digital ++ analog ∧
      (digital.map ArduinoRow.number).Perm (pinout.values.filterMap (·.first? .ardD)) ∧
      (analog.map ArduinoRow.number).Perm (pinout.values.filterMap (·.first? .ardA)) := by
  refine ⟨_, _, rfl, ?_, ?_⟩
  · rw [← ArduinoRow.map_number_filterMap (ArduinoRow.number_digital? registry)]
    exact (Text.perm_naturalSortBy ArduinoRow.number _).map _
  · rw [← ArduinoRow.map_number_filterMap (ArduinoRow.number_analog? registry)]
    exact (Text.perm_naturalSortBy ArduinoRow.number _).map _

/-! ## Both -/

namespace VariantFacts

/-- **The table and the header have the same aliases**, each as often as the other, where the header can be made. In
both a pin has its digital alias and its analog alias, if it has them, and no other. -/
theorem arduinoRows_perm_header (registry registry' : RoleRegistry) (lenient : Bool) {b : Board} {f : VariantFacts}
    (hcore : b.hasArduinoCore = true) (h : ofBoard registry lenient b = .ok f) :
    let pins := readablePins b.pinout
    let rows := arduinoRows pins registry'
    ((rows.map ArduinoRow.number).map ("PIN_" ++ ·)).Perm (f.keysOf .arduino) ∧
      f.keysOf .arduino = (pins.values.flatMap fun roles =>
        (roles.first? .ardD).toList ++ (roles.first? .ardA).toList).map ("PIN_" ++ ·) ∧
      ∃ digital analog, rows = digital ++ analog ∧
        (digital.map ArduinoRow.number).Perm (pins.values.filterMap (·.first? .ardD)) ∧
        (analog.map ArduinoRow.number).Perm (pins.values.filterMap (·.first? .ardA)) := by
  dsimp only
  have hkeys : f.keysOf .arduino =
      ((readablePins b.pinout).values.flatMap PinSite.aliasesOfRoles).map ("PIN_" ++ ·) := by
    rw [keysOf_arduino h, flatMap_aliases_variantSites hcore]
  generalize readablePins b.pinout = pins at hkeys ⊢
  obtain ⟨digital, analog, hrows, hdigital, hanalog⟩ := exists_arduinoRows_eq registry' pins
  refine ⟨?_, ?_, digital, analog, hrows, hdigital, hanalog⟩
  · rw [hkeys, hrows, List.map_append]
    exact ((hdigital.append hanalog).trans (aliases_perm pins.values).symm).map _
  · rw [hkeys, funext PinSite.aliasesOfRoles_eq]

/-- Pins with aliases of both kinds, with an alias that another pin has, without an alias and without a number. -/
def tablePins : Dict RoleMap :=
  [("1", ((RoleMap.empty.insert .gpio (.text "P1")).insert .ardD (.text "D1")).insert .ardA (.list ["A0", "A7"])),
    ("2", (RoleMap.empty.insert .adc (.text "CH2")).insert .ardA (.text "A0")),
    ("3", RoleMap.empty.insert .gpio (.text "P3")),
    ("4", (RoleMap.empty.insert .gpio (.text "RST")).insert .ardD (.text "D4")),
    ("5", (RoleMap.empty.insert .gpio (.text "P5")).insert .ardD (.text "D1"))]

theorem arduinoRows_perm_header_tablePins :
    (arduinoBoard tablePins).hasArduinoCore = true ∧ ∃ f, ofBoard .empty true (arduinoBoard tablePins) = .ok f ∧
      f.keysOf .arduino = ["PIN_D1", "PIN_A0", "PIN_A0", "PIN_D1"] ∧
      (((arduinoRows (readablePins tablePins) .empty).map ArduinoRow.number).map ("PIN_" ++ ·)).Perm
        (f.keysOf .arduino) := by
  obtain ⟨f, hf⟩ := (exists_ofBoard_eq_ok .empty true (arduinoBoard tablePins)).2 (Or.inl rfl)
  obtain ⟨hrows, hkeys, -⟩ := arduinoRows_perm_header .empty .empty true rfl hf
  exact ⟨rfl, f, hf, hkeys, hrows⟩

end VariantFacts

end BoardAtlas
