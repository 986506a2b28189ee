import BoardAtlas.Proofs.Text.StableSorting
import BoardAtlas.Proofs.Variant.ArduinoTable
import Mathlib.Data.List.Forall2

/-!
# Rows of the table of Arduino pins

Each part of the table is the pins with an alias of one kind, sorted by it, with one row for each of them. Pins with
the same alias stay in the order of the pinout; where there are none, the order of the pinout does not show.

* `RoleMap.tokensOf`, `pinsWith`, `leadOf`: pins with a token, and the first one;
* `TablePart`: the rows of a part of the table;
* `tablePart_naturalSortBy`, `naturalSortBy_filterMap_of_perm`: a part that is gathered and sorted, and its order;
* **`arduinoRows_parts`**: the two parts of the table.
-/

namespace BoardAtlas

open Text

/-! ## Pins with a token -/

/-- The tokens of a role of a pin; without the role there are none. -/
def RoleMap.tokensOf (roles : RoleMap) (r : RoleType) : List String := ((roles.get? r).map RoleValue.tokens).getD []

theorem RoleMap.first?_eq_head? (roles : RoleMap) (r : RoleType) : roles.first? r = (roles.tokensOf r).head? := by
  rw [first?, tokensOf]
  cases roles.get? r <;> rfl

/-- The pins with a token of a role. -/
def pinsWith (r : RoleType) (pins : List RoleMap) : List RoleMap := pins.filter fun roles => roles.tokensOf r ≠ []

/-- The first token of a role; it has no meaning for pins without one. -/
def leadOf (r : RoleType) (roles : RoleMap) : String := (roles.tokensOf r).headD ""

theorem RoleMap.first?_eq_ite (r : RoleType) (roles : RoleMap) :
    roles.first? r = if roles.tokensOf r ≠ [] then some (leadOf r roles) else none := by
  rw [first?_eq_head?, leadOf]
  cases roles.tokensOf r <;> simp

theorem map_leadOf_pinsWith (r : RoleType) (pins : List RoleMap) :
    (pinsWith r pins).map (leadOf r) = pins.filterMap (·.first? r) := by
  simp only [pinsWith, RoleMap.first?_eq_ite]
  rw [← List.filterMap_eq_map', List.filterMap_filter]
  simp

/-! ## Parts of the table -/

/-- The rows of a part of the table: one for each pin with a token of the role, with the first one for its number. They
are in natural order of their numbers, and in the order of the pinout where these are the same. -/
def TablePart (row? : RoleMap → Option ArduinoRow) (r : RoleType) (pins : List RoleMap) (rows : List ArduinoRow) :
    Prop :=
  ∃ order, StableSort (leadOf r) (pinsWith r pins) order ∧
    List.Forall₂ (fun roles row => row? roles = some row ∧ row.number = leadOf r roles) order rows

section Part

variable {row? : RoleMap → Option ArduinoRow} {r : RoleType}
  (hrow : ∀ roles, (row? roles).map ArduinoRow.number = roles.first? r)
include hrow

theorem isSome_row?_iff {roles : RoleMap} : (row? roles).isSome = true ↔ roles.tokensOf r ≠ [] := by
  rw [← Option.isSome_map, hrow, RoleMap.first?_eq_ite]
  split <;> simp_all

theorem number_eq_leadOf {roles : RoleMap} {row : ArduinoRow} (h : row? roles = some row) :
    row.number = leadOf r roles := by
  have hfirst := hrow roles
  rw [h, RoleMap.first?_eq_ite] at hfirst
  split at hfirst
  · exact Option.some.inj hfirst
  · cases hfirst

theorem filterMap_pinsWith (pins : List RoleMap) : (pinsWith r pins).filterMap row? = pins.filterMap row? := by
  rw [pinsWith, List.filterMap_filter]
  refine List.filterMap_congr fun roles _ => ?_
  cases h : row? roles with
  | none => simp
  | some row => simp [(isSome_row?_iff hrow).1 (Option.isSome_of_eq_some h)]

theorem forall₂_filterMap {pins : List RoleMap} (hpins : ∀ roles ∈ pins, roles.tokensOf r ≠ []) :
    List.Forall₂ (fun roles row => row? roles = some row ∧ row.number = leadOf r roles) pins
      (pins.filterMap row?) := by
  induction pins with
  | nil => exact .nil
  | cons roles pins ih =>
    obtain ⟨htokens, hpins⟩ := List.forall_mem_cons.1 hpins
    obtain ⟨row, h⟩ := Option.isSome_iff_exists.1 ((isSome_row?_iff hrow).2 htokens)
    rw [List.filterMap_cons_some h]
    exact .cons ⟨h, number_eq_leadOf hrow h⟩ (ih hpins)

/-- **Rows that are gathered and then sorted** are a part of the table: one might as well sort the pins first. -/
theorem tablePart_naturalSortBy (pins : List RoleMap) :
    TablePart row? r pins (naturalSortBy ArduinoRow.number (pins.filterMap row?)) := by
  have horder := stableSort_naturalSortBy (leadOf r) (pinsWith r pins)
  have hrows : StableSort ArduinoRow.number (pins.filterMap row?)
      ((naturalSortBy (leadOf r) (pinsWith r pins)).filterMap row?) := by
    rw [← filterMap_pinsWith hrow]
    exact horder.filterMap fun _ _ => number_eq_leadOf hrow
  refine ⟨_, horder, ?_⟩
  rw [(stableSort_naturalSortBy ArduinoRow.number _).unique hrows]
  refine forall₂_filterMap hrow fun roles hroles => ?_
  have hmem : roles ∈ pinsWith r pins := horder.perm.mem_iff.1 hroles
  simpa using (List.mem_filter.1 hmem).2

/-- Where no two pins have the same first token, the order of the pins does not show. -/
theorem naturalSortBy_filterMap_of_perm {pins others : List RoleMap} (hperm : others.Perm pins)
    (hdistinct : ((pinsWith r pins).map (leadOf r)).Nodup) :
    naturalSortBy ArduinoRow.number (others.filterMap row?) =
      naturalSortBy ArduinoRow.number (pins.filterMap row?) := by
  refine (naturalSortBy_congr ArduinoRow.number (hperm.symm.filterMap row?) ?_).symm
  rwa [ArduinoRow.map_number_filterMap hrow, ← map_leadOf_pinsWith]

end Part

/-! ## The table -/

/-- **The table of Arduino pins** has a row for each pin with a digital alias, and then one for each pin with an analog
alias, both sorted by the first of these. If no two pins have the same digital alias, and no two the same analog one,
pinouts with the same pins in any order have the same table. -/
theorem arduinoRows_parts (registry : RoleRegistry) (pinout : Dict RoleMap) :
    (∃ digital analog, arduinoRows pinout registry = digital ++ analog ∧
      TablePart (ArduinoRow.digital? registry) .ardD pinout.values digital ∧
      TablePart (ArduinoRow.analog? registry) .ardA pinout.values analog) ∧
    (((pinsWith .ardD pinout.values).map (leadOf .ardD)).Nodup →
      ((pinsWith .ardA pinout.values).map (leadOf .ardA)).Nodup →
      ∀ others : Dict RoleMap, others.Perm pinout → arduinoRows others registry = arduinoRows pinout registry) := by
  constructor
  · exact ⟨_, _, rfl, tablePart_naturalSortBy (ArduinoRow.number_digital? registry) pinout.values,
      tablePart_naturalSortBy (ArduinoRow.number_analog? registry) pinout.values⟩
  · intro hdigital hanalog others hperm
    have hpins : others.values.Perm pinout.values := hperm.map _
    rw [arduinoRows, naturalSortBy_filterMap_of_perm (ArduinoRow.number_digital? registry) hpins hdigital,
      naturalSortBy_filterMap_of_perm (ArduinoRow.number_analog? registry) hpins hanalog, arduinoRows]

/-- A pin with aliases of both kinds, pins with one, with none, and with an empty list of them. -/
def aliasedPins : Dict RoleMap :=
  [("1", (RoleMap.empty.insert .ardD (.list ["D10", "D1"])).insert .ardA (.text "A12")),
    ("2", RoleMap.empty.insert .gpio (.text "P2")),
    ("3", RoleMap.empty.insert .ardD (.text "D2")),
    ("4", (RoleMap.empty.insert .ardD (.list [])).insert .ardA (.text "A3"))]

theorem arduinoRows_parts_aliasedPins :
    ((pinsWith .ardD aliasedPins.values).map (leadOf .ardD)).Nodup ∧
      ((pinsWith .ardA aliasedPins.values).map (leadOf .ardA)).Nodup ∧
      (aliasedPins.drop 2 ++ aliasedPins.take 2).Perm aliasedPins ∧
      (arduinoRows aliasedPins .empty).map ArduinoRow.number = ["D2", "D10", "A3", "A12"] := by
  have hdigital : ((pinsWith .ardD aliasedPins.values).map (leadOf .ardD)).Nodup := by decide
  have hanalog : ((pinsWith .ardA aliasedPins.values).map (leadOf .ardA)).Nodup := by decide
  have hperm : (aliasedPins.drop 2 ++ aliasedPins.take 2).Perm aliasedPins := List.perm_append_comm
  refine ⟨hdigital, hanalog, hperm, ?_⟩
  -- In the other order the pins stand as the table lists them, so that sorting does nothing.
  rw [← (arduinoRows_parts .empty aliasedPins).2 hdigital hanalog _ hperm, arduinoRows, naturalSortBy, naturalSortBy,
    List.mergeSort_of_pairwise (by decide), List.mergeSort_of_pairwise (by decide)]
  rfl

end BoardAtlas
