import BoardAtlas.Proofs.Board.ArduinoRows
import Mathlib.Data.Set.Card

/-!
# Counts of functions

The summary of a pinout says for four roles how many different functions the pins have. An indexed token stands for its
index, so that the signals of one bus are one function; any other token stands for itself.

* `Identifies`, `identifies_iff`: what a token stands for;
* `functionIds`, `length_countedNames`: the functions of a role and their number;
* `SameTokens`, `functionIds_congr`: pinouts with the same tokens in another order;
* **`BoardDocs.ioCounts_distinct`**: the summary in terms of these numbers.
-/

namespace BoardAtlas

/-! ## Lists without copies -/

namespace Listing

variable {α : Type} [BEq α] [LawfulBEq α] {xs : List α}

theorem nodup_firsts (xs : List α) : (firsts xs).Nodup := by
  have h := nodup_map_firstsBy id xs
  rwa [List.map_id] at h

theorem mem_firsts {x : α} : x ∈ firsts xs ↔ x ∈ xs := by
  have h := @mem_map_firstsBy α α _ _ id xs x
  rwa [List.map_id, List.map_id] at h

end Listing

/-! ## Functions of a role -/

/-- What a token stands for where functions are counted. -/
inductive Identifies (token : String) : String → Prop
  | index {index signal : String} (h : splitIndexed? token = some (index, signal)) : Identifies token index
  | whole (h : splitIndexed? token = none) : Identifies token token

/-- The functions of a role that pins have. -/
def functionIds (pinout : Dict RoleMap) (r : RoleType) : Set String :=
  {id | ∃ entry ∈ pinout, ∃ token ∈ entry.2.tokensOf r, Identifies token id}

theorem mem_functionIds {pinout : Dict RoleMap} {r : RoleType} {id : String} : id ∈ functionIds pinout r ↔
    ∃ entry ∈ pinout, ∃ token ∈ entry.2.tokensOf r, Identifies token id := Iff.rfl

theorem identifies_iff {token id : String} : Identifies token id ↔ BoardDocs.countedName token = id := by
  rw [BoardDocs.countedName]
  constructor
  · rintro (hindex | hwhole)
    · rw [hindex]
    · rw [hwhole]
  · rintro rfl
    cases h : splitIndexed? token with
    | none => exact .whole h
    | some parts =>
      obtain ⟨index, signal⟩ := parts
      exact .index h

theorem exists_mem_iff_of_forall₂ {α β : Type} {R : α → β → Prop} {P : α → Prop} {Q : β → Prop} {as : List α}
    {bs : List β} (h : List.Forall₂ R as bs) (hR : ∀ a b, R a b → (P a ↔ Q b)) :
    (∃ a ∈ as, P a) ↔ ∃ b ∈ bs, Q b := by
  induction h with
  | nil => simp
  | cons hab _ ih => rw [List.exists_mem_cons_iff, List.exists_mem_cons_iff, ih, hR _ _ hab]

/-- The same pins in another order, their roles with the same tokens in another order. -/
def SameTokens (pinout other : Dict RoleMap) : Prop :=
  ∃ arranged, pinout.Perm arranged ∧ List.Forall₂ (fun entry entry' =>
    entry.1 = entry'.1 ∧ ∀ r, (entry.2.tokensOf r).Perm (entry'.2.tokensOf r)) arranged other

theorem functionIds_congr {pinout other : Dict RoleMap} (h : SameTokens pinout other) (r : RoleType) :
    functionIds pinout r = functionIds other r := by
  obtain ⟨arranged, hperm, hsame⟩ := h
  ext id
  calc id ∈ functionIds pinout r
    _ ↔ ∃ entry ∈ arranged, ∃ token ∈ entry.2.tokensOf r, Identifies token id := by
      simp only [mem_functionIds, hperm.mem_iff]
    _ ↔ id ∈ functionIds other r := by
      refine exists_mem_iff_of_forall₂ hsame ?_
      rintro entry entry' ⟨-, htokens⟩
      simp only [(htokens r).mem_iff]

namespace BoardDocs

/-! ## The summary -/

theorem countedNames_eq (pins : List RoleMap) (r : RoleType) :
    countedNames pins r = Listing.firsts (pins.flatMap fun roles => (roles.tokensOf r).map countedName) := by
  unfold countedNames
  congr 2
  funext roles
  rw [RoleMap.tokensOf]
  cases roles.get? r <;> rfl

theorem mem_countedNames {pinout : Dict RoleMap} {r : RoleType} {name : String} :
    name ∈ countedNames pinout.values r ↔ name ∈ functionIds pinout r := by
  simp only [countedNames_eq, Listing.mem_firsts, Dict.values, List.flatMap_map, List.mem_flatMap, List.mem_map,
    mem_functionIds, identifies_iff]

theorem coe_toFinset_countedNames (pinout : Dict RoleMap) (r : RoleType) :
    ((countedNames pinout.values r).toFinset : Set String) = functionIds pinout r := by
  ext name
  rw [Finset.mem_coe, List.mem_toFinset, mem_countedNames]

theorem length_countedNames (pinout : Dict RoleMap) (r : RoleType) :
    (countedNames pinout.values r).length = (functionIds pinout r).ncard := by
  rw [← coe_toFinset_countedNames, Set.ncard_coe_finset, List.toFinset_card_of_nodup]
  exact Listing.nodup_firsts _

/-- **The summary counts different functions.** It is made of a part for GPIO, PWM, UART and ADC, in this order, each
with the number of functions that the pins have of the role; the part of a role without functions is left out. Neither
the order of pins nor that of tokens shows. -/
theorem ioCounts_distinct (pinout : Dict RoleMap) :
    (∀ r, (functionIds pinout r).Finite) ∧
    ioCounts pinout = Text.joined ", " (([.gpio, .pwm, .uart, .adc] : List RoleType).filterMap fun r =>
      if (functionIds pinout r).ncard = 0 then none
      else some (toString (functionIds pinout r).ncard ++ "x " ++ r.name)) ∧
    ∀ other, SameTokens pinout other → ioCounts other = ioCounts pinout := by
  have hcounts (pinout : Dict RoleMap) : ioCounts pinout =
      Text.joined ", " (([.gpio, .pwm, .uart, .adc] : List RoleType).filterMap fun r =>
        if (functionIds pinout r).ncard = 0 then none
        else some (toString (functionIds pinout r).ncard ++ "x " ++ r.name)) := by
    simp only [ioCounts, length_countedNames]
    rfl
  refine ⟨fun r => ?finite, hcounts pinout, fun other hsame => ?same⟩
  case finite =>
    rw [← coe_toFinset_countedNames]
    exact Finset.finite_toSet _
  case same =>
    rw [hcounts, hcounts]
    simp only [functionIds_congr hsame]

/-- A bus with two indexes, of which one is also a plain token. -/
def serialPins : Dict RoleMap :=
  [("1", (RoleMap.empty.insert .gpio (.text "P8")).insert .uart (.list ["1_TX", "2_TX"])),
    ("2", (RoleMap.empty.insert .gpio (.text "P7")).insert .uart (.list ["1", "1_RX"]))]

/-- The same pins and tokens in another order. -/
def serialPinsReversed : Dict RoleMap :=
  [("2", (RoleMap.empty.insert .gpio (.text "P7")).insert .uart (.list ["1_RX", "1"])),
    ("1", (RoleMap.empty.insert .gpio (.text "P8")).insert .uart (.list ["2_TX", "1_TX"]))]

theorem ioCounts_distinct_serialPins : SameTokens serialPins serialPinsReversed ∧
    ioCounts serialPinsReversed = "2x GPIO, 2x UART" := by
  have hsame : SameTokens serialPins serialPinsReversed := by
    refine ⟨_, List.Perm.swap _ _ [], .cons ⟨rfl, fun r => ?_⟩ (.cons ⟨rfl, fun r => ?_⟩ .nil)⟩ <;>
      cases r <;> decide
  have hcount : ioCounts serialPins = "2x GPIO, 2x UART" := by decide +kernel
  exact ⟨hsame, ((ioCounts_distinct serialPins).2.2 _ hsame).trans hcount⟩

end BoardDocs

end BoardAtlas
