import BoardAtlas.Proofs.Ascending
import BoardAtlas.Proofs.Variant.PinTable

/-!
# Pins in another order

Where no two pins have the same alias, every pin is the first with its alias, so that nothing said of the pins
together hangs on their order: the features of an alias, the counts, the largest number, the indexes of a bus.
The table of pins is sorted by aliases that all differ.

* `firstSites_of_nodup`, `featuresOf_perm`, `largestNumber_perm`, `indexesOf_perm`: what is said of pins;
* `pins_facts_perm`, `definesOf?_pins_perm`, `definesOf?_ports_perm`: the parts of the facts;
* **`ofBoard_reordered`**: two boards whose pinouts differ in their order.
-/

namespace BoardAtlas

section Pins

variable {sites others : List PinSite}

theorem firstSites_of_nodup (h : (sites.map PinSite.arduino).Nodup) : firstSites sites = sites :=
  Listing.firstsBy_of_nodup h

theorem featuresOf_perm (hperm : sites.Perm others) (h : (sites.map PinSite.arduino).Nodup)
    (a : String) : featuresOf sites a = featuresOf others a := by
  refine List.Perm.foldl_eq' (hperm.filter _) (fun s hs t ht f => ?_) PinFeatures.empty
  obtain ⟨hs, hsa⟩ := List.mem_filter.1 hs
  obtain ⟨ht, hta⟩ := List.mem_filter.1 ht
  have hsame : s.arduino = t.arduino := (beq_iff_eq.1 hsa).trans (beq_iff_eq.1 hta).symm
  have hst : s = t := List.inj_on_of_nodup_map h hs ht hsame
  rw [hst]

theorem largestNumber_perm (hperm : sites.Perm others) :
    largestNumber sites = largestNumber others := by
  refine List.Perm.foldl_eq' hperm (fun s _ t _ n => ?_) 0
  omega

theorem countRole_perm (hperm : sites.Perm others) (h : (sites.map PinSite.arduino).Nodup)
    (r : RoleType) : countRole sites r = countRole others r := by
  have hothers : (others.map PinSite.arduino).Nodup := (hperm.map _).nodup_iff.1 h
  rw [countRole, countRole, firstSites_of_nodup h, firstSites_of_nodup hothers]
  exact (hperm.filter _).length_eq

theorem countsOf_perm (hperm : sites.Perm others) (h : (sites.map PinSite.arduino).Nodup) :
    countsOf sites = countsOf others := by
  have hothers : (others.map PinSite.arduino).Nodup := (hperm.map _).nodup_iff.1 h
  have hlength : (firstSites sites).length = (firstSites others).length := by
    rw [firstSites_of_nodup h, firstSites_of_nodup hothers]
    exact hperm.length_eq
  simp only [countsOf, hlength, countRole_perm hperm h]

theorem completeIndexes_congr {bus : Bus} {uses more : List SignalUse}
    (h : ∀ u, u ∈ uses ↔ u ∈ more) : completeIndexes bus uses = completeIndexes bus more := by
  have hindexes : Listing.ascendingNumbers (uses.map SignalUse.index) =
      Listing.ascendingNumbers (more.map SignalUse.index) := by
    refine Listing.ascendingNumbers_congr fun i => ?_
    simp only [List.mem_map, h]
  have hcomplete : isComplete bus uses = isComplete bus more := by
    funext i
    rw [Bool.eq_iff_iff]
    simp only [isComplete, List.all_eq_true, List.any_eq_true, h]
  rw [completeIndexes, completeIndexes, hindexes, hcomplete]

theorem indexesOf_perm (hperm : sites.Perm others) (bus : Bus) :
    indexesOf bus sites = indexesOf bus others :=
  completeIndexes_congr fun _ => (hperm.flatMap_right _).mem_iff

end Pins

/-! ## The parts of the facts -/

namespace VariantFacts

variable {sites others : List PinSite} (registry : RoleRegistry) (board : String)

theorem pins_facts_perm (hperm : sites.Perm others) (h : (sites.map PinSite.arduino).Nodup) :
    ((Draft.ofSites registry sites).close.facts board).pins =
      ((Draft.ofSites registry others).close.facts board).pins := by
  have hothers : (others.map PinSite.arduino).Nodup := (hperm.map _).nodup_iff.1 h
  have hentries : ((firstSites sites).map (entryOf registry sites)).Perm
      ((firstSites others).map (entryOf registry others)) := by
    have hentry : entryOf registry sites = entryOf registry others := by
      funext s
      rw [entryOf, entryOf, featuresOf_perm hperm h]
    rw [firstSites_of_nodup h, firstSites_of_nodup hothers, hentry]
    exact hperm.map _
  have hkeys : (((firstSites sites).map (entryOf registry sites)).map PinEntry.arduino).Nodup := by
    rw [map_arduino_entries, firstSites_of_nodup h]
    exact h
  rw [pins_facts, pins_facts, Text.naturalSortBy_congr PinEntry.arduino hentries hkeys,
    hentries.isEmpty_eq]

theorem definesOf?_facts_congr {d e : Draft} {part : HeaderPart}
    (h : d.written part = e.written part) :
    (d.facts board).definesOf? part = (e.facts board).definesOf? part := by
  have hempty (d : Draft) (hd : d.written part = []) : (d.facts board).definesOf? part = none := by
    rw [definesOf?, Option.map_eq_none_iff, List.find?_eq_none]
    intro s hs hpart
    obtain ⟨hmem, hne⟩ := List.mem_filter.1 hs
    obtain ⟨p, -, rfl⟩ := List.mem_map.1 hmem
    have hp : p = part := beq_iff_eq.1 hpart
    rw [hp, hd] at hne
    cases hne
  by_cases hd : d.written part = []
  · rw [hempty d hd, hempty e (h ▸ hd)]
  · rw [Draft.definesOf?_facts board d part hd, Draft.definesOf?_facts board e part (h ▸ hd), h]

theorem definesOf?_pins_perm (hperm : sites.Perm others) (h : (sites.map PinSite.arduino).Nodup) :
    ((Draft.ofSites registry sites).close.facts board).definesOf? .pins =
      ((Draft.ofSites registry others).close.facts board).definesOf? .pins := by
  refine definesOf?_facts_congr board ?_
  rw [Draft.close_ofSites, Draft.close_ofSites]
  change countsOf sites ++ [⟨_, largestNumber sites, _⟩] =
    countsOf others ++ [⟨_, largestNumber others, _⟩]
  rw [countsOf_perm hperm h, largestNumber_perm hperm]

theorem definesOf?_ports_perm (hperm : sites.Perm others) :
    ((Draft.ofSites registry sites).close.facts board).definesOf? .ports =
      ((Draft.ofSites registry others).close.facts board).definesOf? .ports := by
  refine definesOf?_facts_congr board ?_
  rw [Draft.close_ofSites, Draft.close_ofSites]
  change portsDefines sites = portsDefines others
  simp only [portsDefines, indexesOf_perm hperm]

/-! ## Boards -/

variable {board}

/-- A board with other pins. -/
def withPinout (b : Board) (pinout : Dict RoleMap) : Board :=
  { b with pcb := b.pcb.map fun p => { p with pinout } }

theorem pins?_withPinout {b : Board} {pinout : Dict RoleMap}
    (h : ∀ p, b.pcb = some p → pinout.Perm p.pinout) :
    (b.pins? = none ∧ (withPinout b pinout).pins? = none) ∨
      ∃ own, b.pins? = some own ∧ (withPinout b pinout).pins? = some pinout ∧ own.Perm pinout := by
  cases hp : b.pcb with
  | none => exact Or.inl ⟨by rw [Board.pins?, hp]; rfl, by rw [Board.pins?, withPinout, hp]; rfl⟩
  | some p =>
    have hperm := h p hp
    rw [Board.pins?, Board.pins?, withPinout, hp]
    simp only [Option.map_some, Option.filter_some, hperm.isEmpty_eq]
    cases p.pinout.isEmpty with
    | true => exact Or.inl ⟨rfl, rfl⟩
    | false => exact Or.inr ⟨p.pinout, rfl, rfl, hperm.symm⟩

theorem variantSites_withPinout {b : Board} {pinout : Dict RoleMap}
    (h : ∀ p, b.pcb = some p → pinout.Perm p.pinout) :
    (variantSites b).Perm (variantSites (withPinout b pinout)) := by
  have hcore : (withPinout b pinout).hasArduinoCore = b.hasArduinoCore := rfl
  rw [variantSites, variantSites, hcore]
  rcases pins?_withPinout h with ⟨hb, hw⟩ | ⟨own, hb, hw, hperm⟩
  · rw [hb, hw]
  · rw [hb, hw]
    cases b.hasArduinoCore with
    | true => exact hperm.filterMap _
    | false => exact List.Perm.refl []

/-- **Order does not matter.** Where aliases are strict, a board and one with its pins in another order both
have facts or both have none, and the table of pins, the counts with the largest number, and the indexes of
the buses are the same. -/
theorem ofBoard_reordered (registry : RoleRegistry) (b : Board) (pinout : Dict RoleMap)
    (h : ∀ p, b.pcb = some p → pinout.Perm p.pinout) :
    ((∃ e, ofBoard registry false b = .error e) ↔
      ∃ e, ofBoard registry false (withPinout b pinout) = .error e) ∧
    ∀ f g, ofBoard registry false b = .ok f → ofBoard registry false (withPinout b pinout) = .ok g →
      f.pins = g.pins ∧ f.definesOf? .pins = g.definesOf? .pins ∧
        f.definesOf? .ports = g.definesOf? .ports := by
  have hsites := variantSites_withPinout h
  have hnodup : ((variantSites b).map PinSite.arduino).Nodup ↔
      ((variantSites (withPinout b pinout)).map PinSite.arduino).Nodup :=
    (hsites.map PinSite.arduino).nodup_iff
  have herror := exists_ofBoard_eq_error registry false
  refine ⟨by rw [herror, herror, hnodup], fun f g hf hg => ?_⟩
  have hunique : ((variantSites b).map PinSite.arduino).Nodup := by
    by_contra hn
    obtain ⟨e, he⟩ := (herror b).2 ⟨rfl, hn⟩
    rw [hf] at he
    cases he
  rcases pins?_withPinout h with ⟨hb, hw⟩ | ⟨own, hb, hw, -⟩
  · -- Without pins neither board has facts to compare.
    rw [ofBoard, hb] at hf
    rw [ofBoard, hw] at hg
    cases hf
    cases hg
    exact ⟨rfl, rfl, rfl⟩
  · cases hc : b.hasArduinoCore with
    | false =>
      have hcw : (withPinout b pinout).hasArduinoCore = false := hc
      rw [ofBoard, hb, hc] at hf
      rw [ofBoard, hw, hcw] at hg
      cases hf
      cases hg
      exact ⟨rfl, rfl, rfl⟩
    | true =>
      have hcw : (withPinout b pinout).hasArduinoCore = true := hc
      obtain rfl := eq_facts_of_ofBoard hb hc hf
      obtain rfl := eq_facts_of_ofBoard hw hcw hg
      rw [ofBoard_eq_of_core hb hc, ofBoard_eq_of_core hw hcw] at hsites
      rw [ofBoard_eq_of_core hb hc] at hunique
      exact ⟨pins_facts_perm registry b.id hsites hunique,
        definesOf?_pins_perm registry b.id hsites hunique,
        definesOf?_ports_perm registry b.id hsites⟩

/-- Pins that make up a bus together, one of which cannot be read. -/
def wirePins : Dict RoleMap :=
  [("1", ((RoleMap.empty.insert .gpio (.text "P10")).insert .ardD (.text "D10")).insert .i2c
      (.text "0_SDA")),
    ("2", (RoleMap.empty.insert .gpio (.text "P")).insert .ardD (.text "D10")),
    ("3", ((RoleMap.empty.insert .gpio (.text "P4")).insert .ardA (.text "A2")).insert .i2c
      (.text "0_SCL"))]

theorem ofBoard_reordered_wirePins :
    (∀ p, (arduinoBoard wirePins).pcb = some p → wirePins.reverse.Perm p.pinout) ∧
      ∃ f g, ofBoard .empty false (arduinoBoard wirePins) = .ok f ∧
        ofBoard .empty false (withPinout (arduinoBoard wirePins) wirePins.reverse) = .ok g ∧
        (variantSites (arduinoBoard wirePins)).map PinSite.arduino = ["D10", "A2"] ∧
        (variantSites (withPinout (arduinoBoard wirePins) wirePins.reverse)).map PinSite.arduino =
          ["A2", "D10"] ∧
        f.pins = g.pins ∧ f.definesOf? .ports = g.definesOf? .ports := by
  have hperm : ∀ p, (arduinoBoard wirePins).pcb = some p → wirePins.reverse.Perm p.pinout := by
    rintro _ ⟨⟩
    exact List.reverse_perm wirePins
  have hnodup : ["D10", "A2"].Nodup ∧ ["A2", "D10"].Nodup := by decide
  obtain ⟨f, hf⟩ := (exists_ofBoard_eq_ok .empty false (arduinoBoard wirePins)).2 (Or.inr hnodup.1)
  obtain ⟨g, hg⟩ := (exists_ofBoard_eq_ok .empty false
    (withPinout (arduinoBoard wirePins) wirePins.reverse)).2 (Or.inr hnodup.2)
  obtain ⟨-, hsame⟩ := ofBoard_reordered .empty (arduinoBoard wirePins) wirePins.reverse hperm
  obtain ⟨hpins, -, hports⟩ := hsame f g hf hg
  exact ⟨hperm, f, g, hf, hg, rfl, rfl, hpins, hports⟩

end VariantFacts

end BoardAtlas
