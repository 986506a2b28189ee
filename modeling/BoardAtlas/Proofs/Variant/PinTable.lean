import BoardAtlas.Proofs.Ascending
import BoardAtlas.Proofs.Variant.Aliases
import BoardAtlas.Proofs.Text.NaturalOrder

/-!
# The table of pins

The table has one entry for each alias that counts, the counts are those of the first pins with an alias, and
features are gathered from all pins with it. Sorting moves entries about and changes none.

* `has_foldl_add`, `has_featuresOf`: the features of an alias;
* `mem_firstSites`, `getD_pins_facts`, `definesOf?_pins`: the entries of the table, and the counts;
* **`ofBoard_pinTable`**: the table and the counts of a board.
-/

namespace BoardAtlas

/-! ## Features -/

namespace PinFeatures

theorem feature?_ne_none (r : RoleType) : r.feature? ≠ some .none := by
  cases r <;> decide

/-- Of features that are added none is lost; the mark for having none goes with the first of them. -/
theorem has_foldl_add {fs : List PinFeature} (h : .none ∉ fs) (s : PinFeatures) (g : PinFeature) :
    (fs.foldl add s).has g = true ↔ g ∈ fs ∨ s.has g = true ∧ (g = .none → fs = []) := by
  induction fs generalizing s with
  | nil => simp
  | cons f rest ih =>
    obtain ⟨hf, hrest⟩ := not_or.1 fun hm => h (List.mem_cons.2 hm)
    rw [List.foldl_cons, ih hrest, has_add, List.mem_cons]
    by_cases hg : g = .none
    · subst hg
      simp [hf]
    · by_cases he : g = f
      · simp [he, Ne.symm hf]
      · simp [hg, he]

end PinFeatures

/-- The features of the roles of a pin. -/
def PinSite.features (s : PinSite) : List PinFeature :=
  (s.roles.entries.map Prod.fst).filterMap RoleType.feature?

theorem PinSite.mem_features {s : PinSite} {g : PinFeature} :
    g ∈ s.features ↔ ∃ r, s.roles.has r = true ∧ r.feature? = some g := by
  simp only [features, List.mem_filterMap, List.mem_map, Prod.exists, exists_and_right,
    exists_eq_right, RoleMap.mem_entries, RoleMap.has, Option.isSome_iff_exists]

theorem featuresOf_eq (sites : List PinSite) (a : String) :
    featuresOf sites a = ((sites.filter fun s => s.arduino == a).flatMap PinSite.features).foldl
      PinFeatures.add .empty := by
  rw [List.foldl_flatMap]
  rfl

theorem exists_mem_features {pinout : Dict RoleMap} {s : PinSite} (hs : s ∈ pinSites pinout) :
    ∃ g, g ∈ s.features := by
  obtain ⟨⟨pin, roles⟩, -, hof⟩ := List.mem_filterMap.1 hs
  obtain ⟨device, number, -, arduino, halias, rfl⟩ := PinSite.ofPin?_eq_some_iff.1 hof
  obtain ⟨kind, -, hkind⟩ := List.mem_filterMap.1 (List.mem_of_head? halias)
  obtain ⟨v, hv, -⟩ := Option.bind_eq_some_iff.1 hkind
  have hrole : roles.has kind.roleType = true := by rw [RoleMap.has, hv]; rfl
  cases kind with
  | digital => exact ⟨.gpio, PinSite.mem_features.2 ⟨_, hrole, rfl⟩⟩
  | analog => exact ⟨.adc, PinSite.mem_features.2 ⟨_, hrole, rfl⟩⟩

/-- **The features of an alias** are those of the roles of all its pins. -/
theorem has_featuresOf {pinout : Dict RoleMap} {a : String}
    (ha : a ∈ (pinSites pinout).map PinSite.arduino) (g : PinFeature) :
    (featuresOf (pinSites pinout) a).has g = true ↔
      ∃ t ∈ pinSites pinout, t.arduino = a ∧ ∃ r, t.roles.has r = true ∧ r.feature? = some g := by
  have hmem (g : PinFeature) :
      g ∈ ((pinSites pinout).filter fun s => s.arduino == a).flatMap PinSite.features ↔
        ∃ t ∈ pinSites pinout, t.arduino = a ∧ ∃ r, t.roles.has r = true ∧ r.feature? = some g := by
    simp only [List.mem_flatMap, List.mem_filter, beq_iff_eq, PinSite.mem_features, and_assoc]
  have hnone : .none ∉ ((pinSites pinout).filter fun s => s.arduino == a).flatMap
      PinSite.features := by
    rw [hmem]
    rintro ⟨t, -, -, r, -, hr⟩
    exact PinFeatures.feature?_ne_none r hr
  obtain ⟨s, hs, rfl⟩ := List.mem_map.1 ha
  obtain ⟨first, hfirst⟩ := exists_mem_features hs
  have hsome : first ∈ ((pinSites pinout).filter fun t => t.arduino == s.arduino).flatMap
      PinSite.features := (hmem first).2 ⟨s, hs, rfl, PinSite.mem_features.1 hfirst⟩
  rw [featuresOf_eq, PinFeatures.has_foldl_add hnone, hmem]
  refine or_iff_left ?_
  rintro ⟨hempty, hnil⟩
  have hg : g = .none := of_decide_eq_true hempty
  rw [hnil hg] at hsome
  cases hsome

/-! ## Entries -/

/-- The first pins are those that are found under their own aliases. -/
theorem mem_firstSites {sites : List PinSite} {s : PinSite} :
    s ∈ firstSites sites ↔ sites.find? (fun t => t.arduino == s.arduino) = some s :=
  Listing.mem_firstsBy

namespace VariantFacts

variable {registry : RoleRegistry} {lenient : Bool} {b : Board} {pinout : Dict RoleMap}

theorem eq_facts_of_ofBoard {f : VariantFacts} (hp : b.pins? = some pinout)
    (hc : b.hasArduinoCore = true) (h : ofBoard registry lenient b = .ok f) :
    f = (Draft.ofSites registry (pinSites pinout)).close.facts b.id := by
  rw [ofBoard_eq registry lenient hp hc] at h
  split at h
  · cases h
  · cases h
    rfl

theorem firstSites_eq_nil_iff {sites : List PinSite} : firstSites sites = [] ↔ sites = [] := by
  constructor
  · intro h
    refine List.eq_nil_iff_forall_not_mem.2 fun s hs => ?_
    have hm := mem_arduino_firstSites.2 (List.mem_map.2 ⟨s, hs, rfl⟩)
    rw [h] at hm
    cases hm
  · rintro rfl
    rfl

theorem pins_facts (registry : RoleRegistry) (board : String) (sites : List PinSite) :
    ((Draft.ofSites registry sites).close.facts board).pins =
      if ((firstSites sites).map (entryOf registry sites)).isEmpty then none
      else some (Text.naturalSortBy PinEntry.arduino
        ((firstSites sites).map (entryOf registry sites))) := by
  rw [Draft.close_ofSites]
  rfl

theorem pins_facts_eq_none_iff (registry : RoleRegistry) (board : String) {sites : List PinSite} :
    ((Draft.ofSites registry sites).close.facts board).pins = none ↔ sites = [] := by
  rw [pins_facts, ← firstSites_eq_nil_iff]
  cases firstSites sites <;> simp

/-- The entries of the table are those of the first pins, in natural order. -/
theorem getD_pins_facts (registry : RoleRegistry) (board : String) (sites : List PinSite) :
    ((Draft.ofSites registry sites).close.facts board).pins.getD [] =
      Text.naturalSortBy PinEntry.arduino ((firstSites sites).map (entryOf registry sites)) := by
  rw [pins_facts]
  split
  · next he =>
    rw [List.isEmpty_iff.1 he]
    exact List.mergeSort_nil.symm
  · rfl

theorem map_arduino_entries (registry : RoleRegistry) (sites : List PinSite) :
    ((firstSites sites).map (entryOf registry sites)).map PinEntry.arduino =
      (firstSites sites).map PinSite.arduino := by
  rw [List.map_map]
  rfl

/-- The counts are the first defines of a header, and the largest number is the last of its section. -/
theorem definesOf?_pins (registry : RoleRegistry) (board : String) (sites : List PinSite) :
    ((Draft.ofSites registry sites).close.facts board).definesOf? .pins =
      some (countsOf sites ++
        [⟨"PINS_GPIO_MAX", largestNumber sites, some "Last usable GPIO number"⟩]) := by
  rw [Draft.close_ofSites]
  exact Draft.definesOf?_facts _ _ .pins (List.cons_ne_nil _ _)

/-- **The table of pins and the counts.** With strict aliases there are facts exactly when no two pins have the same
alias. The table has one entry for each alias, of the first pin with it and with the features of all of them. -/
theorem ofBoard_pinTable (registry : RoleRegistry) (lenient : Bool) (b : Board)
    (pinout : Dict RoleMap) (hp : b.pins? = some pinout) (hc : b.hasArduinoCore = true) :
    ((∃ e, ofBoard registry false b = .error e) ↔
      ¬ ((pinSites pinout).map PinSite.arduino).Nodup) ∧
    ∀ f, ofBoard registry lenient b = .ok f →
      (f.pins = none ↔ pinSites pinout = []) ∧
      (∀ a, a ∈ (f.pins.getD []).map PinEntry.arduino ↔
        a ∈ (pinSites pinout).map PinSite.arduino) ∧
      (f.pins.getD []).Pairwise
        (fun x y => Text.naturalCompare x.arduino y.arduino = .lt) ∧
      (∀ e ∈ f.pins.getD [],
        (∃ s, (pinSites pinout).find? (fun s => s.arduino == e.arduino) = some s ∧
          e.device = s.device ∧ e.comment = s.comment registry) ∧
        e.features.has .none = false ∧
        ∀ g, e.features.has g = true ↔ ∃ t ∈ pinSites pinout, t.arduino = e.arduino ∧
          ∃ r, t.roles.has r = true ∧ r.feature? = some g) ∧
      ∃ largest,
        f.definesOf? .pins = some (pinCounts (f.pins.getD []).length
          (countRole (pinSites pinout) .ardD) (countRole (pinSites pinout) .ardA)
          (countRole (pinSites pinout) .pwm) ++
          [⟨"PINS_GPIO_MAX", largest, some "Last usable GPIO number"⟩]) ∧
        (∀ s ∈ pinSites pinout, s.number ≤ largest) ∧
        (largest = 0 ∨ ∃ s ∈ pinSites pinout, s.number = largest) := by
  refine ⟨?_, fun f hf => ?_⟩
  · have hok := exists_ofBoard_eq_ok registry false b
    rw [ofBoard_eq_of_core hp hc] at hok
    cases h : ofBoard registry false b with
    | ok f => simpa [h] using hok
    | error e => simpa [h] using hok
  obtain rfl := eq_facts_of_ofBoard hp hc hf
  rw [getD_pins_facts, definesOf?_pins]
  have hperm := Text.perm_naturalSortBy PinEntry.arduino
    ((firstSites (pinSites pinout)).map (entryOf registry (pinSites pinout)))
  have haliases := map_arduino_entries registry (pinSites pinout)
  refine ⟨pins_facts_eq_none_iff registry b.id, fun a => ?_, ?_, fun e he => ?_,
    largestNumber (pinSites pinout), ?_, (Listing.foldl_max_bounds _ 0).2, Listing.foldl_max_attained _ 0⟩
  · rw [(hperm.map PinEntry.arduino).mem_iff, haliases, mem_arduino_firstSites]
  · refine Text.pairwise_lt_naturalSortBy PinEntry.arduino ?_
    rw [haliases]
    exact Listing.nodup_map_firstsBy PinSite.arduino _
  · obtain ⟨s, hs, rfl⟩ := List.mem_map.1 (hperm.mem_iff.1 he)
    have hfirst := mem_firstSites.1 hs
    have ha : s.arduino ∈ (pinSites pinout).map PinSite.arduino :=
      List.mem_map.2 ⟨s, List.mem_of_find?_eq_some hfirst, rfl⟩
    refine ⟨⟨s, hfirst, rfl, rfl⟩, ?_, has_featuresOf ha⟩
    rw [← Bool.not_eq_true]
    rintro hnone
    obtain ⟨t, -, -, r, -, hr⟩ := (has_featuresOf ha .none).1 hnone
    exact PinFeatures.feature?_ne_none r hr
  · rw [hperm.length_eq, List.length_map]
    rfl

/-- Pins of which two share an alias and one cannot be read. -/
def sharedPins : Dict RoleMap :=
  [("1", (RoleMap.empty.insert .gpio (.text "P10")).insert .ardD (.text "D10")),
    ("2", (RoleMap.empty.insert .gpio (.text "P")).insert .ardD (.text "D3")),
    ("3", ((RoleMap.empty.insert .gpio (.text "P2")).insert .ardD (.text "D10")).insert .pwm
      (.text "0")),
    ("4", (RoleMap.empty.insert .adc (.text "P4")).insert .ardA (.text "A2"))]

theorem ofBoard_pinTable_sharedPins :
    (arduinoBoard sharedPins).pins? = some sharedPins ∧
      (arduinoBoard sharedPins).hasArduinoCore = true ∧
      (∃ e, ofBoard .empty false (arduinoBoard sharedPins) = .error e) ∧
      ∃ f, ofBoard .empty true (arduinoBoard sharedPins) = .ok f ∧
        (∀ a, a ∈ (f.pins.getD []).map PinEntry.arduino ↔ a ∈ ["D10", "D10", "A2"]) ∧
        ∃ largest, f.definesOf? .pins = some (pinCounts (f.pins.getD []).length 1 1 0 ++
          [⟨"PINS_GPIO_MAX", largest, some "Last usable GPIO number"⟩]) := by
  have hp : (arduinoBoard sharedPins).pins? = some sharedPins := rfl
  have hc : (arduinoBoard sharedPins).hasArduinoCore = true := rfl
  obtain ⟨hstrict, htable⟩ := ofBoard_pinTable .empty true _ _ hp hc
  obtain ⟨f, hf⟩ := (exists_ofBoard_eq_ok .empty true (arduinoBoard sharedPins)).2 (Or.inl rfl)
  obtain ⟨-, haliases, -, -, largest, hpins, -, -⟩ := htable f hf
  refine ⟨hp, hc, hstrict.2 ?_, f, hf, haliases, largest, hpins⟩
  change ¬ ["D10", "D10", "A2"].Nodup
  decide

end VariantFacts

end BoardAtlas
