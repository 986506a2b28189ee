import BoardAtlas.Proofs.Variant.Sections

/-!
# Aliases in a header

An alias belongs to the first pin whose alias that counts it is. Only that alias of a pin is looked up, and
all aliases are written; so a header repeats a key exactly when any two aliases of its pins are the same.

* `variantSites`: the pins that take part in the variant of a board;
* `clash?_eq_none_iff`, `clash?_eq_some_iff`: when an alias that counts is taken, and by which pin;
* `exists_ofBoard_eq_ok`, `ofBoard_eq_error`: the outcome for a board;
* `getD_definesOf?_eq_written`: the sections of a header as they are gathered from pins;
* **`nodup_arduinoKeys_iff`**: when the keys of a header all differ.
-/

namespace BoardAtlas

/-- The pins that take part in the variant of a board. -/
def variantSites (b : Board) : List PinSite :=
  match b.pins?, b.hasArduinoCore with
  | some pinout, true => pinSites pinout
  | _, _ => []

theorem PinSite.ofPin?_eq_some_iff {pin : String} {roles : RoleMap} {s : PinSite} :
    ofPin? pin roles = some s ↔ ∃ device number, readPin? roles = some (device, number) ∧
      ∃ arduino, (aliasesOfRoles roles).head? = some arduino ∧ ⟨pin, roles, device, number, arduino⟩ = s := by
  simp only [ofPin?, Option.bind_eq_bind, Option.bind_eq_some_iff, Option.some.injEq, Prod.exists]

/-! ## Taken aliases -/

section Clash

variable {seen sites : List PinSite}

theorem clashAfter?_eq_none_iff :
    clashAfter? seen sites = none ↔
      (sites.map PinSite.arduino).Nodup ∧ ∀ s ∈ sites, s.arduino ∉ seen.map PinSite.arduino := by
  induction sites generalizing seen with
  | nil => simp [clashAfter?]
  | cons s rest ih =>
    have hmem : (seen.find? fun t => t.arduino == s.arduino) = none ↔
        s.arduino ∉ seen.map PinSite.arduino := by
      simp [List.find?_eq_none]
    rw [clashAfter?, List.map_cons, List.nodup_cons, List.forall_mem_cons, ← hmem]
    cases hf : seen.find? fun t => t.arduino == s.arduino with
    | some first => simp
    | none =>
      rw [ih]
      simp only [List.map_append, List.map_singleton, List.mem_append, List.mem_singleton, not_or,
        true_and]
      constructor
      · rintro ⟨hnodup, hrest⟩
        refine ⟨⟨fun hm => ?_, hnodup⟩, fun t ht => (hrest t ht).1⟩
        obtain ⟨t, ht, he⟩ := List.mem_map.1 hm
        exact (hrest t ht).2 he
      · rintro ⟨⟨hs, hnodup⟩, hrest⟩
        refine ⟨hnodup, fun t ht => ⟨hrest t ht, fun he => hs ?_⟩⟩
        exact List.mem_map.2 ⟨t, ht, he⟩

theorem clash?_eq_none_iff : clash? sites = none ↔ (sites.map PinSite.arduino).Nodup := by
  rw [clash?, clashAfter?_eq_none_iff]
  simp

theorem clashAfter?_eq_some_iff {first second : PinSite} :
    clashAfter? seen sites = some (first, second) ↔
      ∃ before after, sites = before ++ second :: after ∧ clashAfter? seen before = none ∧
        (seen ++ before).find? (fun t => t.arduino == second.arduino) = some first := by
  induction sites generalizing seen with
  | nil => simp [clashAfter?]
  | cons s rest ih =>
    rw [clashAfter?]
    cases hf : seen.find? fun t => t.arduino == s.arduino with
    | some owner =>
      constructor
      · rintro ⟨⟩
        exact ⟨[], rest, rfl, rfl, by rwa [List.append_nil]⟩
      · rintro ⟨before, after, he, hnone, hfind⟩
        cases before with
        | nil =>
          cases he
          rw [List.append_nil, hf] at hfind
          rw [hfind]
        | cons t before =>
          cases he
          simp [clashAfter?, hf] at hnone
    | none =>
      rw [ih]
      constructor
      · rintro ⟨before, after, rfl, hnone, hfind⟩
        refine ⟨s :: before, after, rfl, ?_, ?_⟩
        · rw [clashAfter?, hf]
          exact hnone
        · rwa [List.append_cons]
      · rintro ⟨before, after, he, hnone, hfind⟩
        cases before with
        | nil =>
          cases he
          rw [List.append_nil, hf] at hfind
          cases hfind
        | cons t before =>
          cases he
          rw [clashAfter?, hf] at hnone
          rw [List.append_cons] at hfind
          exact ⟨before, after, rfl, hnone, hfind⟩

/-- The first pin whose alias is taken, and the first pin that has it. -/
theorem clash?_eq_some_iff {first second : PinSite} :
    clash? sites = some (first, second) ↔
      ∃ before after, sites = before ++ second :: after ∧ (before.map PinSite.arduino).Nodup ∧
        before.find? (fun t => t.arduino == second.arduino) = some first := by
  simp only [clash?, clashAfter?_eq_some_iff, List.nil_append]
  simp only [← clash?_eq_none_iff, clash?]

end Clash

/-! ## The outcome for a board -/

namespace VariantFacts

variable {registry : RoleRegistry} {lenient : Bool} {b : Board}

theorem ofBoard_eq_of_core {pinout : Dict RoleMap} (hp : b.pins? = some pinout)
    (hc : b.hasArduinoCore = true) : variantSites b = pinSites pinout := by
  rw [variantSites, hp, hc]

theorem ofBoard_cases (registry : RoleRegistry) (lenient : Bool) (b : Board) :
    (variantSites b = [] ∧ ofBoard registry lenient b = .ok ⟨b.id, [], none⟩) ∨
      ofBoard registry lenient b =
        match if lenient then none else clash? (variantSites b) with
        | some (first, second) => .error (.duplicateAlias b.id second.arduino first.pin second.pin)
        | none => .ok ((Draft.ofSites registry (variantSites b)).close.facts b.id) := by
  cases hp : b.pins? with
  | none => exact Or.inl ⟨by rw [variantSites, hp], by rw [ofBoard, hp]⟩
  | some pinout =>
    cases hc : b.hasArduinoCore with
    | false => exact Or.inl ⟨by rw [variantSites, hp, hc], by rw [ofBoard, hp, hc]⟩
    | true =>
      rw [ofBoard_eq_of_core hp hc]
      exact Or.inr (ofBoard_eq registry lenient hp hc)

theorem getD_definesOf?_facts (board : String) (d : Draft) (part : HeaderPart) :
    ((d.facts board).definesOf? part).getD [] = d.written part := by
  by_cases hw : d.written part = []
  · cases hd : (d.facts board).definesOf? part with
    | none => exact hw.symm
    | some defines =>
      obtain ⟨s, hs, rfl⟩ := Option.map_eq_some_iff.1 hd
      have hpart : s.part = part := by simpa using List.find?_some hs
      obtain ⟨hmem, -⟩ := List.mem_filter.1 (List.mem_of_find?_eq_some hs)
      obtain ⟨p, -, rfl⟩ := List.mem_map.1 hmem
      rw [← hpart]
      rfl
  · rw [Draft.definesOf?_facts board d part hw]
    rfl

/-- The sections other than the counts, for boards with or without facts. -/
theorem getD_definesOf?_eq_written {f : VariantFacts} (h : ofBoard registry lenient b = .ok f) {part : HeaderPart}
    (hpart : part ≠ .pins) :
    (f.definesOf? part).getD [] = (Draft.ofSites registry (variantSites b)).close.written part := by
  rcases ofBoard_cases registry lenient b with ⟨hs, hb⟩ | hb
  · rw [hb] at h
    cases h
    rw [hs, Draft.close_ofSites]
    cases part with
    | pins => exact absurd rfl hpart
    | arduino => rfl
    | ports => simp [Draft.written, portsDefines, indexesOf_nil, portsOf, definesOf?]
    | bus bus => simp [Draft.written, busDefines, indexesOf_nil, definesOf?]
    | macros => exact List.mergeSort_nil.symm
  · rw [hb] at h
    split at h
    · cases h
    · cases h
      exact getD_definesOf?_facts _ _ _

/-- The keys of a section, with none if it is left out. -/
def keysOf (f : VariantFacts) (part : HeaderPart) : List String :=
  ((f.definesOf? part).getD []).map Define.key

theorem keysOf_arduino {f : VariantFacts} (h : ofBoard registry lenient b = .ok f) :
    f.keysOf .arduino = ((variantSites b).flatMap PinSite.aliases).map ("PIN_" ++ ·) := by
  rw [keysOf, getD_definesOf?_eq_written h HeaderPart.noConfusion, Draft.close_ofSites]
  simp only [Draft.written, arduinoDefines, List.map_flatMap, PinSite.aliasDefines, List.map_map]
  rfl

theorem ofBoard_eq_error {e : BoardError} :
    ofBoard registry lenient b = .error e ↔
      lenient = false ∧ ∃ before second after first,
        variantSites b = before ++ second :: after ∧ (before.map PinSite.arduino).Nodup ∧
        before.find? (fun t => t.arduino == second.arduino) = some first ∧
        e = .duplicateAlias b.id second.arduino first.pin second.pin := by
  have hclash : (∃ first second, clash? (variantSites b) = some (first, second) ∧
      e = .duplicateAlias b.id second.arduino first.pin second.pin) ↔
      ∃ before second after first,
        variantSites b = before ++ second :: after ∧ (before.map PinSite.arduino).Nodup ∧
        before.find? (fun t => t.arduino == second.arduino) = some first ∧
        e = .duplicateAlias b.id second.arduino first.pin second.pin := by
    simp only [clash?_eq_some_iff]
    constructor
    · rintro ⟨first, second, ⟨before, after, hs, hn, hf⟩, he⟩
      exact ⟨before, second, after, first, hs, hn, hf, he⟩
    · rintro ⟨before, second, after, first, hs, hn, hf, he⟩
      exact ⟨first, second, ⟨before, after, hs, hn, hf⟩, he⟩
  rw [← hclash]
  rcases ofBoard_cases registry lenient b with ⟨hs, hb⟩ | hb
  · rw [hb, hs]
    simp [clash?, clashAfter?]
  · rw [hb]
    cases lenient with
    | true => simp
    | false =>
      cases clash? (variantSites b) with
      | none => simp
      | some p =>
        obtain ⟨first, second⟩ := p
        constructor
        · rintro ⟨⟩
          exact ⟨rfl, first, second, rfl, rfl⟩
        · rintro ⟨-, _, _, ⟨⟩, rfl⟩
          rfl

/-- There are facts unless aliases are strict and one that counts is given twice. -/
theorem exists_ofBoard_eq_ok (registry : RoleRegistry) (lenient : Bool) (b : Board) :
    (∃ f, ofBoard registry lenient b = .ok f) ↔
      lenient = true ∨ ((variantSites b).map PinSite.arduino).Nodup := by
  rw [← clash?_eq_none_iff]
  rcases ofBoard_cases registry lenient b with ⟨hs, hb⟩ | hb
  · rw [hb, hs]
    simp [clash?, clashAfter?]
  · rw [hb]
    cases lenient with
    | true => simp
    | false => cases clash? (variantSites b) <;> simp

theorem exists_ofBoard_eq_error (registry : RoleRegistry) (lenient : Bool) (b : Board) :
    (∃ e, ofBoard registry lenient b = .error e) ↔
      lenient = false ∧ ¬ ((variantSites b).map PinSite.arduino).Nodup := by
  have hok := exists_ofBoard_eq_ok registry lenient b
  have herror : (∃ e, ofBoard registry lenient b = .error e) ↔
      ¬ ∃ f, ofBoard registry lenient b = .ok f := by
    cases ofBoard registry lenient b <;> simp
  rw [herror, hok, not_or, Bool.not_eq_true]

/-- **Repeated keys.** The keys of a header all differ exactly when all aliases of its pins do, those that
count and those that do not. A pin is refused only if the alias of it that counts is taken, and only where
aliases are strict. -/
theorem nodup_arduinoKeys_iff (registry : RoleRegistry) (lenient : Bool) (b : Board) :
    (∀ f, ofBoard registry lenient b = .ok f →
      ((f.keysOf .arduino).Nodup ↔ ((variantSites b).flatMap PinSite.aliases).Nodup)) ∧
    ∀ e, ofBoard registry lenient b = .error e ↔
      lenient = false ∧ ∃ before second after first,
        variantSites b = before ++ second :: after ∧ (before.map PinSite.arduino).Nodup ∧
        before.find? (fun t => t.arduino == second.arduino) = some first ∧
        e = .duplicateAlias b.id second.arduino first.pin second.pin := by
  refine ⟨fun f h => ?_, fun e => ofBoard_eq_error⟩
  have hinj (x y : String) : "PIN_" ++ x ≠ "PIN_" ++ y ↔ x ≠ y :=
    not_congr (String.append_right_inj "PIN_")
  rw [keysOf_arduino h]
  constructor
  · exact fun hk => (List.pairwise_map.1 hk).imp (hinj _ _).1
  · exact fun ha => List.pairwise_map.2 (ha.imp (hinj _ _).2)

/-- A board with the Arduino framework and some pins. -/
def arduinoBoard (pinout : Dict RoleMap) : Board where
  id := "test"
  manifest := "test"
  name := "Test"
  vendor := "V"
  url := none
  connectivity := []
  frameworks := ["arduino"]
  build := {}
  upload := {}
  debug := {}
  doc := {}
  flash := []
  pcb := some {
    id := none, symbol := "T", templates := [], scale := none, vars := [], ic := [], front := []
    back := [], pads := [], testPads := [], pinout, pinoutHidden := [] }

/-- Two pins with an analog alias in common, which for one of them does not count. -/
def sharedAnalog : Dict RoleMap :=
  [("1", ((RoleMap.empty.insert .gpio (.text "P1")).insert .ardD (.text "D0")).insert .ardA
      (.text "A0")),
    ("2", (RoleMap.empty.insert .gpio (.text "P2")).insert .ardA (.text "A0"))]

/-- Two pins with a digital alias in common. -/
def sharedDigital : Dict RoleMap :=
  [("1", (RoleMap.empty.insert .gpio (.text "P1")).insert .ardD (.text "D0")),
    ("2", (RoleMap.empty.insert .gpio (.text "P2")).insert .ardD (.text "D0"))]

theorem nodup_arduino_sharedAnalog :
    ((variantSites (arduinoBoard sharedAnalog)).map PinSite.arduino).Nodup := by
  change ["D0", "A0"].Nodup
  decide

theorem nodup_arduinoKeys_iff_sharedAnalog :
    ∃ f, ofBoard .empty false (arduinoBoard sharedAnalog) = .ok f ∧
      ¬ (f.keysOf .arduino).Nodup := by
  obtain ⟨f, hf⟩ := (exists_ofBoard_eq_ok .empty false _).2 (Or.inr nodup_arduino_sharedAnalog)
  refine ⟨f, hf, fun hkeys => ?_⟩
  have hall : ["D0", "A0", "A0"].Nodup := ((nodup_arduinoKeys_iff _ _ _).1 f hf).1 hkeys
  exact absurd hall (by decide)

/-- A key is given twice by an alias that does not count, or where aliases are lenient. -/
theorem repeated_arduinoKeys :
    (∃ f, ofBoard .empty false (arduinoBoard sharedAnalog) = .ok f ∧
      f.keysOf .arduino = ["PIN_D0", "PIN_A0", "PIN_A0"]) ∧
    ∃ f, ofBoard .empty true (arduinoBoard sharedDigital) = .ok f ∧
      f.keysOf .arduino = ["PIN_D0", "PIN_D0"] := by
  obtain ⟨f, hf⟩ := (exists_ofBoard_eq_ok .empty false _).2 (Or.inr nodup_arduino_sharedAnalog)
  obtain ⟨g, hg⟩ := (exists_ofBoard_eq_ok .empty true (arduinoBoard sharedDigital)).2 (Or.inl rfl)
  exact ⟨⟨f, hf, keysOf_arduino hf⟩, g, hg, keysOf_arduino hg⟩

end VariantFacts

end BoardAtlas
