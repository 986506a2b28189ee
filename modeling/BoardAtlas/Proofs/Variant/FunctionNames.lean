import BoardAtlas.Proofs.Variant.ArduinoTable

/-!
# Names of pin functions

Every pin that takes part gives defines for the texts of its functions, and pins may well share such texts. Of defines
with the same name a header keeps the one of the first pin, and then sorts them.

* `FunctionText`, `mem_shortTexts`: the short texts of the functions of a pin;
* `pinDefines`, `mem_pinDefines`, `flatMap_macroDefines_pinSites`: the defines that a pin gives, if it takes part;
* `GivesName`, `givesName_iff`: the pins that give a name;
* `find?_pinDefines`: the first define with a name, and its pin;
* **`VariantFacts.functionNames_ofBoard`**: which names there are, in which order, and what they stand for.
-/

namespace BoardAtlas

/-! ## Functions of a pin -/

/-- A short text of a registered role that names a pin. -/
def FunctionText (registry : RoleRegistry) (roles : RoleMap) (text : String) : Prop :=
  ∃ r ∈ namingRoles, ∃ role value, registry.get? r = some role ∧ roles.get? r = some value ∧
    text ∈ role.format value false commentHidden

theorem mem_shortTexts {registry : RoleRegistry} {s : PinSite} {text : String} :
    text ∈ s.shortTexts registry ↔ FunctionText registry s.roles text := by
  rw [PinSite.shortTexts, PinSite.texts, List.mem_flatMap]
  constructor
  · rintro ⟨⟨r, value⟩, hentry, htext⟩
    obtain ⟨hvalue, hr⟩ := List.mem_filter.1 hentry
    cases hrole : registry.get? r with
    | none => simp [hrole] at htext
    | some role =>
      simp only [hrole] at htext
      exact ⟨r, List.contains_iff_mem.1 hr, role, value, hrole, RoleMap.mem_entries.1 hvalue, htext⟩
  · rintro ⟨r, hr, role, value, hrole, hvalue, htext⟩
    refine ⟨(r, value), List.mem_filter.2 ⟨RoleMap.mem_entries.2 hvalue, List.contains_iff_mem.2 hr⟩, ?_⟩
    simpa only [hrole] using htext

/-- A pin that gives a name: its number can be read, it has an alias, and one of its functions has that name. -/
structure GivesName (registry : RoleRegistry) (roles : RoleMap) (name : String) : Prop where
  number : (readPin? roles).isSome = true
  arduino : (roles.first? .ardD).isSome = true ∨ (roles.first? .ardA).isSome = true
  text : ∃ text, FunctionText registry roles text ∧ name = "PIN_" ++ text

/-- The defines that a pin gives for its functions; there are none if it does not take part. -/
def pinDefines (registry : RoleRegistry) (entry : String × RoleMap) : List Define :=
  (PinSite.ofPin? entry.1 entry.2).toList.flatMap (PinSite.macroDefines registry)

theorem flatMap_macroDefines_pinSites (registry : RoleRegistry) (pinout : Dict RoleMap) :
    (pinSites pinout).flatMap (PinSite.macroDefines registry) = pinout.flatMap (pinDefines registry) := by
  rw [pinSites, List.filterMap_eq_flatMap_toList, List.flatMap_assoc]
  rfl

theorem exists_alias_iff {roles : RoleMap} : (∃ arduino, (PinSite.aliasesOfRoles roles).head? = some arduino) ↔
    (roles.first? .ardD).isSome = true ∨ (roles.first? .ardA).isSome = true := by
  rw [PinSite.aliasesOfRoles_eq]
  cases roles.first? .ardD <;> cases roles.first? .ardA <;> simp

/-- **The defines of a pin** carry its number and its device name. -/
theorem mem_pinDefines {registry : RoleRegistry} {entry : String × RoleMap} {d : Define} :
    d ∈ pinDefines registry entry ↔ GivesName registry entry.2 d.key ∧
      ∃ device number, readPin? entry.2 = some (device, number) ∧ d = ⟨d.key, number, some device⟩ := by
  simp only [pinDefines, List.mem_flatMap, Option.mem_toList, PinSite.ofPin?_eq_some_iff,
    PinSite.macroDefines, List.mem_map]
  constructor
  · rintro ⟨s, ⟨device, number, hread, arduino, halias, rfl⟩, text, htext, rfl⟩
    refine ⟨⟨by rw [hread]; rfl, exists_alias_iff.1 ⟨arduino, halias⟩, text, mem_shortTexts.1 htext, rfl⟩, ?_⟩
    exact ⟨device, number, hread, rfl⟩
  · rintro ⟨⟨-, harduino, text, htext, hkey⟩, device, number, hread, hd⟩
    obtain ⟨arduino, halias⟩ := exists_alias_iff.2 harduino
    refine ⟨⟨entry.1, entry.2, device, number, arduino⟩, ⟨device, number, hread, arduino, halias, rfl⟩, text,
      mem_shortTexts.2 htext, ?_⟩
    rw [hd, hkey]

theorem givesName_iff {registry : RoleRegistry} {entry : String × RoleMap} {name : String} :
    GivesName registry entry.2 name ↔ ∃ d ∈ pinDefines registry entry, d.key = name := by
  constructor
  · intro h
    obtain ⟨⟨device, number⟩, hread⟩ := Option.isSome_iff_exists.1 h.number
    exact ⟨⟨name, number, some device⟩, mem_pinDefines.2 ⟨h, device, number, hread, rfl⟩, rfl⟩
  · rintro ⟨d, hd, rfl⟩
    exact (mem_pinDefines.1 hd).1

/-- The first define with a name belongs to the first pin that gives the name. -/
theorem find?_pinDefines {registry : RoleRegistry} {pinout : Dict RoleMap} {name : String} {d : Define}
    (h : (pinout.flatMap (pinDefines registry)).find? (fun x => x.key == name) = some d) :
    ∃ before entry after, pinout = before ++ entry :: after ∧ d ∈ pinDefines registry entry ∧
      ∀ e ∈ before, ¬ GivesName registry e.2 name := by
  rw [List.find?_flatMap] at h
  obtain ⟨before, entry, after, hsplit, hfind, hnone⟩ := List.findSome?_eq_some_iff.1 h
  refine ⟨before, entry, after, hsplit, List.mem_of_find?_eq_some hfind, fun e he hgives => ?_⟩
  obtain ⟨x, hx, hname⟩ := givesName_iff.1 hgives
  exact List.find?_eq_none.1 (hnone e he) x hx (beq_iff_eq.2 hname)

/-! ## Headers -/

namespace VariantFacts

variable {registry : RoleRegistry} {lenient : Bool} {b : Board} {f : VariantFacts}

/-- **The functions of pins in a header.** There is one define for each name that some pin gives, in natural order. It
carries the number and the device name of the first pin that gives the name. -/
theorem functionNames_ofBoard (hcore : b.hasArduinoCore = true) (h : ofBoard registry lenient b = .ok f) :
    let defines := (f.definesOf? .macros).getD []
    (defines.map Define.key).Nodup ∧
      defines.Pairwise (fun d e => Text.naturalCompare d.key e.key = .lt) ∧
      (∀ name, name ∈ defines.map Define.key ↔ ∃ pin roles, (pin, roles) ∈ b.pinout ∧ GivesName registry roles name) ∧
      ∀ d ∈ defines, ∃ before pin roles after device number,
        b.pinout = before ++ (pin, roles) :: after ∧ GivesName registry roles d.key ∧
        (∀ e ∈ before, ¬ GivesName registry e.2 d.key) ∧
        readPin? roles = some (device, number) ∧ d.value = number ∧ d.comment = some device := by
  intro defines
  have hdefines : defines = Text.naturalSortBy Define.key
      (Listing.firstsBy Define.key (b.pinout.flatMap (pinDefines registry))) := by
    have hwritten : defines = (Draft.ofSites registry (variantSites b)).close.written .macros :=
      getD_definesOf?_eq_written h HeaderPart.noConfusion
    rw [hwritten, Draft.close_ofSites, ← flatMap_macroDefines_pinSites, ← variantSites_eq_pinSites hcore]
    rfl
  have hperm := Text.perm_naturalSortBy Define.key
    (Listing.firstsBy Define.key (b.pinout.flatMap (pinDefines registry)))
  have hnodup := Listing.nodup_map_firstsBy Define.key (b.pinout.flatMap (pinDefines registry))
  rw [hdefines]
  refine ⟨(hperm.map Define.key).nodup_iff.2 hnodup, Text.pairwise_lt_naturalSortBy Define.key hnodup,
    fun name => ?names, fun d hd => ?first⟩
  case names =>
    rw [(hperm.map Define.key).mem_iff, Listing.mem_map_firstsBy, List.mem_map]
    constructor
    · rintro ⟨d, hd, rfl⟩
      obtain ⟨⟨pin, roles⟩, hentry, hd⟩ := List.mem_flatMap.1 hd
      exact ⟨pin, roles, hentry, givesName_iff.2 ⟨d, hd, rfl⟩⟩
    · rintro ⟨pin, roles, hentry, hgives⟩
      obtain ⟨d, hd, hname⟩ : ∃ d ∈ pinDefines registry (pin, roles), d.key = name := givesName_iff.1 hgives
      exact ⟨d, List.mem_flatMap.2 ⟨(pin, roles), hentry, hd⟩, hname⟩
  case first =>
    obtain ⟨before, ⟨pin, roles⟩, after, hsplit, hmem, hbefore⟩ :=
      find?_pinDefines (Listing.mem_firstsBy.1 (hperm.mem_iff.1 hd))
    obtain ⟨hgives, device, number, hread, he⟩ := mem_pinDefines.1 hmem
    exact ⟨before, pin, roles, after, device, number, hsplit, hgives, hbefore, hread, congrArg Define.value he,
      congrArg Define.comment he⟩

/-- Two registered roles that name pins. -/
def namingRegistry : RoleRegistry :=
  (RoleRegistry.empty.insert ⟨.gpio, "GPIO", "green", 2.0, .verbatim⟩).insert ⟨.uart, "UART", "blue", 1.5, .indexSwap⟩

/-- Two pins with an alias and a signal in common, and one without an alias. -/
def sharedSignal : Dict RoleMap :=
  [("1", ((RoleMap.empty.insert .gpio (.text "P10")).insert .ardD (.text "D1")).insert .uart (.text "1_TX")),
    ("2", ((RoleMap.empty.insert .gpio (.text "P2")).insert .ardD (.text "D1")).insert .uart (.list ["1_TX", "1_RX"])),
    ("3", RoleMap.empty.insert .gpio (.text "P3"))]

theorem functionNames_ofBoard_sharedSignal :
    (arduinoBoard sharedSignal).hasArduinoCore = true ∧
      ∃ f, ofBoard namingRegistry true (arduinoBoard sharedSignal) = .ok f ∧
        "PIN_TX1" ∈ ((f.definesOf? .macros).getD []).map Define.key ∧
        ∀ d ∈ (f.definesOf? .macros).getD [], d.key = "PIN_TX1" → d.value = 10 ∧ d.comment = some "P10" := by
  obtain ⟨f, hf⟩ := (exists_ofBoard_eq_ok namingRegistry true (arduinoBoard sharedSignal)).2 (Or.inl rfl)
  obtain ⟨-, -, hnames, hfirst⟩ := functionNames_ofBoard rfl hf
  have hgives : GivesName namingRegistry (sharedSignal.head (by decide)).2 "PIN_TX1" :=
    ⟨by decide +kernel, .inl rfl, "TX1", ⟨.uart, by decide, _, _, rfl, rfl, by decide +kernel⟩, by decide⟩
  refine ⟨rfl, f, hf, (hnames _).2 ⟨"1", _, List.mem_cons_self, hgives⟩, fun d hd hkey => ?_⟩
  obtain ⟨before, pin, roles, after, device, number, hsplit, -, hbefore, hread, hvalue, hcomment⟩ := hfirst d hd
  -- The first pin gives the name, so that no pin stands before the one that is meant.
  cases before with
  | nil =>
    cases hsplit
    have hten : readPin? (sharedSignal.head (by decide)).2 = some ("P10", 10) := by decide +kernel
    obtain ⟨rfl, rfl⟩ : "P10" = device ∧ 10 = number := by simpa using hten.symm.trans hread
    exact ⟨hvalue, hcomment⟩
  | cons e before =>
    obtain ⟨rfl, -⟩ := List.cons.inj hsplit
    rw [hkey] at hbefore
    exact absurd hgives (hbefore _ List.mem_cons_self)

end VariantFacts

end BoardAtlas
