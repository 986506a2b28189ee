import BoardAtlas.Proofs.Role.HiddenNames
import BoardAtlas.Proofs.Variant.FunctionNames
import Mathlib.Data.List.Nodup

/-!
# Names of bus signals

An indexed token of a bus is shown with its index in front of the signal in the long form and behind it in the short
form. The long form keeps the underscore between them. In the short form nothing tells where a signal that ends in
digits stops and its index begins, so that two signals may get one name; a header then has one define for both.

* `apply_indexSwap`, `apply_long`: the two forms;
* `RunTogether`, `signal_append_index_eq_iff`: tokens with one short name;
* `GivesSignal`, `GivesSignal.givesName`: pins that give the short name of a token to a header;
* `macros_ofBoard`, `exists_macro`: the defines of a header for functions;
* **`signalNames_differ`**: which tokens have names of their own, and defines of their own.
-/

namespace BoardAtlas

/-! ## Names of tokens -/

section Names

variable {name token index signal : String}

theorem apply_indexSwap (h : splitIndexed? token = some (index, signal)) (long : Bool) :
    FormatRule.indexSwap.apply name long token =
      if long then name ++ index ++ "_" ++ signal else signal ++ index := by
  simp only [FormatRule.apply, h]

/-- The long form is the name of the role with the token behind it. -/
theorem apply_long (h : splitIndexed? token = some (index, signal)) :
    FormatRule.indexSwap.apply name true token = name ++ token := by
  obtain ⟨rfl, -⟩ := splitIndexed?_eq_some_iff.1 h
  rw [apply_indexSwap h, if_pos rfl, String.append_assoc, String.append_assoc, String.append_assoc]

theorem apply_short (h : splitIndexed? token = some (index, signal)) :
    FormatRule.indexSwap.apply name false token = signal ++ index := by
  rw [apply_indexSwap h, if_neg (by decide)]

end Names

/-- The first token becomes the second if digits are moved from the beginning of its index to the end of its signal. -/
def RunTogether (token other : String) : Prop :=
  ∃ index digits signal, isNumeral digits = true ∧ splitIndexed? token = some (digits ++ index, signal) ∧
    splitIndexed? other = some (index, signal ++ digits)

variable {token other index signal index' signal' : String}

theorem runTogether_of_append (digits : String) (ht : splitIndexed? token = some (index, signal))
    (hu : splitIndexed? other = some (index', signal')) (hne : token ≠ other) (hsignal : signal' = signal ++ digits)
    (hindex : index = digits ++ index') : RunTogether token other := by
  subst hsignal hindex
  obtain ⟨rfl, hnumeral, -⟩ := splitIndexed?_eq_some_iff.1 ht
  obtain ⟨rfl, -, -⟩ := splitIndexed?_eq_some_iff.1 hu
  refine ⟨index', digits, signal, isNumeral_iff.2 ⟨fun hnil => ?_, fun c hc => ?_⟩, ht, hu⟩
  · have hempty : digits = "" := by simpa using hnil
    subst hempty
    exact hne (by simp)
  · exact (isNumeral_iff.1 hnumeral).2 c (by simp [hc])

/-- **Two tokens have one short name** only if digits can be moved between them. -/
theorem signal_append_index_eq_iff (ht : splitIndexed? token = some (index, signal))
    (hu : splitIndexed? other = some (index', signal')) (hne : token ≠ other) :
    signal ++ index = signal' ++ index' ↔ RunTogether token other ∨ RunTogether other token := by
  have hlists : signal ++ index = signal' ++ index' ↔
      signal.toList ++ index.toList = signal'.toList ++ index'.toList := by
    rw [← String.toList_append, ← String.toList_append, String.toList_inj]
  rw [hlists, List.append_eq_append_iff]
  constructor
  · rintro (⟨digits, hsignal, hindex⟩ | ⟨digits, hsignal, hindex⟩)
    · refine .inl (runTogether_of_append (String.ofList digits) ht hu hne ?_ ?_)
      · exact String.toList_inj.1 (by simpa using hsignal)
      · exact String.toList_inj.1 (by simpa using hindex)
    · refine .inr (runTogether_of_append (String.ofList digits) hu ht hne.symm ?_ ?_)
      · exact String.toList_inj.1 (by simpa using hsignal)
      · exact String.toList_inj.1 (by simpa using hindex)
  · rintro (⟨i, digits, s, -, htoken, hother⟩ | ⟨i, digits, s, -, hother, htoken⟩)
    · cases ht.symm.trans htoken
      cases hu.symm.trans hother
      exact .inl ⟨digits.toList, String.toList_append, String.toList_append⟩
    · cases ht.symm.trans htoken
      cases hu.symm.trans hother
      exact .inr ⟨digits.toList, String.toList_append, String.toList_append⟩

theorem not_runTogether (hu : splitIndexed? other = some (index', signal'))
    (hend : ∀ c ∈ signal'.toList.getLast?, c.isDigit = false) : ¬ RunTogether token other := by
  rintro ⟨i, digits, s, hnumeral, -, hother⟩
  cases hu.symm.trans hother
  obtain ⟨hne, hdigits⟩ := isNumeral_iff.1 hnumeral
  have hlast : (s ++ digits).toList.getLast? = some (digits.toList.getLast hne) := by
    rw [String.toList_append, List.getLast?_append_of_ne_nil _ hne, List.getLast?_eq_some_getLast hne]
  have hdigit := hdigits _ (List.getLast_mem hne)
  rw [hend _ hlast] at hdigit
  cases hdigit

/-! ## Defines of a header -/

/-- A pin that gives the short name of a token to the header: it takes part in the variant, and has the token of a bus
that is registered with the rule for indexed tokens and is not hidden. -/
structure GivesSignal (registry : RoleRegistry) (role : RoleType) (roles : RoleMap) (token : String) : Prop where
  number : (readPin? roles).isSome = true
  arduino : (roles.first? .ardD).isSome = true ∨ (roles.first? .ardA).isSome = true
  naming : role ∈ namingRoles
  shown : ∃ entry value, registry.get? role = some entry ∧ entry.rule = .indexSwap ∧ roles.get? role = some value ∧
    token ∈ value.tokens ∧ ¬ HidesToken entry.roleType .indexSwap false commentHidden token

theorem GivesSignal.givesName {registry : RoleRegistry} {role : RoleType} {roles : RoleMap}
    (h : GivesSignal registry role roles token) (hsplit : splitIndexed? token = some (index, signal)) :
    GivesName registry roles ("PIN_" ++ (signal ++ index)) := by
  obtain ⟨entry, value, hentry, hrule, hvalue, htoken, hshown⟩ := h.shown
  refine ⟨h.number, h.arduino, signal ++ index, ⟨role, h.naming, entry, value, hentry, hvalue, ?_⟩, rfl⟩
  rw [Role.format, hrule, formatTokens_eq_map_filter, List.mem_map]
  exact ⟨token, List.mem_filter.2 ⟨htoken, decide_eq_true hshown⟩, apply_short hsplit⟩

namespace VariantFacts

variable {registry : RoleRegistry} {lenient : Bool} {b : Board} {f : VariantFacts}

/-- The defines of a header for functions: those of its pins, the first one with each name, in natural order. -/
theorem macros_ofBoard (hcore : b.hasArduinoCore = true) (h : ofBoard registry lenient b = .ok f) :
    (f.definesOf? .macros).getD [] = Text.naturalSortBy Define.key
      (Listing.firstsBy Define.key (b.pinout.flatMap (pinDefines registry))) := by
  have hwritten : (f.definesOf? .macros).getD [] = (Draft.ofSites registry (variantSites b)).close.written .macros :=
    getD_definesOf?_eq_written h HeaderPart.noConfusion
  rw [hwritten, Draft.close_ofSites, ← flatMap_macroDefines_pinSites, ← variantSites_eq_pinSites hcore]
  rfl

theorem exists_macro (hcore : b.hasArduinoCore = true) (h : ofBoard registry lenient b = .ok f)
    {entry : String × RoleMap} (hentry : entry ∈ b.pinout) {name : String} (hname : GivesName registry entry.2 name) :
    ∃ d ∈ (f.definesOf? .macros).getD [], d.key = name := by
  obtain ⟨d, hd, hkey⟩ := givesName_iff.1 hname
  have hmem : name ∈ (b.pinout.flatMap (pinDefines registry)).map Define.key :=
    List.mem_map.2 ⟨d, List.mem_flatMap.2 ⟨entry, hentry, hd⟩, hkey⟩
  rw [← Listing.mem_map_firstsBy] at hmem
  obtain ⟨e, he, hkey⟩ := List.mem_map.1 hmem
  rw [macros_ofBoard hcore h]
  exact ⟨e, (Text.perm_naturalSortBy _ _).mem_iff.2 he, hkey⟩

theorem macro_eq_of_key (hcore : b.hasArduinoCore = true) (h : ofBoard registry lenient b = .ok f) {d e : Define}
    (hd : d ∈ (f.definesOf? .macros).getD []) (he : e ∈ (f.definesOf? .macros).getD []) (hkey : d.key = e.key) :
    d = e := by
  rw [macros_ofBoard hcore h, (Text.perm_naturalSortBy _ _).mem_iff] at hd he
  exact List.inj_on_of_nodup_map (Listing.nodup_map_firstsBy Define.key _) hd he hkey

end VariantFacts

/-! ## Names of their own -/

/-- **Names of bus signals.** Two indexed tokens of a role have different long names. Their short names differ unless
digits can be moved from the end of one signal to the beginning of the other index, and just then a header has one
define for both. -/
theorem signalNames_differ (role : RoleType) {t u i s j r : String} (ht : splitIndexed? t = some (i, s))
    (hu : splitIndexed? u = some (j, r)) (hne : t ≠ u) :
    FormatRule.indexSwap.apply role.name true t ≠ FormatRule.indexSwap.apply role.name true u ∧
    (FormatRule.indexSwap.apply role.name false t = FormatRule.indexSwap.apply role.name false u ↔
      RunTogether t u ∨ RunTogether u t) ∧
    ((∀ c ∈ s.toList.getLast?, c.isDigit = false) → (∀ c ∈ r.toList.getLast?, c.isDigit = false) →
      FormatRule.indexSwap.apply role.name false t ≠ FormatRule.indexSwap.apply role.name false u) ∧
    ∀ registry lenient b f, b.hasArduinoCore = true → VariantFacts.ofBoard registry lenient b = .ok f →
      ∀ e ∈ b.pinout, ∀ e' ∈ b.pinout, GivesSignal registry role e.2 t → GivesSignal registry role e'.2 u →
      ∃ d ∈ (f.definesOf? .macros).getD [], ∃ d' ∈ (f.definesOf? .macros).getD [],
        d.key = "PIN_" ++ FormatRule.indexSwap.apply role.name false t ∧
        d'.key = "PIN_" ++ FormatRule.indexSwap.apply role.name false u ∧
        (d = d' ↔ RunTogether t u ∨ RunTogether u t) := by
  have hshort : FormatRule.indexSwap.apply role.name false t = FormatRule.indexSwap.apply role.name false u ↔
      RunTogether t u ∨ RunTogether u t := by
    rw [apply_short ht, apply_short hu]
    exact signal_append_index_eq_iff ht hu hne
  refine ⟨?long, hshort, fun hs hr => ?letters, ?header⟩
  case long =>
    rw [apply_long ht, apply_long hu]
    exact fun h => hne ((String.append_right_inj _).1 h)
  case letters =>
    rw [Ne, hshort]
    exact not_or.2 ⟨not_runTogether hu hr, not_runTogether ht hs⟩
  case header =>
    intro registry lenient b f hcore hf e he e' he' hgives hgives'
    obtain ⟨d, hd, hkey⟩ := VariantFacts.exists_macro hcore hf he (hgives.givesName ht)
    obtain ⟨d', hd', hkey'⟩ := VariantFacts.exists_macro hcore hf he' (hgives'.givesName hu)
    rw [← apply_short ht] at hkey
    rw [← apply_short hu] at hkey'
    refine ⟨d, hd, d', hd', hkey, hkey', ?_⟩
    -- Defines are known by their names, so the two are one just where the short names are.
    rw [← hshort]
    constructor
    · rintro rfl
      exact (String.append_right_inj _).1 (hkey.symm.trans hkey')
    · intro h
      exact VariantFacts.macro_eq_of_key hcore hf hd hd' (by rw [hkey, hkey', h])

/-- A digit moves from the signal to the index. -/
theorem shared_shortName : "11_CS" ≠ "1_CS1" ∧ splitIndexed? "11_CS" = some ("11", "CS") ∧
    splitIndexed? "1_CS1" = some ("1", "CS1") ∧
    FormatRule.indexSwap.apply RoleType.spi.name false "11_CS" = "CS11" ∧
    FormatRule.indexSwap.apply RoleType.spi.name false "1_CS1" = "CS11" := by decide

/-- Two pins whose signals run together. -/
def chipSelects : Dict RoleMap :=
  [("1", ((RoleMap.empty.insert .gpio (.text "P1")).insert .ardD (.text "D1")).insert .spi (.text "11_CS")),
    ("2", ((RoleMap.empty.insert .gpio (.text "P2")).insert .ardD (.text "D2")).insert .spi (.text "1_CS1"))]

/-- A registry of one role. -/
def spiRegistry : RoleRegistry := RoleRegistry.empty.insert ⟨.spi, "SPI", "blue", 1.5, .indexSwap⟩

theorem signalNames_differ_chipSelects :
    let name (long : Bool) (token : String) := FormatRule.indexSwap.apply RoleType.spi.name long token
    name true "11_CS" ≠ name true "1_CS1" ∧ name false "11_CS" = name false "1_CS1" ∧
      name false "11_CS" ≠ name false "1_CS" ∧
      ∃ f, VariantFacts.ofBoard spiRegistry true (VariantFacts.arduinoBoard chipSelects) = .ok f ∧
        ∃ d ∈ (f.definesOf? .macros).getD [], d.key = "PIN_CS11" ∧
        ∃ d' ∈ (f.definesOf? .macros).getD [], d'.key = "PIN_CS11" ∧ d = d' := by
  intro name
  have ht : splitIndexed? "11_CS" = some ("11", "CS") := by decide
  have hu : splitIndexed? "1_CS1" = some ("1", "CS1") := by decide
  have hv : splitIndexed? "1_CS" = some ("1", "CS") := by decide
  have htogether : RunTogether "11_CS" "1_CS1" := ⟨"1", "1", "CS", by decide, ht, hu⟩
  obtain ⟨hlong, hshort, -, hheader⟩ := signalNames_differ .spi ht hu (by decide)
  obtain ⟨-, -, hletters, -⟩ := signalNames_differ .spi ht hv (by decide)
  obtain ⟨f, hf⟩ := (VariantFacts.exists_ofBoard_eq_ok spiRegistry true (VariantFacts.arduinoBoard chipSelects)).2
    (.inl rfl)
  obtain ⟨d, hd, d', hd', hkey, hkey', hsame⟩ := hheader spiRegistry true _ f rfl hf
    _ List.mem_cons_self _ (List.mem_cons_of_mem _ List.mem_cons_self)
    ⟨by decide +kernel, .inl rfl, by decide, _, _, rfl, rfl, rfl, List.mem_cons_self, by decide⟩
    ⟨by decide +kernel, .inl rfl, by decide, _, _, rfl, rfl, rfl, List.mem_cons_self, by decide⟩
  refine ⟨hlong, hshort.2 (.inl htogether), hletters (by simp) (by simp), f, hf, d, hd, ?_, d', hd', ?_, ?_⟩
  · rw [hkey]
    decide
  · rw [hkey']
    decide
  · exact hsame.2 (.inl htogether)

end BoardAtlas
