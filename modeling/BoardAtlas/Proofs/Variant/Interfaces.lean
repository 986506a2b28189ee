import BoardAtlas.Proofs.Ascending
import BoardAtlas.Proofs.Variant.Aliases
import Mathlib.Data.List.Count

/-!
# The buses of a header

A token of a pin names a signal and, in decimal digits, an index; leading zeros do not count, and an index has
32 bits. A header has an index of a bus exactly when some pin drives each signal that the index needs, and then
it has every signal that is driven there.

* `drives`, `driversOf`: tokens and the pins they belong to;
* `useOf?_eq_some_iff`, `pinsOf_usesOf`, `mem_signalsOf`, `mem_indexesOf`: what is gathered from tokens;
* `count_presence`, `count_countKey`, `value_of_countKey`: the defines of indexes;
* `getD_definesOf?_ofBoard`: the sections of a board;
* **`ofBoard_interfaces`**: the buses of a board.
-/

namespace BoardAtlas

/-! ## Tokens -/

/-- The token names the signal and, in decimal digits, the index. -/
def drives (index : Nat) (signal token : String) : Bool :=
  match splitIndexed? token with
  | some (digits, s) => Nat.ofDigitChars 10 digits.toList 0 == index && s == signal
  | none => false

/-- The tokens of a pin for a bus. -/
def PinSite.tokensFor (s : PinSite) (bus : Bus) : List String :=
  match s.roles.get? bus.roleType with
  | some v => v.tokens
  | none => []

/-- The numbers of the pins that drive a signal of an index, one for each token, in the order of the pins. -/
def driversOf (bus : Bus) (sites : List PinSite) (index : Nat) (signal : String) : List Nat :=
  sites.flatMap fun s => ((s.tokensFor bus).filter (drives index signal)).map fun _ => s.number

theorem digitsValue_ten {cs : List Char} (h : cs.all Char.isDigit = true) (n : Nat) :
    cs.foldl (fun n c =>
      let d := if c.isDigit then c.toNat - '0'.toNat else c.toUpper.toNat - 'A'.toNat + 10
      n * 10 + d) n = Nat.ofDigitChars 10 cs n := by
  induction cs generalizing n with
  | nil => rfl
  | cons c cs ih =>
    obtain ⟨hc, hcs⟩ : c.isDigit = true ∧ cs.all Char.isDigit = true := by simpa using h
    rw [List.foldl_cons, Nat.ofDigitChars_cons]
    simp only [hc, if_true, ih hcs, Nat.mul_comm n 10]

theorem readWord32?_of_digits {cs : List Char} (hne : cs ≠ []) (h : cs.all Char.isDigit = true) :
    readWord32? cs = if Nat.ofDigitChars 10 cs 0 < pow2 32 then some (Nat.ofDigitChars 10 cs 0)
      else none := by
  have hvalue : digitsValue 10 cs = Nat.ofDigitChars 10 cs 0 := digitsValue_ten h 0
  have hsign : ∀ rest, cs = '+' :: rest → False := by
    rintro rest rfl
    simp at h
  rw [readWord32?, readNatural?.eq_def]
  simp only [hvalue]
  rw [if_pos ⟨hne, h⟩]

theorem digits_of_splitIndexed? {token digits signal : String}
    (h : splitIndexed? token = some (digits, signal)) :
    digits.toList ≠ [] ∧ digits.toList.all Char.isDigit = true := by
  unfold splitIndexed? at h
  split at h
  · next index rest _ =>
    split at h
    · next hok =>
      cases h
      rw [String.toList_ofList]
      exact ⟨hok.1, hok.2.2⟩
    · cases h
  · cases h

theorem useOf?_eq_some_iff {number index n : Nat} {signal token : String} :
    useOf? number token = some ⟨index, signal, n⟩ ↔
      drives index signal token = true ∧ index < pow2 32 ∧ n = number := by
  unfold useOf? drives
  cases hs : splitIndexed? token with
  | none => simp
  | some p =>
    obtain ⟨digits, s⟩ := p
    obtain ⟨hne, hdigits⟩ := digits_of_splitIndexed? hs
    simp only [Option.bind_eq_bind, Option.bind_some, readWord32?_of_digits hne hdigits,
      Bool.and_eq_true, beq_iff_eq]
    generalize Nat.ofDigitChars 10 digits.toList 0 = value
    by_cases hv : value < pow2 32
    · rw [if_pos hv]
      simp only [Option.bind_some, Option.some.injEq, SignalUse.mk.injEq]
      constructor
      · rintro ⟨rfl, rfl, rfl⟩
        exact ⟨⟨rfl, rfl⟩, hv, rfl⟩
      · rintro ⟨⟨rfl, rfl⟩, -, rfl⟩
        exact ⟨rfl, rfl, rfl⟩
    · rw [if_neg hv]
      simp only [Option.bind_none, reduceCtorEq, false_iff]
      rintro ⟨⟨rfl, -⟩, hlt, -⟩
      exact hv hlt

/-! ## Uses -/

theorem usesFor_eq (s : PinSite) (bus : Bus) :
    s.usesFor bus = (s.tokensFor bus).filterMap (useOf? s.number) := by
  unfold PinSite.usesFor PinSite.tokensFor
  cases s.roles.get? bus.roleType <;> rfl

theorem mem_usesOf {bus : Bus} {sites : List PinSite} {u : SignalUse} :
    u ∈ usesOf bus sites ↔ u.index < pow2 32 ∧ ∃ s ∈ sites, ∃ token ∈ s.tokensFor bus,
      drives u.index u.signal token = true ∧ u.number = s.number := by
  obtain ⟨index, signal, number⟩ := u
  simp only [usesOf, List.mem_flatMap, usesFor_eq, List.mem_filterMap, useOf?_eq_some_iff]
  constructor
  · rintro ⟨s, hs, token, ht, hd, hi, hn⟩
    exact ⟨hi, s, hs, token, ht, hd, hn⟩
  · rintro ⟨hi, s, hs, token, ht, hd, hn⟩
    exact ⟨s, hs, token, ht, hd, hi, hn⟩

theorem pinsOf_usesOf {index : Nat} (hi : index < pow2 32) (bus : Bus) (sites : List PinSite)
    (signal : String) : pinsOf (usesOf bus sites) index signal = driversOf bus sites index signal := by
  have hpin (number : Nat) (tokens : List String) :
      ((tokens.filterMap (useOf? number)).filter fun c =>
        c.index == index && c.signal == signal).map SignalUse.number =
      (tokens.filter (drives index signal)).map fun _ => number := by
    induction tokens with
    | nil => rfl
    | cons token rest ih =>
      rw [List.filterMap_cons, List.filter_cons]
      by_cases hd : drives index signal token = true
      · have hu : useOf? number token = some ⟨index, signal, number⟩ :=
          useOf?_eq_some_iff.2 ⟨hd, hi, rfl⟩
        simp [hu, hd, ih]
      · rw [if_neg hd]
        cases hu : useOf? number token with
        | none => exact ih
        | some u =>
          obtain ⟨i, s, n⟩ := u
          have hne : ¬ (i = index ∧ s = signal) := by
            rintro ⟨rfl, rfl⟩
            exact hd (useOf?_eq_some_iff.1 hu).1
          simpa [hne] using ih
  simp only [pinsOf, usesOf, driversOf, List.filter_flatMap, List.map_flatMap, usesFor_eq, hpin]

theorem driversOf_ne_nil_iff {bus : Bus} {sites : List PinSite} {index : Nat} {signal : String} :
    driversOf bus sites index signal ≠ [] ↔
      ∃ s ∈ sites, ∃ token ∈ s.tokensFor bus, drives index signal token = true := by
  simp [driversOf, List.flatMap_eq_nil_iff]

theorem mem_signalsOf {bus : Bus} {sites : List PinSite} {index : Nat} (hi : index < pow2 32)
    {signal : String} : signal ∈ signalsOf (usesOf bus sites) index ↔
      driversOf bus sites index signal ≠ [] := by
  rw [← pinsOf_usesOf hi, pinsOf, signalsOf, Listing.mem_ascendingTexts]
  simp [List.filter_eq_nil_iff, and_assoc]

theorem isComplete_usesOf {bus : Bus} {sites : List PinSite} {index : Nat} (hi : index < pow2 32) :
    isComplete bus (usesOf bus sites) index = true ↔ ∀ signal ∈ bus.required,
      ∃ s ∈ sites, ∃ token ∈ s.tokensFor bus, drives index signal token = true := by
  simp only [isComplete, List.all_eq_true, List.any_eq_true, ← driversOf_ne_nil_iff,
    ← pinsOf_usesOf hi, pinsOf]
  simp [List.filter_eq_nil_iff]

/-- **The indexes that count** are those of which pins drive every signal that is needed. -/
theorem mem_indexesOf {bus : Bus} {sites : List PinSite} {index : Nat} :
    index ∈ indexesOf bus sites ↔ index < pow2 32 ∧ ∀ signal ∈ bus.required,
      ∃ s ∈ sites, ∃ token ∈ s.tokensFor bus, drives index signal token = true := by
  rw [indexesOf, completeIndexes, List.mem_filter, Listing.mem_ascendingNumbers]
  constructor
  · rintro ⟨hmem, hcomplete⟩
    obtain ⟨u, hu, rfl⟩ := List.mem_map.1 hmem
    have hi := (mem_usesOf.1 hu).1
    exact ⟨hi, (isComplete_usesOf hi).1 hcomplete⟩
  · rintro ⟨hi, hall⟩
    refine ⟨?_, (isComplete_usesOf hi).2 hall⟩
    -- Every bus needs some signal, and the pin that drives it is in use for the index.
    obtain ⟨signal, hsignal⟩ : ∃ signal, signal ∈ bus.required := by
      cases bus <;> exact ⟨_, List.mem_cons_self⟩
    obtain ⟨s, hs, token, ht, hd⟩ := hall signal hsignal
    exact List.mem_map.2 ⟨⟨index, signal, s.number⟩, mem_usesOf.2 ⟨hi, s, hs, token, ht, hd, rfl⟩, rfl⟩

theorem pairwise_indexesOf (bus : Bus) (sites : List PinSite) :
    (indexesOf bus sites).Pairwise (· < ·) :=
  (Listing.pairwise_ascendingNumbers _).filter _

/-! ## The defines of indexes -/

theorem Bus.mem_all (bus : Bus) : bus ∈ Bus.all := by cases bus <;> decide

theorem key_presence_inj {bus : Bus} {i j : Nat} :
    (bus.presence i).key = (bus.presence j).key ↔ i = j := by
  constructor
  · intro h
    have htext : toString i = toString j := (String.append_right_inj _).1 h
    have hread := congrArg (fun s => Nat.ofDigitChars 10 s.toList 0) htext
    simpa using hread
  · rintro rfl
    rfl

theorem key_presence_ne_of_ne {bus other : Bus} (h : bus ≠ other) (i j : Nat) :
    (bus.presence i).key ≠ (other.presence j).key := by
  intro he
  have hletters := congrArg (fun s => (s.toList.drop 4).take 2) he
  cases bus <;> cases other <;> first
    | exact h rfl
    | simp [Bus.presence, Bus.tag] at hletters

theorem key_presence_notMem {bus other : Bus} (h : bus ≠ other) (i : Nat) (indexes : List Nat) :
    (bus.presence i).key ∉ (portsOf other indexes).map Define.key := by
  cases indexes with
  | nil => exact List.not_mem_nil
  | cons j rest =>
    rw [portsOf_of_ne_nil (List.cons_ne_nil j rest), List.map_cons, List.mem_cons, not_or]
    refine ⟨key_presence_ne bus other i, fun hm => ?_⟩
    rw [List.map_map, List.mem_map] at hm
    obtain ⟨k, -, hk⟩ := hm
    exact key_presence_ne_of_ne h i k hk.symm

theorem countKey_notMem {bus other : Bus} (h : other ≠ bus) (indexes : List Nat) :
    bus.countKey ∉ (portsOf other indexes).map Define.key := by
  intro hm
  obtain ⟨x, hx, hk⟩ := List.mem_map.1 hm
  exact key_ne_of_mem_portsOf h hx hk

theorem count_portsDefines {bus : Bus} {sites : List PinSite} {key : String}
    (h : ∀ other ≠ bus, ∀ indexes, key ∉ (portsOf other indexes).map Define.key) :
    ((portsDefines sites).map Define.key).count key =
      ((portsOf bus (indexesOf bus sites)).map Define.key).count key := by
  obtain ⟨before, after, hall⟩ := List.append_of_mem (Bus.mem_all bus)
  have hnodup : (before ++ bus :: after).Nodup := hall ▸ by decide
  have hzero (buses : List Bus) (hb : bus ∉ buses) :
      ((buses.flatMap fun b => portsOf b (indexesOf b sites)).map Define.key).count key = 0 := by
    refine List.count_eq_zero.2 fun hm => ?_
    rw [List.map_flatMap] at hm
    obtain ⟨other, ho, hm⟩ := List.mem_flatMap.1 hm
    exact h other (fun he => hb (he ▸ ho)) _ hm
  have hbefore : bus ∉ before := fun hm =>
    (List.nodup_append.1 hnodup).2.2 bus hm bus List.mem_cons_self rfl
  have hafter : bus ∉ after := (List.nodup_cons.1 (List.nodup_append.1 hnodup).2.1).1
  rw [portsDefines, hall, List.flatMap_append, List.flatMap_cons, List.map_append, List.map_append,
    List.count_append, List.count_append, hzero before hbefore, hzero after hafter]
  omega

theorem count_presence (bus : Bus) (sites : List PinSite) (i : Nat) :
    ((portsDefines sites).map Define.key).count (bus.presence i).key =
      if i ∈ indexesOf bus sites then 1 else 0 := by
  rw [count_portsDefines fun other ho indexes => key_presence_notMem (Ne.symm ho) i indexes]
  have hnodup : (indexesOf bus sites).Nodup := (pairwise_indexesOf bus sites).imp Nat.ne_of_lt
  generalize indexesOf bus sites = indexes at hnodup
  have hpresence : ((indexes.map bus.presence).map Define.key).count (bus.presence i).key =
      indexes.count i := by
    rw [List.map_map]
    exact List.count_map_of_injective indexes _ (fun _ _ h => key_presence_inj.1 h) i
  have hcount : indexes.count i = if i ∈ indexes then 1 else 0 := by
    split
    · next hm => exact List.count_eq_one_of_mem hnodup hm
    · next hm => exact List.count_eq_zero.2 hm
  rw [← hcount, ← hpresence]
  cases indexes with
  | nil => rfl
  | cons j rest =>
    rw [portsOf_of_ne_nil (List.cons_ne_nil j rest), List.map_cons,
      List.count_cons_of_ne (key_presence_ne bus bus i).symm]

theorem count_countKey (bus : Bus) (sites : List PinSite) :
    ((portsDefines sites).map Define.key).count bus.countKey =
      if indexesOf bus sites = [] then 0 else 1 := by
  rw [count_portsDefines fun other ho indexes => countKey_notMem ho indexes]
  cases indexesOf bus sites with
  | nil => rfl
  | cons j rest =>
    have hrest : bus.countKey ∉ ((j :: rest).map bus.presence).map Define.key := by
      rw [List.map_map, List.mem_map]
      rintro ⟨k, -, hk⟩
      exact key_presence_ne bus bus k hk
    rw [portsOf_of_ne_nil (List.cons_ne_nil j rest), List.map_cons, List.count_cons_self,
      List.count_eq_zero.2 hrest, if_neg (List.cons_ne_nil j rest)]

theorem value_of_countKey {bus : Bus} {sites : List PinSite} {x : Define}
    (hx : x ∈ portsDefines sites) (hk : x.key = bus.countKey) :
    x.value = (indexesOf bus sites).length := by
  obtain ⟨other, -, hx⟩ := List.mem_flatMap.1 hx
  by_cases ho : other = bus
  · subst ho
    cases hi : indexesOf other sites with
    | nil =>
      rw [hi] at hx
      cases hx
    | cons j rest =>
      rw [hi, portsOf_of_ne_nil (List.cons_ne_nil j rest)] at hx
      rcases List.mem_cons.1 hx with rfl | hx
      · rfl
      · obtain ⟨k, -, rfl⟩ := List.mem_map.1 hx
        exact absurd hk (key_presence_ne other other k)
  · exact absurd hk (key_ne_of_mem_portsOf ho hx)

theorem signalDefines_of_length_ne_one (device? : Nat → Option String) (key : String)
    {numbers : List Nat} (h : numbers.length ≠ 1) :
    signalDefines device? key numbers =
      numbers.zipIdx.map fun (n, i) => ⟨key ++ "_" ++ toString i, n, device? n⟩ := by
  match numbers with
  | [] => rfl
  | [n] => exact absurd rfl h
  | n :: m :: rest => rfl

/-! ## Boards -/

namespace VariantFacts

variable {registry : RoleRegistry} {lenient : Bool} {b : Board} {f : VariantFacts}

/-- The sections of the buses, for boards with or without facts. -/
theorem getD_definesOf?_ofBoard (h : ofBoard registry lenient b = .ok f) :
    (f.definesOf? .ports).getD [] = portsDefines (variantSites b) ∧
      ∀ bus, (f.definesOf? (.bus bus)).getD [] = busDefines (variantSites b) bus := by
  refine ⟨?_, fun bus => ?_⟩
  · rw [getD_definesOf?_eq_written h HeaderPart.noConfusion, Draft.close_ofSites]
    rfl
  · rw [getD_definesOf?_eq_written h HeaderPart.noConfusion, Draft.close_ofSites]
    rfl

/-- **The buses of a header.** A bus has the indexes at which some pins drive each signal that it needs, each once,
and their number. For each of them its section has every signal that pins drive, with one define for one token, and
numbered ones for several. -/
theorem ofBoard_interfaces (h : ofBoard registry lenient b = .ok f) (bus : Bus) :
    ∃ (indexes : List Nat) (signals : Nat → List String) (block : Nat → String → List Define),
      indexes.Pairwise (· < ·) ∧
      (∀ i, i ∈ indexes ↔ i < pow2 32 ∧ ∀ signal ∈ bus.required,
        ∃ s ∈ variantSites b, ∃ token ∈ s.tokensFor bus, drives i signal token = true) ∧
      (∀ i, (f.keysOf .ports).count ("HAS_" ++ bus.tag ++ toString i) =
        if i ∈ indexes then 1 else 0) ∧
      (f.keysOf .ports).count (bus.tag ++ "_INTERFACES_COUNT") =
        (if indexes = [] then 0 else 1) ∧
      (∀ x ∈ (f.definesOf? .ports).getD [], x.key = bus.tag ++ "_INTERFACES_COUNT" →
        x.value = indexes.length) ∧
      (f.definesOf? (.bus bus)).getD [] =
        indexes.flatMap (fun i => (signals i).flatMap fun signal => block i signal) ∧
      ∀ i ∈ indexes, (signals i).Pairwise (· < ·) ∧
        (∀ signal, signal ∈ signals i ↔ driversOf bus (variantSites b) i signal ≠ []) ∧
        ∀ signal,
          (∀ n, driversOf bus (variantSites b) i signal = [n] →
            block i signal = [⟨"PIN_" ++ bus.tag ++ toString i ++ "_" ++ signal, n,
              deviceOf? (variantSites b) n⟩]) ∧
          ((driversOf bus (variantSites b) i signal).length ≠ 1 →
            block i signal = (driversOf bus (variantSites b) i signal).zipIdx.map fun (n, j) =>
              ⟨"PIN_" ++ bus.tag ++ toString i ++ "_" ++ signal ++ "_" ++ toString j, n,
                deviceOf? (variantSites b) n⟩) := by
  obtain ⟨hports, hbus⟩ := getD_definesOf?_ofBoard h
  generalize variantSites b = sites at hports hbus ⊢
  refine ⟨indexesOf bus sites, signalsOf (usesOf bus sites), fun i signal =>
    signalDefines (deviceOf? sites) ("PIN_" ++ bus.tag ++ toString i ++ "_" ++ signal)
      (pinsOf (usesOf bus sites) i signal), pairwise_indexesOf bus sites, fun i => mem_indexesOf,
    fun i => ?_, ?_, fun x hx hk => ?_, hbus bus, fun i hi => ?_⟩
  · rw [keysOf, hports]
    exact count_presence bus sites i
  · rw [keysOf, hports]
    exact count_countKey bus sites
  · rw [hports] at hx
    exact value_of_countKey hx hk
  · have hword : i < pow2 32 := (mem_indexesOf.1 hi).1
    refine ⟨Listing.pairwise_ascendingTexts _, fun signal => mem_signalsOf hword,
      fun signal => ⟨fun n hn => ?_, fun hlength => ?_⟩⟩
    · dsimp only
      rw [pinsOf_usesOf hword, hn]
      rfl
    · dsimp only
      rw [pinsOf_usesOf hword]
      exact signalDefines_of_length_ne_one _ _ hlength

/-- Pins of a bus that is complete at one index, written with and without leading zeros, and lacks a signal at
another one. -/
def spiPins : Dict RoleMap :=
  [("1", ((RoleMap.empty.insert .gpio (.text "P14")).insert .ardD (.text "D0")).insert .spi
      (.list ["07_SCK", "1_SCK"])),
    ("2", ((RoleMap.empty.insert .gpio (.text "P15")).insert .ardD (.text "D1")).insert .spi
      (.list ["7_MISO", "7_CS"])),
    ("3", ((RoleMap.empty.insert .gpio (.text "P16")).insert .ardD (.text "D2")).insert .spi
      (.list ["7_MOSI", "1_MOSI", "7_CS"]))]

theorem ofBoard_interfaces_spiPins :
    ∃ f, ofBoard .empty false (arduinoBoard spiPins) = .ok f ∧
      (f.keysOf .ports).count "HAS_SPI7" = 1 ∧ (f.keysOf .ports).count "HAS_SPI1" = 0 := by
  have hnodup : ((variantSites (arduinoBoard spiPins)).map PinSite.arduino).Nodup := by
    change ["D0", "D1", "D2"].Nodup
    decide
  obtain ⟨f, hf⟩ := (exists_ofBoard_eq_ok .empty false (arduinoBoard spiPins)).2 (Or.inr hnodup)
  obtain ⟨indexes, -, -, -, hmem, hcount, -⟩ := ofBoard_interfaces hf .spi
  have hseven : 7 ∈ indexes := by
    refine (hmem 7).2 ⟨by decide, ?_⟩
    decide +kernel
  have hone : 1 ∉ indexes := by
    rw [hmem]
    decide +kernel
  refine ⟨f, hf, ?_, ?_⟩
  · have h := hcount 7
    rwa [if_pos hseven] at h
  · have h := hcount 1
    rwa [if_neg hone] at h

end VariantFacts

end BoardAtlas
