import BoardAtlas.Proofs.Variant.Gathered

/-!
# The sections of a header

Closing a draft writes the buses one by one. The count of a bus is written with its first index that counts
and counted up with every other one, so that it ends as the number of those indexes.

* `portsOf`, `portsDefines`, `busDefines`: the defines of indexes;
* `countUp_of_new`, `countUp_of_old`: one more;
* `foldl_addInterface`, `addBus_eq`: the indexes of a bus;
* `withBuses`, **`close_ofSites`**: the defines of all pins;
* `definesOf?_facts`, **`ofBoard_eq`**: the facts of a board.
-/

namespace BoardAtlas

/-! ## Indexes -/

/-- The defines that say which indexes of a bus there are. -/
def portsOf (bus : Bus) : List Nat → List Define
  | [] => []
  | indexes => ⟨bus.countKey, indexes.length, none⟩ :: indexes.map bus.presence

/-- The indexes of a bus that count. -/
def indexesOf (bus : Bus) (sites : List PinSite) : List Nat := completeIndexes bus (usesOf bus sites)

/-- The defines of the section on ports. -/
def portsDefines (sites : List PinSite) : List Define :=
  Bus.all.flatMap fun bus => portsOf bus (indexesOf bus sites)

/-- The defines of the section of a bus. -/
def busDefines (sites : List PinSite) (bus : Bus) : List Define :=
  (indexesOf bus sites).flatMap (interfaceDefines (deviceOf? sites) bus (usesOf bus sites))

theorem indexesOf_nil (bus : Bus) : indexesOf bus [] = [] := by
  simp [indexesOf, completeIndexes, usesOf, Listing.ascendingNumbers, Listing.ascending, Listing.dropRepeats]

theorem portsOf_of_ne_nil {bus : Bus} {indexes : List Nat} (h : indexes ≠ []) :
    portsOf bus indexes = ⟨bus.countKey, indexes.length, none⟩ :: indexes.map bus.presence := by
  cases indexes with
  | nil => exact absurd rfl h
  | cons i rest => rfl

theorem key_presence_ne (bus other : Bus) (index : Nat) :
    (bus.presence index).key ≠ other.countKey := by
  intro he
  have hhead := congrArg (fun s => s.toList.head?) he
  cases other <;> simp [Bus.presence, Bus.countKey, Bus.tag] at hhead

theorem countKey_inj {bus other : Bus} : bus.countKey = other.countKey ↔ bus = other := by
  cases bus <;> cases other <;> decide

theorem key_ne_of_mem_portsOf {bus other : Bus} (h : bus ≠ other) {indexes : List Nat} {x : Define}
    (hx : x ∈ portsOf bus indexes) : x.key ≠ other.countKey := by
  cases indexes with
  | nil => cases hx
  | cons i rest =>
    rw [portsOf_of_ne_nil (List.cons_ne_nil i rest)] at hx
    rcases List.mem_cons.1 hx with rfl | hx
    · exact mt countKey_inj.1 h
    · obtain ⟨j, -, rfl⟩ := List.mem_map.1 hx
      exact key_presence_ne bus other j

/-! ## Counting -/

theorem countUp_of_new {key : String} {ds : List Define} (h : ∀ x ∈ ds, x.key ≠ key) :
    countUp key ds = ds ++ [⟨key, 1, none⟩] := by
  have hany : ¬ (ds.any fun x => x.key == key) = true := by
    simpa using h
  rw [countUp, if_neg hany]

theorem countUp_of_old {key : String} {ds : List Define} (h : ∀ x ∈ ds, x.key ≠ key) (n : Nat)
    (comment : Option String) (more : List Define) :
    countUp key (ds ++ ⟨key, n, comment⟩ :: more) = ds ++ ⟨key, n + 1, comment⟩ :: more := by
  have hany : ((ds ++ ⟨key, n, comment⟩ :: more).any fun x => x.key == key) = true := by
    simp
  rw [countUp, if_pos hany]
  clear hany
  induction ds with
  | nil => simp [Listing.updateFirst]
  | cons x rest ih =>
    obtain ⟨hx, hrest⟩ := List.forall_mem_cons.1 h
    rw [List.cons_append, Listing.updateFirst, ih hrest]
    simp [hx]

theorem countUp_portsOf {bus : Bus} {ds : List Define} (h : ∀ x ∈ ds, x.key ≠ bus.countKey)
    (done : List Nat) (i : Nat) :
    countUp bus.countKey (ds ++ portsOf bus done) ++ [bus.presence i] =
      ds ++ portsOf bus (done ++ [i]) := by
  rw [portsOf_of_ne_nil (List.append_ne_nil_of_right_ne_nil done (List.cons_ne_nil i []))]
  cases done with
  | nil =>
    rw [portsOf, List.append_nil, countUp_of_new h]
    simp
  | cons j rest =>
    rw [portsOf_of_ne_nil (List.cons_ne_nil j rest), countUp_of_old h]
    simp

/-! ## Buses -/

namespace Draft

/-- The indexes of a bus one by one, some of which have been added before. -/
theorem foldl_addInterface {bus : Bus} {ds : List Define} (h : ∀ x ∈ ds, x.key ≠ bus.countKey)
    (indexes done : List Nat) (d : Draft) (hd : d.defines .ports = ds ++ portsOf bus done) :
    indexes.foldl (addInterface bus) d =
      { d with
        defines := fun p =>
          if p = .ports then ds ++ portsOf bus (done ++ indexes)
          else if p = .bus bus then d.defines p ++
            indexes.flatMap (interfaceDefines (fun n => d.devices.lookup n) bus (d.uses bus))
          else d.defines p } := by
  induction indexes generalizing done d with
  | nil =>
    refine Draft.ext ?_ rfl rfl rfl rfl rfl
    funext p
    by_cases hp : p = .ports
    · subst hp
      simp [hd]
    · simp [hp]
  | cons i rest ih =>
    have hports : (addInterface bus d i).defines .ports = ds ++ portsOf bus (done ++ [i]) := by
      simp [addInterface, hd, countUp_portsOf h]
    rw [List.foldl_cons, ih (done ++ [i]) _ hports]
    refine Draft.ext ?_ rfl rfl rfl rfl rfl
    funext p
    by_cases hp : p = .ports
    · simp [hp]
    · by_cases hb : p = .bus bus
      · subst hb
        simp [addInterface, add, increment]
      · simp [addInterface, hp, hb]

theorem addBus_eq {d : Draft} {bus : Bus} (h : ∀ x ∈ d.defines .ports, x.key ≠ bus.countKey) :
    d.addBus bus =
      { d with
        defines := fun p =>
          if p = .ports then
            d.defines .ports ++ portsOf bus (completeIndexes bus (d.uses bus))
          else if p = .bus bus then d.defines p ++ (completeIndexes bus (d.uses bus)).flatMap
            (interfaceDefines (fun n => d.devices.lookup n) bus (d.uses bus))
          else d.defines p } := by
  have hd : d.defines .ports = d.defines .ports ++ portsOf bus [] := by simp [portsOf]
  exact foldl_addInterface h _ [] d hd

/-- The draft of some pins with some of the buses. -/
def withBuses (registry : RoleRegistry) (sites : List PinSite) (done : List Bus) : Draft :=
  { ofSites registry sites with
    defines := fun
      | .ports => done.flatMap fun bus => portsOf bus (indexesOf bus sites)
      | .bus bus => if bus ∈ done then busDefines sites bus else []
      | part => (ofSites registry sites).defines part }

theorem withBuses_nil (registry : RoleRegistry) (sites : List PinSite) :
    withBuses registry sites [] = ofSites registry sites := by
  refine Draft.ext ?_ rfl rfl rfl rfl rfl
  funext part
  cases part <;> rfl

theorem addBus_withBuses (registry : RoleRegistry) (sites : List PinSite) {done : List Bus}
    {bus : Bus} (h : bus ∉ done) :
    (withBuses registry sites done).addBus bus = withBuses registry sites (done ++ [bus]) := by
  have hlookup : (fun n => (withBuses registry sites done).devices.lookup n) = deviceOf? sites := by
    funext n
    exact lookup_ofSites registry sites n
  -- No other bus counts this one, so its count starts anew.
  have hnew : ∀ x ∈ (withBuses registry sites done).defines .ports, x.key ≠ bus.countKey := by
    intro x hx
    obtain ⟨other, hother, hx⟩ := List.mem_flatMap.1 hx
    have hne : other ≠ bus := fun he => h (he ▸ hother)
    exact key_ne_of_mem_portsOf hne hx
  rw [addBus_eq hnew, hlookup]
  refine Draft.ext ?_ rfl rfl rfl rfl rfl
  funext part
  cases part with
  | pins => rfl
  | arduino => rfl
  | macros => rfl
  | ports => simp [withBuses, indexesOf, ofSites]
  | bus b =>
    by_cases hb : b = bus
    · subst hb
      simp [withBuses, h, busDefines, indexesOf, ofSites]
    · simp [withBuses, hb]

theorem foldl_addBus (registry : RoleRegistry) (sites : List PinSite) {done buses : List Bus}
    (h : (done ++ buses).Nodup) :
    buses.foldl addBus (withBuses registry sites done) =
      withBuses registry sites (done ++ buses) := by
  induction buses generalizing done with
  | nil => rw [List.append_nil, List.foldl_nil]
  | cons bus rest ih =>
    have hbus : bus ∉ done := fun hm =>
      (List.nodup_append.1 h).2.2 bus hm bus List.mem_cons_self rfl
    have hsplit : done ++ bus :: rest = (done ++ [bus]) ++ rest := by simp
    rw [hsplit] at h ⊢
    rw [List.foldl_cons, addBus_withBuses registry sites hbus, ih h]

/-- **The defines of all pins**, with all buses. -/
theorem close_ofSites (registry : RoleRegistry) (sites : List PinSite) :
    (ofSites registry sites).close =
      { ofSites registry sites with
        defines := fun
          | .pins => countsOf sites ++
            [⟨"PINS_GPIO_MAX", largestNumber sites, some "Last usable GPIO number"⟩]
          | .arduino => arduinoDefines sites
          | .macros => sites.flatMap (PinSite.macroDefines registry)
          | .ports => portsDefines sites
          | .bus bus => busDefines sites bus } := by
  rw [close, ← withBuses_nil, foldl_addBus registry sites (by decide)]
  refine Draft.ext ?_ rfl rfl rfl rfl rfl
  funext part
  cases part with
  | bus b => cases b <;> rfl
  | _ => rfl

/-! ## Facts -/

theorem find?_written (d : Draft) (part : HeaderPart) (parts : List HeaderPart)
    (hp : part ∈ parts) (hw : d.written part ≠ []) :
    ((parts.map fun p => (⟨p, d.written p⟩ : HeaderSection)).filter fun s =>
      !s.defines.isEmpty).find? (fun s => s.part == part) = some ⟨part, d.written part⟩ := by
  induction parts with
  | nil => cases hp
  | cons p rest ih =>
    rw [List.map_cons, List.filter_cons]
    by_cases he : p = part
    · subst he
      simp [hw]
    · have hrest : part ∈ rest := (List.mem_cons.1 hp).resolve_left (Ne.symm he)
      split
      · rw [List.find?_cons_of_neg (by simpa using he)]
        exact ih hrest
      · exact ih hrest

theorem definesOf?_facts (board : String) (d : Draft) (part : HeaderPart)
    (hw : d.written part ≠ []) : (d.facts board).definesOf? part = some (d.written part) := by
  have hp : part ∈ HeaderPart.all := by
    cases part with
    | bus b => cases b <;> decide
    | _ => decide
  rw [VariantFacts.definesOf?, facts, find?_written d part _ hp hw]
  rfl

end Draft

namespace VariantFacts

/-- **The facts of a board** with pins and the Arduino framework are those of all its pins, unless an alias
is taken and has to be free. -/
theorem ofBoard_eq (registry : RoleRegistry) (lenient : Bool) {b : Board} {pinout : Dict RoleMap}
    (hp : b.pins? = some pinout) (hc : b.hasArduinoCore = true) :
    ofBoard registry lenient b =
      match if lenient then none else clash? (pinSites pinout) with
      | some (first, second) => .error (.duplicateAlias b.id second.arduino first.pin second.pin)
      | none => .ok ((Draft.ofSites registry (pinSites pinout)).close.facts b.id) := by
  have hrun := Draft.foldlM_addPin registry b.id lenient pinout
  rw [ofBoard, hp, hc]
  simp only [ofPinout, hrun]
  cases if lenient then none else clash? (pinSites pinout) <;> rfl

end VariantFacts

end BoardAtlas
