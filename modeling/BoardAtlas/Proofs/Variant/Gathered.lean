import BoardAtlas.Variant.Draft

/-!
# What a draft has gathered

A draft is a function of the pins it has been through: each part of it can be said at once, without the loop.
One more pin changes all parts together, and so does a whole pinout.

* `firstSites`, `featuresOf`, `countRole`, `largestNumber`, `deviceOf?`: what is said of pins;
* **`Draft.ofSites`**: the draft of some pins;
* `noted`, `enter_noted`, `join_noted`, `addSite_ofSites`: one pin further;
* `clash?`, **`foldlM_addPin`**: a pinout, or the first alias that is taken.
-/

namespace BoardAtlas

/-! ## Pins -/

/-- The first pin with each alias. -/
def firstSites (sites : List PinSite) : List PinSite := Listing.firstsBy PinSite.arduino sites

/-- The features of all pins with an alias. -/
def featuresOf (sites : List PinSite) (arduino : String) : PinFeatures :=
  (sites.filter fun s => s.arduino == arduino).foldl (fun f s => s.addFeatures f) .empty

/-- The entry of the alias of a pin. -/
def entryOf (registry : RoleRegistry) (sites : List PinSite) (s : PinSite) : PinEntry :=
  { s.entry registry with features := featuresOf sites s.arduino }

/-- How many of the first pins have a role. -/
def countRole (sites : List PinSite) (r : RoleType) : Nat :=
  ((firstSites sites).filter fun s => s.roles.has r).length

/-- The largest number of a pin, or 0. -/
def largestNumber (sites : List PinSite) : Nat := sites.foldl (fun n s => max n s.number) 0

/-- The device name of the first pin with a number. -/
def deviceOf? (sites : List PinSite) (number : Nat) : Option String :=
  (sites.find? fun s => s.number == number).map PinSite.device

/-- The defines of all aliases, pin by pin. -/
def arduinoDefines (sites : List PinSite) : List Define := sites.flatMap PinSite.aliasDefines

/-- All uses of a bus, pin by pin. -/
def usesOf (bus : Bus) (sites : List PinSite) : List SignalUse :=
  sites.flatMap fun s => s.usesFor bus

/-- The counts of pins. -/
def countsOf (sites : List PinSite) : List Define :=
  pinCounts (firstSites sites).length (countRole sites .ardD) (countRole sites .ardA)
    (countRole sites .pwm)

/-- The first pin whose alias an earlier pin has, after that one; some pins have been seen before. -/
def clashAfter? : List PinSite → List PinSite → Option (PinSite × PinSite)
  | _, [] => none
  | seen, s :: rest =>
    match seen.find? fun t => t.arduino == s.arduino with
    | some first => some (first, s)
    | none => clashAfter? (seen ++ [s]) rest

/-- The first pin whose alias an earlier pin has, after that one. -/
def clash? (sites : List PinSite) : Option (PinSite × PinSite) := clashAfter? [] sites

section Pins

variable {sites : List PinSite} {s : PinSite}

theorem firstSites_concat_of_mem (h : s.arduino ∈ sites.map PinSite.arduino) :
    firstSites (sites ++ [s]) = firstSites sites := Listing.firstsBy_concat_of_mem h

theorem firstSites_concat_of_not_mem (h : s.arduino ∉ sites.map PinSite.arduino) :
    firstSites (sites ++ [s]) = firstSites sites ++ [s] := Listing.firstsBy_concat_of_not_mem h

theorem mem_arduino_firstSites {a : String} :
    a ∈ (firstSites sites).map PinSite.arduino ↔ a ∈ sites.map PinSite.arduino :=
  Listing.mem_map_firstsBy

theorem featuresOf_concat (a : String) :
    featuresOf (sites ++ [s]) a =
      if s.arduino = a then s.addFeatures (featuresOf sites a) else featuresOf sites a := by
  unfold featuresOf
  rw [List.filter_append, List.foldl_append]
  by_cases h : s.arduino = a <;> simp [h]

theorem featuresOf_eq_empty {a : String} (h : a ∉ sites.map PinSite.arduino) :
    featuresOf sites a = .empty := by
  have hnone : (sites.filter fun s => s.arduino == a) = [] := by
    refine List.filter_eq_nil_iff.2 fun s hs he => h ?_
    exact List.mem_map.2 ⟨s, hs, by simpa using he⟩
  rw [featuresOf, hnone]
  rfl

theorem countRole_concat_of_mem (h : s.arduino ∈ sites.map PinSite.arduino) (r : RoleType) :
    countRole (sites ++ [s]) r = countRole sites r := by
  rw [countRole, firstSites_concat_of_mem h]
  rfl

theorem countRole_concat_of_not_mem (h : s.arduino ∉ sites.map PinSite.arduino) (r : RoleType) :
    countRole (sites ++ [s]) r = countRole sites r + if s.roles.has r then 1 else 0 := by
  rw [countRole, firstSites_concat_of_not_mem h, List.filter_append, List.length_append]
  cases hr : s.roles.has r <;> simp [countRole, hr]

theorem largestNumber_concat : largestNumber (sites ++ [s]) = max (largestNumber sites) s.number := by
  simp [largestNumber]

end Pins

namespace Draft

/-- **The draft of some pins.** -/
def ofSites (registry : RoleRegistry) (sites : List PinSite) : Draft where
  defines
    | .pins => countsOf sites
    | .arduino => arduinoDefines sites
    | .macros => sites.flatMap (PinSite.macroDefines registry)
    | .ports | .bus _ => []
  uses bus := usesOf bus sites
  entries := (firstSites sites).map (entryOf registry sites)
  owners := (firstSites sites).map fun s => (s.arduino, s.pin)
  devices := (Listing.firstsBy PinSite.number sites).map fun s => (s.number, s.device)
  largest := largestNumber sites

theorem ofSites_nil (registry : RoleRegistry) : ofSites registry [] = start := by
  refine Draft.ext ?_ rfl rfl rfl rfl rfl
  funext part
  cases part <;> rfl

/-! ## Look-ups -/

theorem lookup_devices (sites : List PinSite) (n : Nat) :
    (sites.map fun s => (s.number, s.device)).lookup n = deviceOf? sites n := by
  unfold deviceOf?
  induction sites with
  | nil => rfl
  | cons s rest ih =>
    rw [List.map_cons, List.lookup_cons, List.find?_cons, Bool.beq_comm (a := n), ih]
    cases s.number == n <;> rfl

theorem lookup_ofSites (registry : RoleRegistry) (sites : List PinSite) (n : Nat) :
    (ofSites registry sites).devices.lookup n = deviceOf? sites n := by
  change List.lookup n ((Listing.firstsBy PinSite.number sites).map _) = _
  rw [lookup_devices, deviceOf?, Listing.find?_firstsBy]
  rfl

theorem get?_owners (sites : List PinSite) (a : String) :
    Dict.get? (sites.map fun s => (s.arduino, s.pin)) a =
      (sites.find? fun s => s.arduino == a).map PinSite.pin := by
  induction sites with
  | nil => rfl
  | cons s rest ih =>
    rw [List.map_cons, Dict.get?_cons, List.find?_cons, ih]
    by_cases h : s.arduino = a
    · simp [h]
    · rw [if_neg h, beq_eq_false_iff_ne.2 h]

theorem get?_owners_ofSites (registry : RoleRegistry) (sites : List PinSite) (a : String) :
    (ofSites registry sites).owners.get? a =
      (sites.find? fun s => s.arduino == a).map PinSite.pin := by
  change Dict.get? ((firstSites sites).map _) a = _
  rw [get?_owners, firstSites, Listing.find?_firstsBy]

/-! ## Defines -/

@[simp] theorem defines_add (d : Draft) (part p : HeaderPart) (new : List Define) :
    (d.add part new).defines p = if p = part then d.defines p ++ new else d.defines p := rfl

@[simp] theorem defines_increment (d : Draft) (part p : HeaderPart) (key : String) :
    (d.increment part key).defines p =
      if p = part then countUp key (d.defines p) else d.defines p := rfl

theorem enter_eq (registry : RoleRegistry) (d : Draft) (s : PinSite) :
    d.enter registry s =
      { d with
        defines := (d.enter registry s).defines
        entries := d.entries ++ [s.entry registry]
        owners := d.owners.insert s.arduino s.pin } := by
  simp only [enter, countedRoles, List.foldl_cons, List.foldl_nil, countFor]
  cases s.roles.has .ardD <;> cases s.roles.has .ardA <;> cases s.roles.has .pwm <;> rfl

theorem defines_enter {d : Draft} {s : PinSite} {total digital analog pwm : Nat}
    (registry : RoleRegistry) (h : d.defines .pins = pinCounts total digital analog pwm)
    (p : HeaderPart) :
    (d.enter registry s).defines p =
      if p = .pins then
        pinCounts (total + 1) (digital + if s.roles.has .ardD then 1 else 0)
          (analog + if s.roles.has .ardA then 1 else 0) (pwm + if s.roles.has .pwm then 1 else 0)
      else d.defines p := by
  have hstep (e : Draft) (r : RoleType) (key : String) : (countFor s e (r, key)).defines p =
      if p = .pins ∧ s.roles.has r = true then countUp key (e.defines p) else e.defines p := by
    unfold countFor
    by_cases hr : s.roles.has r = true <;> simp [hr]
  simp only [enter, countedRoles, List.foldl_cons, List.foldl_nil, hstep, defines_increment]
  by_cases hp : p = .pins
  · subst hp
    simp only [true_and, if_true, h]
    cases s.roles.has .ardD <;> cases s.roles.has .ardA <;> cases s.roles.has .pwm <;> rfl
  · simp [hp]

/-! ## One pin further -/

section Step

variable (registry : RoleRegistry) {sites : List PinSite} {s : PinSite}

theorem map_entryOf_concat (h : s.arduino ∉ sites.map PinSite.arduino) :
    (firstSites sites).map (entryOf registry (sites ++ [s])) =
      (firstSites sites).map (entryOf registry sites) := by
  refine List.map_congr_left fun t ht => ?_
  have hne : s.arduino ≠ t.arduino := fun he =>
    h (mem_arduino_firstSites.1 (List.mem_map.2 ⟨t, ht, he.symm⟩))
  rw [entryOf, entryOf, featuresOf_concat, if_neg hne]

theorem entryOf_concat_self (h : s.arduino ∉ sites.map PinSite.arduino) :
    entryOf registry (sites ++ [s]) s = s.entry registry := by
  rw [entryOf, featuresOf_concat, if_pos rfl, featuresOf_eq_empty h]
  rfl

theorem updateFirst_entries :
    Listing.updateFirst (fun e => e.arduino == s.arduino)
        (fun e => { e with features := s.addFeatures e.features })
        ((firstSites sites).map (entryOf registry sites)) =
      (firstSites sites).map (entryOf registry (sites ++ [s])) := by
  have hkeys : ((firstSites sites).map PinSite.arduino).Nodup :=
    Listing.nodup_map_firstsBy PinSite.arduino sites
  rw [Listing.updateFirst_eq_map, List.map_map]
  · refine List.map_congr_left fun t _ => ?_
    rw [Function.comp_apply, entryOf, entryOf, featuresOf_concat]
    by_cases he : s.arduino = t.arduino
    · simp [PinSite.entry, he]
    · simp [PinSite.entry, he, Ne.symm he]
  · rw [List.pairwise_map]
    refine (List.pairwise_map.1 hkeys).imp fun {x y} hne hx => ?_
    simp only [entryOf, PinSite.entry, beq_iff_eq] at hx
    simpa [entryOf, PinSite.entry, ← hx] using Ne.symm hne

theorem devices_concat :
    (if ((ofSites registry sites).devices.lookup s.number).isSome then
        (ofSites registry sites).devices
      else (ofSites registry sites).devices ++ [(s.number, s.device)]) =
      (ofSites registry (sites ++ [s])).devices := by
  rw [lookup_ofSites]
  have hmem : (deviceOf? sites s.number).isSome ↔ s.number ∈ sites.map PinSite.number := by
    simp [deviceOf?, List.find?_isSome]
  by_cases h : s.number ∈ sites.map PinSite.number
  · rw [if_pos (hmem.2 h)]
    simp only [ofSites, Listing.firstsBy_concat_of_mem h]
  · rw [if_neg (mt hmem.1 h)]
    simp only [ofSites, Listing.firstsBy_concat_of_not_mem h, List.map_append, List.map_singleton]

/-- The draft of some pins with what one more pin adds whatever its alias. -/
def noted (registry : RoleRegistry) (sites : List PinSite) (s : PinSite) : Draft :=
  ((ofSites registry sites).add .arduino s.aliasDefines).note registry s

theorem defines_noted (part : HeaderPart) (hp : part ≠ .pins) :
    (noted registry sites s).defines part = (ofSites registry (sites ++ [s])).defines part := by
  cases part with
  | pins => exact absurd rfl hp
  | arduino => simp [noted, note, ofSites, arduinoDefines]
  | macros => simp [noted, note, ofSites]
  | ports => simp [noted, note, ofSites]
  | bus b => simp [noted, note, ofSites]

theorem counts_noted : (noted registry sites s).defines .pins = countsOf sites := by
  simp [noted, note, ofSites]

theorem uses_noted (b : Bus) :
    (noted registry sites s).uses b = (ofSites registry (sites ++ [s])).uses b := by
  simp [noted, note, ofSites, add, usesOf]

/-- The first pin with an alias makes the draft of one pin more. -/
theorem enter_noted (h : s.arduino ∉ sites.map PinSite.arduino) :
    (noted registry sites s).enter registry s = ofSites registry (sites ++ [s]) := by
  rw [enter_eq]
  refine Draft.ext ?defines ?uses ?entries ?owners ?devices ?largest
  case defines =>
    funext part
    rw [defines_enter registry (counts_noted registry)]
    split
    · next hp =>
      subst hp
      simp [ofSites, countsOf, countRole_concat_of_not_mem h, firstSites_concat_of_not_mem h]
    · next hp => exact defines_noted registry part hp
  case uses =>
    funext b
    exact uses_noted registry b
  case entries =>
    change (firstSites sites).map _ ++ [_] = (firstSites (sites ++ [s])).map _
    rw [firstSites_concat_of_not_mem h, List.map_append, map_entryOf_concat registry h,
      List.map_singleton, entryOf_concat_self registry h]
  case owners =>
    change Dict.insert ((firstSites sites).map _) _ _ = (firstSites (sites ++ [s])).map _
    rw [firstSites_concat_of_not_mem h, List.map_append, Dict.insert_of_not_mem]
    · rfl
    · rw [Dict.keys, List.map_map]
      exact mt mem_arduino_firstSites.1 h
  case devices => exact devices_concat registry
  case largest => exact largestNumber_concat.symm

theorem join_noted (h : s.arduino ∈ sites.map PinSite.arduino) :
    (noted registry sites s).join s = ofSites registry (sites ++ [s]) := by
  refine Draft.ext ?defines ?uses ?entries ?owners ?devices ?largest
  case defines =>
    funext part
    by_cases hp : part = .pins
    · subst hp
      change (noted registry sites s).defines .pins = countsOf (sites ++ [s])
      rw [counts_noted, countsOf, countsOf, firstSites_concat_of_mem h]
      simp only [countRole_concat_of_mem h]
    · exact defines_noted registry part hp
  case uses =>
    funext b
    exact uses_noted registry b
  case entries =>
    change Listing.updateFirst _ _ ((firstSites sites).map _) = (firstSites (sites ++ [s])).map _
    rw [firstSites_concat_of_mem h]
    exact updateFirst_entries registry
  case owners =>
    change (firstSites sites).map _ = (firstSites (sites ++ [s])).map _
    rw [firstSites_concat_of_mem h]
  case devices => exact devices_concat registry
  case largest => exact largestNumber_concat.symm

/-- **One pin further**: a draft of one pin more, unless its alias is taken. -/
theorem addSite_ofSites (board : String) (lenient : Bool) (sites : List PinSite) (s : PinSite) :
    (ofSites registry sites).addSite registry board lenient s =
      match sites.find? fun t => t.arduino == s.arduino with
      | some first =>
        if lenient then .ok (ofSites registry (sites ++ [s]))
        else .error (.duplicateAlias board s.arduino first.pin s.pin)
      | none => .ok (ofSites registry (sites ++ [s])) := by
  have howner := get?_owners_ofSites registry sites s.arduino
  have hmem : (sites.find? fun t => t.arduino == s.arduino).isSome ↔
      s.arduino ∈ sites.map PinSite.arduino := by
    simp [List.find?_isSome]
  unfold addSite
  simp only [add] at howner ⊢
  rw [howner]
  cases hf : sites.find? fun t => t.arduino == s.arduino with
  | none =>
    have h : s.arduino ∉ sites.map PinSite.arduino := by simpa [hf] using mt hmem.2
    exact congrArg Except.ok (enter_noted registry h)
  | some first =>
    have h : s.arduino ∈ sites.map PinSite.arduino := hmem.1 (by rw [hf]; rfl)
    cases lenient with
    | true => exact congrArg Except.ok (join_noted registry h)
    | false => rfl

end Step

/-! ## A whole pinout -/

theorem foldlM_addSite (registry : RoleRegistry) (board : String) (lenient : Bool)
    (seen sites : List PinSite) :
    sites.foldlM (addSite registry board lenient) (ofSites registry seen) =
      match if lenient then none else clashAfter? seen sites with
      | some (first, second) => .error (.duplicateAlias board second.arduino first.pin second.pin)
      | none => .ok (ofSites registry (seen ++ sites)) := by
  induction sites generalizing seen with
  | nil => cases lenient <;> simp [clashAfter?] <;> rfl
  | cons s rest ih =>
    rw [List.foldlM_cons, addSite_ofSites, clashAfter?]
    have hnext := ih (seen ++ [s])
    rw [List.append_assoc, List.singleton_append] at hnext
    cases seen.find? fun t => t.arduino == s.arduino with
    | none => exact hnext
    | some first =>
      cases lenient with
      | true => exact hnext
      | false => rfl

theorem foldlM_addPin_eq (registry : RoleRegistry) (board : String) (lenient : Bool)
    (pinout : Dict RoleMap) (d : Draft) :
    pinout.foldlM (addPin registry board lenient) d =
      (pinSites pinout).foldlM (addSite registry board lenient) d := by
  induction pinout generalizing d with
  | nil => rfl
  | cons e rest ih =>
    obtain ⟨pin, roles⟩ := e
    have hsites : pinSites ((pin, roles) :: rest) =
        (PinSite.ofPin? pin roles).toList ++ pinSites rest := by
      simp only [pinSites, List.filterMap_cons]
      cases PinSite.ofPin? pin roles <;> rfl
    rw [List.foldlM_cons, addPin, hsites, List.foldlM_append]
    cases PinSite.ofPin? pin roles with
    | none => exact ih d
    | some s =>
      simp only [Option.toList_some, List.foldlM_cons, List.foldlM_nil, bind_pure, ih]

/-- **A whole pinout** gives the draft of its pins, unless an alias is taken and has to be free. -/
theorem foldlM_addPin (registry : RoleRegistry) (board : String) (lenient : Bool)
    (pinout : Dict RoleMap) :
    pinout.foldlM (addPin registry board lenient) start =
      match if lenient then none else clash? (pinSites pinout) with
      | some (first, second) => .error (.duplicateAlias board second.arduino first.pin second.pin)
      | none => .ok (ofSites registry (pinSites pinout)) := by
  rw [foldlM_addPin_eq, ← ofSites_nil registry, foldlM_addSite, List.nil_append]
  rfl

end Draft

end BoardAtlas
