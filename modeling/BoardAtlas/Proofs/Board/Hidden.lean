import BoardAtlas.Board.Resolver
import BoardAtlas.Proofs.Role.HiddenNames
import BoardAtlas.Proofs.Variant.PinTable

/-!
# What diagrams and comments hide

Labels and comments go through one filter with different names: labels hide what the board says, comments hide
the same four roles for every board.

* `RoleValue.without`, `RoleMap.visible`: a pin without the roles and tokens that some names hide;
* `flatMap_visible`: what is said of a pin is said of what is visible of it;
* `labelKinds_visible`, `not_hidden_of_mem_labelKinds`, `ofSide_visible`: labels;
* `PinSite.comment_visible`, `VariantFacts.comment_of_mem`: comments;
* **`Resolver.hidden_draw_generate`**: both, for a board.
-/

namespace BoardAtlas

/-! ## Visible pins -/

/-- A value without the tokens whose signals are hidden. -/
def RoleValue.without (rule : FormatRule) (hidden : List String) (v : RoleValue) : RoleValue :=
  .list (v.tokens.filter fun token => !rule.hidesSignal hidden token)

/-- A pin without roles that are hidden or not registered, and without tokens whose signals are hidden. -/
def RoleMap.visible (registry : RoleRegistry) (hidden : List String) (m : RoleMap) : RoleMap where
  get? r := do
    let v ← m.get? r
    let role ← registry.get? r
    if role.roleType.name ∈ hidden then none else some (v.without role.rule hidden)

theorem Role.format_of_hidden {role : Role} {hidden : List String} (h : role.roleType.name ∈ hidden)
    (v : RoleValue) (long : Bool) : role.format v long hidden = [] :=
  formatTokens_of_mem h v

theorem Role.format_without (role : Role) (hidden : List String) (v : RoleValue) (long : Bool) :
    role.format (v.without role.rule hidden) long hidden = role.format v long hidden := by
  simp only [format, formatTokens, RoleValue.without, RoleValue.tokens, List.filter_filter,
    Bool.and_self]

namespace RoleMap

theorem flatMap_entries {β : Type} (m : RoleMap) (f : RoleType × RoleValue → List β) :
    m.entries.flatMap f = RoleType.all.flatMap fun r => (m.get? r).toList.flatMap fun v => f (r, v) := by
  unfold entries
  induction RoleType.all with
  | nil => rfl
  | cons r rest ih =>
    rw [List.flatMap_cons, ← ih, List.filterMap_cons]
    cases m.get? r with
    | none => rfl
    | some v => simp

/-- What is said of the roles of a pin, in their order, is said of those that are visible, if nothing is said of
the others and of hidden tokens. -/
theorem flatMap_visible {β : Type} {registry : RoleRegistry} {hidden : List String}
    {f : RoleType × RoleValue → List β} (hnone : ∀ r v, registry.get? r = none → f (r, v) = [])
    (hhidden : ∀ r role v, registry.get? r = some role → role.roleType.name ∈ hidden → f (r, v) = [])
    (hsame : ∀ r role v, registry.get? r = some role → f (r, v.without role.rule hidden) = f (r, v))
    (m : RoleMap) : (m.visible registry hidden).entries.flatMap f = m.entries.flatMap f := by
  rw [flatMap_entries, flatMap_entries]
  congr 1
  funext r
  change ((m.get? r).bind fun v => (registry.get? r).bind fun role =>
    if role.roleType.name ∈ hidden then none else some (v.without role.rule hidden)).toList.flatMap
      _ = _
  cases m.get? r with
  | none => rfl
  | some v =>
    cases hr : registry.get? r with
    | none => simp [hnone r v hr]
    | some role =>
      by_cases hname : role.roleType.name ∈ hidden
      · simp [hname, hhidden r role v hr hname]
      · simp [hname, hsame r role v hr]

end RoleMap

/-! ## Labels -/

theorem labelKinds_visible (registry : RoleRegistry) (hidden : List String) (m : RoleMap) :
    labelKinds registry (m.visible registry hidden) hidden = labelKinds registry m hidden := by
  unfold labelKinds
  refine RoleMap.flatMap_visible ?_ ?_ ?_ m
  · intro r v hr
    simp only [hr]
  · intro r role v hr hname
    simp only [hr, role.format_of_hidden hname, List.map_nil]
  · intro r role v hr
    simp only [hr, role.format_without]

theorem not_hidden_of_mem_labelKinds {registry : RoleRegistry} {m : RoleMap} {hidden : List String}
    {x : Role × LabelKind} (hx : x ∈ labelKinds registry m hidden) : x.1.roleType.name ∉ hidden := by
  obtain ⟨⟨r, v⟩, -, hx⟩ := List.mem_flatMap.1 hx
  intro hname
  cases hr : registry.get? r with
  | none => simp [hr] at hx
  | some role =>
    simp only [hr, List.mem_map] at hx
    obtain ⟨token, htoken, rfl⟩ := hx
    rw [Role.format_of_hidden hname] at htoken
    cases htoken

variable {α : Type} [Coordinate α]

theorem exists_of_mem_stack {dir : LabelDir} {size : α} {cursor : Vec α}
    {kinds : List (Role × LabelKind)} {part : LabelPart α} (h : part ∈ stack dir size cursor kinds) :
    ∃ x ∈ kinds, part.roleType = x.1.roleType := by
  induction kinds generalizing cursor with
  | nil => cases h
  | cons x rest ih =>
    rw [stack] at h
    rcases List.mem_cons.1 h with rfl | h
    · exact ⟨x, List.mem_cons_self, rfl⟩
    · obtain ⟨y, hy, he⟩ := ih h
      exact ⟨y, List.mem_cons_of_mem _ hy, he⟩

theorem ofPin_visible (registry : RoleRegistry) (pin : String) (m : RoleMap) (pad : Shape α)
    (hidden : List String) :
    Label.ofPin registry pin (m.visible registry hidden) pad hidden =
      Label.ofPin registry pin m pad hidden := by
  rw [Label.ofPin, labelKinds_visible]
  rfl

/-- **The labels of a side** are those of what is visible of its pins. -/
theorem ofSide_visible (registry : RoleRegistry) (side : Group α) (pads : Dict String)
    (pinout : Dict RoleMap) (hidden : List String) :
    LabelSet.ofSide registry side pads (pinout.mapValues (RoleMap.visible registry hidden)) hidden =
      LabelSet.ofSide registry side pads pinout hidden := by
  unfold LabelSet.ofSide
  simp only [Dict.mapValues, List.filterMap_map, Function.comp_def, ofPin_visible]

/-! ## Comments -/

/-- **The comment of a pin** is that of what is visible of it. -/
theorem PinSite.comment_visible (registry : RoleRegistry) (s : PinSite) :
    comment registry { s with roles := s.roles.visible registry commentHidden } = s.comment registry := by
  unfold comment texts
  refine congrArg (Text.joined ", ") (RoleMap.flatMap_visible ?_ ?_ ?_ s.roles)
  · intro r v hr
    simp only [hr]
  · intro r role v hr hname
    simp only [hr, role.format_of_hidden hname]
  · intro r role v hr
    simp only [hr, role.format_without]

/-- An entry of the table of pins has the comment of the first pin with its alias. -/
theorem VariantFacts.comment_of_mem {registry : RoleRegistry} {lenient : Bool} {b : Board}
    {f : VariantFacts} (h : ofBoard registry lenient b = .ok f) {e : PinEntry}
    (he : e ∈ f.pins.getD []) :
    ∃ s, (variantSites b).find? (fun s => s.arduino == e.arduino) = some s ∧
      e.comment = s.comment registry := by
  cases hp : b.pins? with
  | none =>
    rw [ofBoard, hp] at h
    cases h
    cases he
  | some pinout =>
    cases hc : b.hasArduinoCore with
    | false =>
      rw [ofBoard, hp, hc] at h
      cases h
      cases he
    | true =>
      obtain rfl := eq_facts_of_ofBoard hp hc h
      rw [getD_pins_facts] at he
      rw [variantSites, hp, hc]
      have hperm := Text.perm_naturalSortBy PinEntry.arduino
        ((firstSites (pinSites pinout)).map (entryOf registry (pinSites pinout)))
      obtain ⟨s, hs, rfl⟩ := List.mem_map.1 (hperm.mem_iff.1 he)
      exact ⟨s, mem_firstSites.1 hs, rfl⟩

/-! ## Boards -/

/-- A board that hides other names. -/
def Board.hiding (b : Board) (hidden : List String) : Board :=
  { b with pcb := b.pcb.map fun p => { p with pinoutHidden := hidden } }

/-- A board of whose pins only what is visible on its drawing is left. -/
def Board.visible (b : Board) (registry : RoleRegistry) : Board :=
  { b with pcb := b.pcb.map fun p =>
      { p with pinout := p.pinout.mapValues (RoleMap.visible registry p.pinoutHidden) } }

namespace Resolver

theorem draw_visible (r : Resolver) (b : Board) : r.draw (b.visible r.tables.roles) = r.draw b := by
  unfold draw Board.visible
  cases b.pcb with
  | none => rfl
  | some p =>
    have hside (side : Side) (shapes : Group Float) :
        r.drawSide { p with pinout := p.pinout.mapValues (RoleMap.visible r.tables.roles p.pinoutHidden) }
          side shapes = r.drawSide p side shapes := by
      unfold drawSide
      rw [ofSide_visible]
      rfl
    simp only [Option.map_some, hside]

theorem not_hidden_of_mem_draw {r : Resolver} {b : Board} {p : Pcb} (hp : b.pcb = some p)
    {d : SideDrawing} (hd : d ∈ (r.draw b).sides) {l : Label Float} (hl : l ∈ d.labels.labels)
    {part : LabelPart Float} (hpart : part ∈ l.parts) : part.roleType.name ∉ p.pinoutHidden := by
  rw [draw, hp] at hd
  obtain ⟨⟨side, shapes⟩, -, rfl⟩ := List.mem_map.1 hd
  obtain ⟨⟨pin, roles⟩, -, hpad⟩ := List.mem_filterMap.1 hl
  obtain ⟨pad, -, rfl⟩ := Option.map_eq_some_iff.1 hpad
  obtain ⟨x, hx, he⟩ := exists_of_mem_stack hpart
  rw [he]
  exact not_hidden_of_mem_labelKinds hx

/-- **What is hidden in drawings and in comments.** Labels are without the roles and the tokens that the board hides.
The comment of a pin is without what `commentHidden` names, whatever the board hides. -/
theorem hidden_draw_generate (r : Resolver) (b : Board) :
    (∀ p, b.pcb = some p → ∀ d ∈ (r.draw b).sides, ∀ l ∈ d.labels.labels, ∀ part ∈ l.parts,
        part.roleType.name ∉ p.pinoutHidden) ∧
      r.draw b = r.draw (b.visible r.tables.roles) ∧
      (∀ f, r.generate b = .ok f → ∀ e ∈ f.pins.getD [], ∃ s,
        (variantSites b).find? (fun s => s.arduino == e.arduino) = some s ∧
        e.comment = PinSite.comment r.tables.roles
          { s with roles := s.roles.visible r.tables.roles commentHidden }) ∧
      ∀ hidden, r.generate (b.hiding hidden) = r.generate b := by
  refine ⟨fun p hp d hd l hl part => not_hidden_of_mem_draw hp hd hl, (r.draw_visible b).symm,
    fun f hf e he => ?_, fun hidden => ?_⟩
  · obtain ⟨s, hs, hc⟩ := VariantFacts.comment_of_mem hf he
    exact ⟨s, hs, hc.trans (s.comment_visible r.tables.roles).symm⟩
  · have hpins : (b.hiding hidden).pins? = b.pins? := by
      unfold Board.pins? Board.hiding
      rw [Option.map_map]
      rfl
    unfold generate VariantFacts.ofBoard
    rw [hpins]
    rfl

/-- Two registered roles. -/
def soundResolver : Resolver where
  library := ⟨fun _ name => .error (.unresolved [] name), fun _ => .ok [], fun _ _ => .ok []⟩
  tables := {
    presets := []
    roles := (RoleRegistry.empty.insert ⟨.gpio, "GPIO", "red", 1.8, .verbatim⟩).insert
      ⟨.i2s, "I2S", "blue", 1.8, .indexSwap⟩
    flashTitles := [] }

/-- One pin with a sound bus. -/
def soundPins : Dict RoleMap :=
  [("1", ((RoleMap.empty.insert .gpio (.text "P1")).insert .ardD (.text "D0")).insert .i2s
    (.text "1_SD"))]

/-- A board with one pad for its pin. -/
def soundBoard (hidden : List String) : Board :=
  { VariantFacts.arduinoBoard soundPins with
    pcb := (VariantFacts.arduinoBoard soundPins).pcb.map fun p =>
      { p with
        pads := [("1", "pad")]
        pinoutHidden := hidden
        shapes := [(.front, Group.wrap "test.front"
          [.circle { id? := some "pad", pos := Vec.zero } (Coordinate.ofFloat 1.0) none none])] } }

/-- The roles and kinds of all parts of the labels of a drawing. -/
def drawnKinds (d : BoardDrawing) : List (RoleType × LabelKind) :=
  d.sides.flatMap fun side => side.labels.labels.flatMap fun l => l.parts.map fun part =>
    (part.roleType, part.kind)

theorem exists_comment_soundBoard (hidden : List String) :
    ∃ f, soundResolver.generate (soundBoard hidden) = .ok f ∧
      ∃ e ∈ f.pins.getD [], e.comment = "P1, I2S1_SD" := by
  have haliases : ((variantSites (soundBoard hidden)).map PinSite.arduino).Nodup := by
    change ["D0"].Nodup
    decide
  obtain ⟨f, hf⟩ := (VariantFacts.exists_ofBoard_eq_ok soundResolver.tables.roles false
    (soundBoard hidden)).2 (Or.inr haliases)
  refine ⟨f, hf, ?_⟩
  have hp : (soundBoard hidden).pins? = some soundPins := rfl
  obtain rfl := VariantFacts.eq_facts_of_ofBoard hp rfl hf
  rw [VariantFacts.getD_pins_facts]
  have hperm := Text.perm_naturalSortBy PinEntry.arduino
    ((firstSites (pinSites soundPins)).map (entryOf soundResolver.tables.roles (pinSites soundPins)))
  exact ⟨_, hperm.mem_iff.2 List.mem_cons_self, by decide +kernel⟩

theorem hidden_draw_generate_soundBoard :
    drawnKinds (soundResolver.draw (soundBoard ["I2S"])) = [(.gpio, .block "P1")] ∧
      drawnKinds (soundResolver.draw ((soundBoard ["I2S"]).visible soundResolver.tables.roles)) =
        [(.gpio, .block "P1")] ∧
      ∀ hidden, soundResolver.generate ((soundBoard ["I2S"]).hiding hidden) =
        soundResolver.generate (soundBoard ["I2S"]) := by
  obtain ⟨-, hdraw, -, hgenerate⟩ := hidden_draw_generate soundResolver (soundBoard ["I2S"])
  exact ⟨rfl, hdraw ▸ rfl, hgenerate⟩

/-- A drawing does not show the bus where the board hides it, by its role or by its signal; the comment does. -/
theorem comments_name_hidden :
    (drawnKinds (soundResolver.draw (soundBoard ["I2S"])) = [(.gpio, .block "P1")] ∧
        ∃ f, soundResolver.generate (soundBoard ["I2S"]) = .ok f ∧
          ∃ e ∈ f.pins.getD [], e.comment = "P1, I2S1_SD") ∧
      drawnKinds (soundResolver.draw (soundBoard ["SD"])) = [(.gpio, .block "P1")] ∧
        ∃ f, soundResolver.generate (soundBoard ["SD"]) = .ok f ∧
          ∃ e ∈ f.pins.getD [], e.comment = "P1, I2S1_SD" :=
  ⟨⟨rfl, exists_comment_soundBoard ["I2S"]⟩, rfl, exists_comment_soundBoard ["SD"]⟩

end Resolver

end BoardAtlas
