import BoardAtlas.Proofs.Manifest.Untouched
import BoardAtlas.Proofs.Writes
import BoardAtlas.Shape.Preset

/-!
# Expanded presets

The members of the presets that a fragment names lie under its own members, those of a later name over those of an
earlier one. The two members that name presets are taken out first. A preset may hold such a member as well; that
one is merged in like any other and stays.

* `NamesOne`, `NamesMany`, `NamesPresets`: the names that a fragment gives;
* `PresetTable.Holds`: the members of a preset, with variables replaced;
* `PresetTable.expand_eq_ok`: when the presets of a fragment can be merged in, and what that makes;
* **`PresetTable.expand_layers`**: every member of the expanded fragment.
-/

namespace BoardAtlas

/-! ## The names that a fragment gives -/

/-- The names in `preset`: none, or one. -/
inductive NamesOne : Option Value → List String → Prop
  | absent : NamesOne none []
  | text (name : String) : NamesOne (some (.str name)) [name]

/-- The names in `presets`: as in `preset`, or a list of them. -/
inductive NamesMany : Option Value → List String → Prop
  | one {member : Option Value} {names : List String} (h : NamesOne member names) : NamesMany member names
  | list (names : List String) : NamesMany (some (.list (names.map .str))) names

/-- The members that name presets. -/
def presetKeys : List String := ["preset", "presets"]

/-- **The presets that a fragment names**, those of `preset` before those of `presets`. -/
def NamesPresets (data : Dict Value) (names : List String) : Prop :=
  ∃ first more, NamesOne (data.get? "preset") first ∧ NamesMany (data.get? "presets") more ∧ names = first ++ more

section Names

variable (place : String) {names : List String}

theorem presetName_eq_ok {v : Value} {name : String} : presetName place v = .ok name ↔ v = .str name := by
  cases v <;> simp [presetName]

theorem nameIn_eq_ok {member : Option Value} : nameIn place member = .ok names ↔ NamesOne member names := by
  cases member with
  | none =>
    constructor
    · intro h
      cases h
      exact .absent
    · rintro ⟨⟩
      rfl
  | some v =>
    rw [nameIn, Except.map_eq_ok]
    constructor
    · rintro ⟨name, hname, rfl⟩
      rw [(presetName_eq_ok place).1 hname]
      exact .text name
    · rintro ⟨⟩
      exact ⟨_, rfl, rfl⟩

theorem mapM_presetName_eq_ok {items : List Value} :
    items.mapM (presetName place) = .ok names ↔ items = names.map .str := by
  rw [Except.mapM_eq_ok_iff]
  simp only [presetName_eq_ok]
  rw [← List.forall₂_map_right_iff, List.forall₂_eq_eq_eq]

theorem namesIn_eq_ok {member : Option Value} : namesIn place member = .ok names ↔ NamesMany member names := by
  fun_cases namesIn place member
  · constructor
    · intro h
      cases h
      exact .one .absent
    · rintro ⟨⟨⟩⟩
      rfl
  · next items =>
    rw [mapM_presetName_eq_ok]
    constructor
    · rintro rfl
      exact .list names
    · rintro (⟨⟨⟩⟩ | _)
      rfl
  · next v hv =>
    rw [nameIn_eq_ok]
    refine ⟨.one, ?_⟩
    rintro (h | _)
    · exact h
    · exact absurd rfl (hv _)

theorem presetNames_eq_ok {data rest : Dict Value} (hd : data.Distinct) :
    presetNames place data = (rest, .ok names) ↔
      rest = (data.erase "preset").erase "presets" ∧ NamesPresets data names := by
  have hmany : (data.erase "preset").get? "presets" = data.get? "presets" := by
    rw [Dict.get?_erase _ _ _ hd, if_neg (by decide)]
  rw [presetNames, hmany]
  cases hfirst : nameIn place (data.get? "preset") with
  | error e =>
    refine ⟨fun h => (by cases h), ?_⟩
    rintro ⟨-, first, more, hone, -, -⟩
    rw [(nameIn_eq_ok place).2 hone] at hfirst
    cases hfirst
  | ok first =>
    rw [Prod.mk.injEq, Except.map_eq_ok]
    have hone := (nameIn_eq_ok place).1 hfirst
    constructor
    · rintro ⟨rfl, more, hmore, rfl⟩
      exact ⟨rfl, first, more, hone, (namesIn_eq_ok place).1 hmore, rfl⟩
    · rintro ⟨rfl, first', more, hone', hmore, rfl⟩
      have hsame : first' = first := by
        have h := (nameIn_eq_ok place).2 hone'
        rw [hfirst] at h
        exact (Except.ok.inj h).symm
      exact ⟨rfl, more, (namesIn_eq_ok place).2 hmore, by rw [hsame]⟩

end Names

namespace PresetTable

variable {table : PresetTable} {vars : Vars} {place : String}

/-! ## The presets of a table -/

variable (table vars) in
/-- The table has a preset of the name, and with variables replaced it has these members. -/
def Holds (name : String) (members : Dict Value) : Prop :=
  ∃ fragment, table.get? name = some fragment ∧ substituteValue vars fragment = .ok (.obj members)

theorem resolve_eq_ok {name : String} {members : Dict Value} :
    table.resolve name vars place = .ok members ↔ table.Holds vars name members := by
  unfold resolve Holds
  cases table.get? name with
  | none => simp
  | some fragment =>
    rcases hs : substituteValue vars fragment with e | (_ | _ | _ | _ | _ | _) <;> simp [hs]

theorem Holds.distinct {name : String} {members : Dict Value} (htable : (Value.obj table).Distinct)
    (h : table.Holds vars name members) : members.Distinct := by
  obtain ⟨fragment, hget, hs⟩ := h
  rw [substituteValue] at hs
  split at hs
  · cases hs
    exact (Value.distinct_obj_iff.1 (htable.of_get? hget)).1
  · cases fragment with
    | obj fields =>
      rw [substituteAll, Except.map_eq_ok] at hs
      obtain ⟨out, hout, hsame⟩ := hs
      cases hsame
      have hnil : Dict.Distinct ([] : Dict Value) := List.nodup_nil
      exact distinct_substituteMembers hnil hout
    | _ => simp [substituteAll, Except.map_eq_ok] at hs

theorem distinct_of_holds {names : List String} {layers : List (Dict Value)} (htable : (Value.obj table).Distinct)
    (h : List.Forall₂ (table.Holds vars) names layers) : ∀ members ∈ layers, members.Distinct := by
  induction h with
  | nil => simp
  | cons hfirst _ ih => exact List.forall_mem_cons.2 ⟨hfirst.distinct htable, ih⟩

theorem resolveAll_eq_ok {merged out : Dict Value} {names : List String} :
    table.resolveAll vars place merged names = .ok out ↔
      ∃ layers, List.Forall₂ (table.Holds vars) names layers ∧ out = layers.foldl Dict.extend merged := by
  induction names generalizing merged with
  | nil =>
    constructor
    · rintro ⟨⟩
      exact ⟨[], .nil, rfl⟩
    · rintro ⟨_, ⟨⟩, rfl⟩
      rfl
  | cons name rest ih =>
    rw [resolveAll, Except.bind_eq_ok]
    constructor
    · rintro ⟨members, hmembers, h⟩
      obtain ⟨layers, hlayers, rfl⟩ := ih.1 h
      exact ⟨members :: layers, .cons (resolve_eq_ok.1 hmembers) hlayers, rfl⟩
    · rintro ⟨_, _ | ⟨hmembers, hlayers⟩, rfl⟩
      exact ⟨_, resolve_eq_ok.2 hmembers, ih.2 ⟨_, hlayers, rfl⟩⟩

/-! ## Expanded fragments -/

variable {data out : Dict Value}

/-- **Presets can be merged into a fragment** when all the names it gives are texts and each is the name of a preset
that is an object when variables are replaced. -/
theorem expand_eq_ok (hdata : data.Distinct) :
    table.expand data vars place = (out, none) ↔
      ∃ names layers, NamesPresets data names ∧ List.Forall₂ (table.Holds vars) names layers ∧
        out = ((data.erase "preset").erase "presets").addMissing (layers.foldl Dict.extend []) := by
  rw [expand]
  constructor
  · intro h
    split at h
    · cases h
    · next rest names hnames =>
      obtain ⟨rfl, hgives⟩ := (presetNames_eq_ok place hdata).1 hnames
      split at h
      · cases h
      · next members hmembers =>
        cases h
        obtain ⟨layers, hlayers, rfl⟩ := resolveAll_eq_ok.1 hmembers
        exact ⟨names, layers, hgives, hlayers, rfl⟩
  · rintro ⟨names, layers, hgives, hlayers, rfl⟩
    rw [(presetNames_eq_ok place hdata).2 ⟨rfl, hgives⟩]
    dsimp only
    rw [resolveAll_eq_ok.2 ⟨layers, hlayers, rfl⟩]

theorem distinct_addMissing {α : Type} {d : Dict α} (hd : d.Distinct) (e : Dict α) : (d.addMissing e).Distinct := by
  induction e generalizing d with
  | nil => exact hd
  | cons x e ih =>
    show (Dict.addMissing (if d.has x.1 then d else d.insert x.1 x.2) e).Distinct
    split
    · exact ih hd
    · exact ih (Dict.distinct_insert hd x.1 x.2)

/-- Under a key an expanded fragment has what the fragment has there, unless the key names presets, and else what the
last of the merged presets has. -/
theorem get?_expanded {layers : List (Dict Value)} (hdata : data.Distinct)
    (hlayers : ∀ members ∈ layers, members.Distinct) (key : String) :
    (((data.erase "preset").erase "presets").addMissing (layers.foldl Dict.extend [])).get? key =
      (if key ∈ presetKeys then none else data.get? key).or (layers.reverse.findSome? (Dict.get? · key)) := by
  have hmerged : Dict.Layered layers.reverse (layers.foldl Dict.extend []) := by
    rw [Dict.foldl_extend]
    exact Dict.layered_ofList_flatten hlayers
  have hrest : ((data.erase "preset").erase "presets").get? key =
      if key ∈ presetKeys then none else data.get? key := by
    rw [Dict.get?_erase _ _ _ (Dict.distinct_erase hdata "preset"), Dict.get?_erase _ _ _ hdata]
    by_cases hone : key = "preset"
    · simp [presetKeys, hone]
    · by_cases hmany : key = "presets"
      · simp [presetKeys, hmany]
      · simp [presetKeys, hone, hmany, Ne.symm hone, Ne.symm hmany]
  rw [Dict.get?_addMissing, hrest, hmerged key]

/-- **Every member of an expanded fragment.** A fragment keeps what it has; under a key that it lacks it gets what the
last named preset with the key has. Of the two members that name presets it has one afterwards exactly when a named
preset has it. -/
theorem expand_layers (table : PresetTable) (data out : Dict Value) (vars : Vars) (place : String)
    (htable : (Value.obj table).Distinct) (hdata : data.Distinct)
    (h : table.expand data vars place = (out, none)) :
    ∃ names layers, NamesPresets data names ∧ List.Forall₂ (table.Holds vars) names layers ∧ out.Distinct ∧
      (∀ key ∉ presetKeys, out.get? key = (data :: layers.reverse).findSome? (Dict.get? · key)) ∧
      (∀ key ∈ presetKeys, out.get? key = layers.reverse.findSome? (Dict.get? · key)) ∧
      ((∀ key ∈ presetKeys, out.get? key = none) ↔
        ∀ key ∈ presetKeys, ∀ members ∈ layers, members.get? key = none) := by
  obtain ⟨names, layers, hgives, hlayers, hout⟩ := (expand_eq_ok hdata).1 h
  have hget := get?_expanded hdata (distinct_of_holds htable hlayers)
  rw [← hout] at hget
  have hkeys : ∀ key ∈ presetKeys, out.get? key = layers.reverse.findSome? (Dict.get? · key) := by
    intro key hkey
    rw [hget, if_pos hkey, Option.none_or]
  refine ⟨names, layers, hgives, hlayers, ?_, ?_, hkeys, ?_⟩
  · rw [hout]
    exact distinct_addMissing (Dict.distinct_erase (Dict.distinct_erase hdata "preset") "presets") _
  · intro key hkey
    rw [hget, if_neg hkey, List.findSome?_cons]
    cases data.get? key <;> rfl
  · refine forall₂_congr fun key hkey => ?_
    rw [hkeys key hkey, List.findSome?_eq_none_iff]
    simp only [List.mem_reverse]

/-! ### A pad made of three presets -/

/-- A pad, a larger one, and a label that depends on a variable. -/
def padPresets : PresetTable :=
  [("pad", .obj [("type", .str "rect"), ("size", .str "1,1"), ("id", .str "pad")]),
    ("big", .obj [("size", .str "2,2")]),
    ("named", .obj [("id", .str "$\x7bNAME\x7d"), ("pos", .str "9,9")])]

/-- A fragment with its own anchor and three presets. -/
def padFragment : Dict Value :=
  [("preset", .str "pad"), ("pos", .str "3,4"), ("presets", .list [.str "big", .str "named"])]

/-- The variable of the label. -/
def padVars : Vars := [("NAME", .str "wb2l")]

/-- The fragment with its presets. -/
def padExpanded : Dict Value :=
  [("pos", .str "3,4"), ("type", .str "rect"), ("size", .str "2,2"), ("id", .str "wb2l")]

theorem expand_layers_padFragment :
    (Value.obj padPresets).Distinct ∧ padFragment.Distinct ∧
      padPresets.expand padFragment padVars "front[0]" = (padExpanded, none) ∧
      ∃ layers, List.Forall₂ (padPresets.Holds padVars) ["pad", "big", "named"] layers ∧
        (∀ key ∉ presetKeys, padExpanded.get? key = (padFragment :: layers.reverse).findSome? (Dict.get? · key)) ∧
        ∀ key ∈ presetKeys, ∀ members ∈ layers, members.get? key = none := by
  have htable : (Value.obj padPresets).Distinct := by
    simp [padPresets, Value.Distinct, Value.DistinctMembers, Dict.Distinct, Dict.keys]
  have hdata : padFragment.Distinct := by
    simp [padFragment, Dict.Distinct, Dict.keys]
  have hexpand : padPresets.expand padFragment padVars "front[0]" = (padExpanded, none) := by
    cbv
  obtain ⟨names, layers, hgives, hlayers, -, hothers, -, hgone⟩ :=
    expand_layers padPresets padFragment padExpanded padVars "front[0]" htable hdata hexpand
  have hnames : names = ["pad", "big", "named"] := by
    have hread := (presetNames_eq_ok "front[0]" hdata).2 ⟨rfl, hgives⟩
    exact (Except.ok.inj (congrArg Prod.snd hread)).symm
  exact ⟨htable, hdata, hexpand, layers, hnames ▸ hlayers, hothers, hgone.1 (by decide)⟩

/-- **A preset that names a preset itself** leaves that name in the fragment. -/
theorem expand_leaves_name :
    ¬ ∀ (table : PresetTable) (data out : Dict Value) (vars : Vars) (place : String),
      (Value.obj table).Distinct → data.Distinct → table.expand data vars place = (out, none) →
        ∀ key ∈ presetKeys, out.get? key = none := by
  intro h
  have htable : (Value.obj [("pad", .obj [("preset", .str "big"), ("size", .str "1,1")])]).Distinct := by
    simp [Value.Distinct, Value.DistinctMembers, Dict.Distinct, Dict.keys]
  have hdata : Dict.Distinct [("preset", Value.str "pad")] := by
    simp [Dict.Distinct, Dict.keys]
  have hgone := h _ _ [("preset", .str "big"), ("size", .str "1,1")] [] "front[0]" htable hdata rfl "preset" (by decide)
  cases hgone

end PresetTable

end BoardAtlas
