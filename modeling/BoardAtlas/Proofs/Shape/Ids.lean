import BoardAtlas.Proofs.Manifest.Untouched
import BoardAtlas.Proofs.Shape.Positions

/-!
# Ids of built shapes

A fragment's id gets the id of its scope in front before variables are replaced and before presets are merged in.
Children of an include are in the namespace of its id; without an id they are in that of its name.

* `IsUnder`: an id in a namespace;
* `PlainMembers`, `PlainFragment`, `ShapeBuilder.BuildsPlain`: ids are written under their own keys;
* `PresetTable.Gives`, `get?_expand`: ids that come from presets;
* `Fragment.resolve_id`: the id of one fragment;
* `Frame.Named`, `Shape.Named`: the ids of a tree;
* **`ShapeBuilder.named_buildWithin`**: one shape, by induction on the depth;
* **`ShapeBuilder.named_buildList`**: a list of shapes.
-/

namespace BoardAtlas

open Loading

/-! ## Namespaces -/

/-- The id is the namespace, a dot and whatever follows. -/
def IsUnder (root id : String) : Prop := (root ++ ".").toList <+: id.toList

instance (root id : String) : Decidable (IsUnder root id) := inferInstanceAs (Decidable (_ <+: _))

theorem isUnder_iff {root id : String} : IsUnder root id ↔ ∃ rest, id = root ++ "." ++ rest := by
  unfold IsUnder
  constructor
  · rintro ⟨rest, h⟩
    refine ⟨String.ofList rest, String.ext ?_⟩
    rw [String.toList_append, String.toList_ofList, h]
  · rintro ⟨rest, rfl⟩
    exact ⟨rest.toList, by rw [← String.toList_append]⟩

theorem exists_dotted {root space : String} (h : space = root ∨ IsUnder root space) (s : String) :
    ∃ t, space ++ "." ++ s = root ++ "." ++ t := by
  rcases h with rfl | h
  · exact ⟨s, rfl⟩
  · obtain ⟨rest, rfl⟩ := isUnder_iff.1 h
    exact ⟨rest ++ "." ++ s, by simp only [String.append_assoc]⟩

/-! ## Texts and members -/

theorem substituteValue_lead {vars : Vars} {lead s out : String}
    (h : Substitution.isTouched lead.toList = false)
    (hs : substituteValue vars (.str (lead ++ "." ++ s)) = .ok (.str out)) :
    ∃ t, substituteValue vars (.str s) = .ok (.str t) ∧ out = lead ++ "." ++ t := by
  rw [substituteValue] at hs
  split at hs
  · next he =>
    cases hs
    exact ⟨s, by rw [substituteValue, if_pos he], rfl⟩
  · next he =>
    rw [substituteAll, Except.map_eq_ok] at hs
    obtain ⟨out', hout, hsame⟩ := hs
    cases hsame
    obtain ⟨t, ht, rfl⟩ := substituteTouched_lead h hout
    refine ⟨t, ?_, rfl⟩
    rw [substituteValue, if_neg he, substituteAll, ht]
    rfl

theorem substituteValue_eq_str {vars : Vars} {v : Value} {t : String}
    (h : substituteValue vars v = .ok (.str t)) : ∃ s, v = .str s := by
  rw [substituteValue] at h
  split at h
  · cases h
    exact ⟨t, rfl⟩
  · obtain ⟨s, hs, -⟩ := substituteAll_eq_str h
    exact ⟨s, hs⟩

theorem substituteValue_str {vars : Vars} {s : String} {v : Value}
    (h : substituteValue vars (.str s) = .ok v) : ∃ t, v = .str t := by
  rw [substituteValue] at h
  split at h
  · cases h
    exact ⟨s, rfl⟩
  · rw [substituteAll, Except.map_eq_ok] at h
    obtain ⟨t, -, rfl⟩ := h
    exact ⟨t, rfl⟩

/-- Members of which no other becomes `id` or `base_id` when the variables are replaced in keys, which is not done
without any. -/
structure PlainMembers (vars : Vars) (fields : Dict Value) : Prop where
  distinct : fields.Distinct
  keys : vars.isEmpty = false → ∀ k ∈ fields.keys, ∀ key ∈ ["id", "base_id"],
    substituteTouched vars k = .ok key → k = key

/-- The members of a fragment, which has a base id only beside an id. -/
structure PlainFragment (vars : Vars) (source : Dict Value) : Prop extends PlainMembers vars source where
  hasId : source.has "base_id" = true → source.has "id" = true

theorem plainMembers_of_untouched {vars : Vars} {fields : Dict Value} (hd : fields.Distinct)
    (h : ∀ k ∈ fields.keys, Substitution.isTouched k.toList = false) : PlainMembers vars fields := by
  refine ⟨hd, fun _ k hk key _ he => ?_⟩
  rw [substituteTouched_of_untouched vars (h k hk)] at he
  cases he
  rfl

namespace Fragment

theorem get?_substituted {scope : Scope} {vars : Vars} {data out : Dict Value} (key : String)
    (hkey : Substitution.isTouched key.toList = false) (hd : data.Distinct)
    (hk : vars.isEmpty = false → ∀ k ∈ data.keys, substituteTouched vars k = .ok key → k = key)
    (h : substituted scope vars data = .ok out) :
    out.Distinct ∧ match data.get? key with
      | none => out.get? key = none
      | some v => ∃ w, substituteValue vars v = .ok w ∧ out.get? key = some w := by
  rw [substituted] at h
  split at h
  · next he =>
    cases h
    refine ⟨hd, ?_⟩
    cases hv : data.get? key with
    | none => rfl
    | some v => exact ⟨v, by rw [substituteValue, if_pos he], rfl⟩
  · next he =>
    rw [Except.mapError_eq_ok] at h
    have hnil : Dict.Distinct ([] : Dict Value) := List.nodup_nil
    refine ⟨distinct_substituteMembers hnil h, ?_⟩
    have hget := get?_substituteMembers hkey hd (hk (Bool.eq_false_of_not_eq_true he)) h
    cases hv : data.get? key with
    | none =>
      rw [hv] at hget
      exact hget
    | some v =>
      rw [hv] at hget
      obtain ⟨w, hw, hout⟩ := hget
      exact ⟨w, by rw [substituteValue, if_neg he, hw], hout⟩

end Fragment

/-! ## Presets -/

namespace PresetTable

/-- A preset of the table has the text under a key, for some variables. -/
def Gives (table : PresetTable) (key s : String) : Prop :=
  ∃ name vars place members, table.resolve name vars place = .ok members ∧
    (key, Value.str s) ∈ members

theorem mem_resolveAll {table : PresetTable} {vars : Vars} {place : String} {merged out : Dict Value}
    {names : List String} (h : table.resolveAll vars place merged names = .ok out)
    {e : String × Value} (he : e ∈ out) :
    e ∈ merged ∨ ∃ name members, table.resolve name vars place = .ok members ∧ e ∈ members := by
  induction names generalizing merged with
  | nil =>
    cases h
    exact .inl he
  | cons name rest ih =>
    rw [resolveAll, Except.bind_eq_ok] at h
    obtain ⟨members, hmembers, h⟩ := h
    rcases ih h with hin | hlater
    · rcases Dict.mem_extend hin with hin | hin
      · exact .inl hin
      · exact .inr ⟨name, members, hmembers, hin⟩
    · exact .inr hlater

theorem get?_presetNames {place : String} {data rest : Dict Value} {names : List String}
    (h : presetNames place data = (rest, .ok names)) (hd : data.Distinct) {key : String}
    (hone : key ≠ "preset") (hmany : key ≠ "presets") : rest.get? key = data.get? key := by
  rw [presetNames] at h
  split at h
  · cases h
  · obtain ⟨rfl, -⟩ := Prod.mk.inj h
    rw [Dict.get?_erase _ _ _ (Dict.distinct_erase hd "preset"), if_neg hmany.symm,
      Dict.get?_erase _ _ _ hd, if_neg hone.symm]

/-- What a fragment has it keeps; a text it gets is that of a preset. -/
theorem get?_expand {table : PresetTable} {data out : Dict Value} {vars : Vars} {place : String}
    (h : table.expand data vars place = (out, none)) (hd : data.Distinct) (key : String)
    (hone : key ≠ "preset") (hmany : key ≠ "presets") :
    ∃ found : Option Value, out.get? key = (data.get? key).or found ∧
      ∀ v ∈ found, ∃ name members, table.resolve name vars place = .ok members ∧ (key, v) ∈ members := by
  rw [expand] at h
  split at h
  · cases h
  · next rest names hnames =>
    split at h
    · cases h
    · next members hmembers =>
      cases h
      refine ⟨members.get? key, ?_, ?_⟩
      · rw [Dict.get?_addMissing, get?_presetNames hnames hd hone hmany]
      · intro v hv
        rcases mem_resolveAll hmembers (Dict.mem_of_get? hv) with hin | hin
        · cases hin
        · exact hin

end PresetTable

/-! ## One fragment -/

section Members

variable {vars : Vars}

theorem PlainMembers.insert {fields : Dict Value} (h : PlainMembers vars fields) {key : String}
    (hkey : Substitution.isTouched key.toList = false) (v : Value) :
    PlainMembers vars (fields.insert key v) := by
  refine ⟨Dict.distinct_insert h.distinct key v, fun hvars k hk other hother he => ?_⟩
  rw [Dict.keys_insert] at hk
  have hcases : k ∈ fields.keys ∨ k = key := by
    split at hk
    · exact .inl hk
    · simpa using hk
  rcases hcases with hold | rfl
  · exact h.keys hvars k hold other hother he
  · rw [substituteTouched_of_untouched vars hkey] at he
    cases he
    rfl

theorem Fragment.plain_withType {source : Dict Value} (h : PlainMembers vars source) :
    PlainMembers vars (withType source) := by
  unfold withType
  split
  · exact h.insert (by decide) _
  · exact h

theorem Fragment.plain_withId (parent : Option String) {data : Dict Value} (h : PlainMembers vars data) :
    PlainMembers vars (withId parent data) := by
  unfold withId
  split
  · exact (h.insert (by decide) _).insert (by decide) _
  · exact h.insert (by decide) _
  · exact h

end Members

namespace Fragment

theorem withId_eq_self {space : String} {data : Dict Value} (h : ∀ s, data.get? "id" ≠ some (.str s)) :
    withId (some space) data = data := by
  unfold withId
  split
  · next hs => exact absurd hs (h _)
  · next hnone _ => cases hnone
  · rfl

theorem withId_of_text {space s : String} {data : Dict Value} (h : data.get? "id" = some (.str s)) :
    withId (some space) data =
      (data.insert "base_id" (.str s)).insert "id" (.str (space ++ "." ++ s)) := by
  unfold withId
  rw [h]

theorem text?_eq_some {f : Fragment} {key s : String} :
    f.text? key = some s ↔ f.data.get? key = some (.str s) := by
  unfold text?
  cases f.data.get? key with
  | none => simp
  | some v => cases v <;> simp [Value.text?]

theorem resolve_member {presets : PresetTable} {scope : Scope} {source : Dict Value} {f : Fragment}
    (hplain : PlainMembers f.vars source) (h : resolve presets scope (.obj source) = .ok f)
    (key : String) (hkey : key ∈ ["id", "base_id"]) :
    match (withId scope.id? (withType source)).get? key with
    | none => ∀ s, f.data.get? key = some (.str s) → presets.Gives key s
    | some v => ∃ w, substituteValue f.vars v = .ok w ∧ f.data.get? key = some w := by
  have hall : ∀ key ∈ ["id", "base_id"], Substitution.isTouched key.toList = false ∧
      key ≠ "preset" ∧ key ≠ "presets" := by decide
  obtain ⟨huntouched, hone, hmany⟩ := hall key hkey
  simp only [resolve, Except.bind_eq_ok] at h
  obtain ⟨vars, -, data, hdata, h⟩ := h
  split at h
  case h_2 => cases h
  case h_1 out hexpand =>
    cases h
    obtain ⟨hd, hkeys⟩ := plain_withId scope.id? (plain_withType hplain)
    obtain ⟨hd', hget⟩ :=
      get?_substituted key huntouched hd (fun hvars k hk => hkeys hvars k hk key hkey) hdata
    obtain ⟨found, hout, hfound⟩ := PresetTable.get?_expand hexpand hd' key hone hmany
    cases hown : (withId scope.id? (withType source)).get? key with
    | none =>
      rw [hown] at hget
      rw [hget, Option.none_or] at hout
      intro s hs
      obtain ⟨name, members, hin⟩ := hfound (.str s) (hout.symm.trans hs)
      exact ⟨name, vars, _, members, hin⟩
    | some v =>
      rw [hown] at hget
      obtain ⟨w, hw, hdata⟩ := hget
      rw [hdata, Option.some_or] at hout
      exact ⟨w, hw, hout⟩

/-- **The id of a fragment** in a namespace is that of a preset, as is its base id if there is one, or what the
namespace, a dot and the id that is written there become; then the base id is what the written id becomes. -/
theorem resolve_id {presets : PresetTable} {scope : Scope} {space : String} {source : Dict Value}
    {f : Fragment} (hscope : scope.id? = some space) (hplain : PlainFragment f.vars source)
    (h : resolve presets scope (.obj source) = .ok f) {id : String} (hid : f.text? "id" = some id) :
    (source.get? "id" = none ∧ presets.Gives "id" id ∧
        ∀ base, f.text? "base_id" = some base → presets.Gives "base_id" base) ∨
      ∃ s base, source.get? "id" = some (.str s) ∧ f.text? "base_id" = some base ∧
        substituteValue f.vars (.str s) = .ok (.str base) ∧
        substituteValue f.vars (.str (space ++ "." ++ s)) = .ok (.str id) := by
  have hfull := resolve_member hplain.toPlainMembers h "id" (by decide)
  have hbase := resolve_member hplain.toPlainMembers h "base_id" (by decide)
  have hsource : (withType source).get? "id" = source.get? "id" := get?_withType source (by decide)
  rw [text?_eq_some] at hid
  rw [hscope] at hfull hbase
  by_cases htext : ∃ s, source.get? "id" = some (.str s)
  · obtain ⟨s, hs⟩ := htext
    rw [hs] at hsource
    rw [withId_of_text hsource, Dict.get?_insert, if_pos rfl] at hfull
    rw [withId_of_text hsource, Dict.get?_insert, if_neg (by decide), Dict.get?_insert,
      if_pos rfl] at hbase
    obtain ⟨w, hw, hget⟩ := hfull
    obtain ⟨w', hw', hget'⟩ := hbase
    rw [hid] at hget
    cases hget
    obtain ⟨base, rfl⟩ := substituteValue_str hw'
    exact .inr ⟨s, base, hs, text?_eq_some.2 hget', hw', hw⟩
  · have hother : ∀ s, (withType source).get? "id" ≠ some (.str s) := by
      rw [hsource]
      exact fun s hs => htext ⟨s, hs⟩
    rw [withId_eq_self hother] at hfull hbase
    rw [hsource] at hfull
    cases hown : source.get? "id" with
    | none =>
      have hnone : source.get? "base_id" = none := by
        cases hv : source.get? "base_id" with
        | none => rfl
        | some v =>
          have hid := hplain.hasId (by rw [Dict.has, hv]; rfl)
          rw [Dict.has, hown] at hid
          cases hid
      rw [hown] at hfull
      rw [get?_withType source (by decide), hnone] at hbase
      exact .inl ⟨rfl, hfull id hid, fun base hb => hbase base (text?_eq_some.1 hb)⟩
    | some v =>
      -- Only a text turns into a text.
      rw [hown] at hfull
      obtain ⟨w, hw, hget⟩ := hfull
      rw [hid] at hget
      cases hget
      obtain ⟨s, rfl⟩ := substituteValue_eq_str hw
      exact absurd ⟨s, hown⟩ htext

end Fragment

/-! ## Trees -/

variable {α : Type}

/-- What is known of the ids of a shape right below `space`, itself below or at `root`. -/
inductive Frame.Named (table : PresetTable) (root space : String) (f : Frame α) : Prop
  | unnamed (h : f.id? = none)
  | preset (id : String) (hid : f.id? = some id) (h : table.Gives "id" id)
      (hbase : ∀ base, f.baseId? = some base → table.Gives "base_id" base)
  | written (id base : String) (hid : f.id? = some id) (hbase : f.baseId? = some base)
      (hspace : Substitution.isTouched space.toList = false → id = space ++ "." ++ base)
      (hroot : Substitution.isTouched root.toList = false → IsUnder root id)

/-- What the ids inside a group begin with: the same as before if that group does, else its id, and the name of its
list if it has none. -/
def Frame.rootBelow (f : Frame α) (root name : String) : String :=
  match f.id? with
  | some id => if IsUnder root id then root else id
  | none => name

theorem Frame.Named.moveBy [Coordinate α] {table : PresetTable} {root space : String} {f : Frame α}
    (h : f.Named table root space) (d : Vec α) : (f.moveBy d).Named table root space := by
  cases h with
  | unnamed h => exact .unnamed h
  | preset id hid h hbase => exact .preset id hid h hbase
  | written id base hid hbase hspace hroot => exact .written id base hid hbase hspace hroot

theorem Frame.rootBelow_above (f : Frame α) (root name : String) :
    f.id?.getD name = f.rootBelow root name ∨ IsUnder (f.rootBelow root name) (f.id?.getD name) := by
  unfold rootBelow
  cases f.id? with
  | none => exact .inl rfl
  | some id =>
    by_cases hid : IsUnder root id
    · simp only [if_pos hid]
      exact .inr hid
    · simp only [if_neg hid]
      exact .inl rfl

namespace Shape

mutual

/-- The ids of a tree right below `space`, itself below or at `root`. -/
def Named (table : PresetTable) (root space : String) : Shape α → Prop
  | rect f .. => f.Named table root space
  | circle f .. => f.Named table root space
  | text f .. => f.Named table root space
  | group f name _ _ children =>
    f.Named table root space ∧ NamedAll table (f.rootBelow root name) (f.id?.getD name) children

/-- The ids of trees right below `space`, itself below or at `root`. -/
def NamedAll (table : PresetTable) (root space : String) : List (Shape α) → Prop
  | [] => True
  | s :: rest => Named table root space s ∧ NamedAll table root space rest

end

variable {table : PresetTable} {root space : String}

theorem namedAll_iff {shapes : List (Shape α)} :
    NamedAll table root space shapes ↔ ∀ s ∈ shapes, s.Named table root space := by
  induction shapes with
  | nil => simp [NamedAll]
  | cons s rest ih => rw [NamedAll, ih, List.forall_mem_cons]

theorem named_of_asGroup? {s : Shape α} (hs : s.asGroup? = none)
    (h : s.frame.Named table root space) : s.Named table root space := by
  cases s with
  | group => cases hs
  | _ => exact h

variable [Coordinate α]

mutual

theorem Named.moveBy (d : Vec α) : ∀ {root space : String} (s : Shape α),
    s.Named table root space → (s.moveBy d).Named table root space
  | _, _, rect .., h => Frame.Named.moveBy h d
  | _, _, circle .., h => Frame.Named.moveBy h d
  | _, _, text .., h => Frame.Named.moveBy h d
  | _, _, group _ _ _ _ children, h => ⟨Frame.Named.moveBy h.1 d, NamedAll.moveAll d children h.2⟩

theorem NamedAll.moveAll (d : Vec α) : ∀ {root space : String} (shapes : List (Shape α)),
    NamedAll table root space shapes → NamedAll table root space (moveAll d shapes)
  | _, _, [], _ => trivial
  | _, _, s :: rest, h => ⟨Named.moveBy d s h.1, NamedAll.moveAll d rest h.2⟩

end

end Shape

/-! ## Building -/

section Building

variable [Calculator] [Coordinate α]

theorem Fragment.named_frame {presets : PresetTable} {scope : Scope} {root space : String}
    {source : Dict Value} {f : Fragment} {frame : Frame α} (hscope : scope.id? = some space)
    (habove : space = root ∨ IsUnder root space) (h : resolve presets scope (.obj source) = .ok f)
    (hplain : PlainFragment f.vars source) (hframe : f.frame = .ok frame) :
    frame.Named presets root space := by
  obtain ⟨hid, hbase⟩ := frame_ids hframe
  cases hown : f.text? "id" with
  | none => exact .unnamed (hid.trans hown)
  | some id =>
    rcases resolve_id hscope hplain h hown with
      ⟨-, hgives, hgivesBase⟩ | ⟨s, base, -, hb, hs, hfull⟩
    · rw [← hbase] at hgivesBase
      exact .preset id (hid.trans hown) hgives hgivesBase
    · refine .written id base (hid.trans hown) (hbase.trans hb) (fun huntouched => ?_) fun huntouched => ?_
      · obtain ⟨t, ht, rfl⟩ := substituteValue_lead huntouched hfull
        rw [hs] at ht
        cases ht
        rfl
      · obtain ⟨t, ht⟩ := exists_dotted habove s
        rw [ht] at hfull
        obtain ⟨rest, -, rfl⟩ := substituteValue_lead huntouched hfull
        exact isUnder_iff.2 ⟨rest, rfl⟩

omit [Calculator] in
theorem Shape.Named.placed {table : PresetTable} {root space : String} {s : Shape α}
    (h : s.Named table root space) (offset : Vec α) : (s.placed offset).Named table root space := by
  unfold Shape.placed
  split
  · exact h
  · exact h.moveBy offset s

namespace ShapeBuilder

variable {b : ShapeBuilder}

/-- All fragments that are built for a fragment are plain, with the variables that each of them is built with. -/
def BuildsPlain (b : ShapeBuilder) (α : Type) [Coordinate α] (scope : Scope) (data : Value) : Prop :=
  ∀ scope' source f, b.Visits α scope data scope' (.obj source) →
    Fragment.resolve b.presets scope' (.obj source) = .ok f → PlainFragment f.vars source

/-- **The ids of one shape**, at any depth of nested includes. -/
theorem named_buildWithin {depth : Nat} {root space : String} {scope : Scope} {data : Value} {s : Shape α}
    (hscope : scope.id? = some space) (habove : space = root ∨ IsUnder root space)
    (hplain : b.BuildsPlain α scope data) (h : (b.buildWithin depth scope data).result = .ok s) :
    s.Named b.presets root space := by
  induction depth generalizing root space scope data s with
  | zero => cases h
  | succ depth ih =>
    obtain ⟨_, f, ⟨⟩, hf, hplan⟩ := buildWithin_eq_ok h
    cases data with
    | obj source =>
      have hown : PlainFragment f.vars source := hplain scope source f .here hf
      rcases hplan with hleaf | ⟨frame, name, count, children, hi, rfl, -⟩
      · obtain ⟨hframe, hleaf⟩ := Fragment.plan_eq_shape hleaf
        exact Shape.named_of_asGroup? hleaf (Fragment.named_frame hscope habove hf hown hframe)
      · refine ⟨Fragment.named_frame hscope habove hf hown hi.frame, Shape.namedAll_iff.2 fun c hc => ?_⟩
        obtain ⟨k, hk⟩ := List.getElem?_of_mem hc
        obtain ⟨_, f', ⟨⟩, hf', frame', name', count', items, i, j, entry, t, hi', hitems, hturn, hentry, -, ht, rfl⟩ :=
          inside_buildWithin h hk
        cases hf.symm.trans hf'
        cases hi.plan.symm.trans hi'.plan
        refine (ih rfl (frame.rootBelow_above root name) (fun scope' source' f' hvisits => ?_) ht).placed frame.pos
        exact hplain scope' source' f' (.inside hf hi hitems hturn hentry hvisits)
    | _ => cases hf

/-- **The ids of a list of shapes** built from plain fragments. A shape with an id has it from presets, or it is the
namespace right above, a dot and the base id. Such an id begins with the id that all is built below, except inside a
group without an id of its own. -/
theorem named_buildList (b : ShapeBuilder) (depth : Nat) (scope : Scope) (parent : String)
    (hscope : scope.id? = some parent) (items : List Value) (offset : Vec α)
    (hplain : ∀ k data, items[k]? = some data → b.BuildsPlain α (scope.entry k) data) (shapes : List (Shape α))
    (h : (b.buildList depth scope items offset).result = .ok shapes) :
    Shape.NamedAll b.presets parent parent shapes := by
  rw [Shape.namedAll_iff]
  intro s hs
  obtain ⟨k, hk⟩ := List.getElem?_of_mem hs
  rw [buildList, buildEach, result_buildFrom] at h
  obtain ⟨hlength, hget⟩ := Except.getElem?_of_mapM h
  rw [List.length_zipIdx] at hlength
  have hlt : k < items.length := hlength ▸ (List.getElem?_eq_some_iff.1 hk).1
  obtain ⟨s', hs', hstep⟩ := hget k (items[k], k) (by simp [hlt])
  obtain rfl : s = s' := Option.some.inj (hk.symm.trans hs')
  obtain ⟨t, ht, rfl⟩ := Except.map_eq_ok.1 hstep
  have hentry : (scope.entry k).id? = some parent := hscope
  exact (named_buildWithin hentry (.inl rfl) (hplain k items[k] (List.getElem?_eq_getElem hlt)) ht).placed offset

end ShapeBuilder

end Building

/-! ### A list and a preset with one text -/

namespace ShapeBuilder

open scoped BoardAtlas.Expr

/-- A text without an id. -/
def dotMembers : Dict Value := [("type", .str "text"), ("text", .str "x"), ("font_size", .num 1.0)]

/-- The same text with an id. -/
def dotFragment : Value := .obj (("id", .str "dot") :: dotMembers)

/-- One list and one preset, each with one text. -/
def dotBuilder : ShapeBuilder where
  library := {
    manifest? := fun kind name =>
      if kind = .shape ∧ name = "part" then .ok (.list [dotFragment]) else .error (.unresolved [] name)
    table? := fun _ => .ok []
    names? := fun _ _ => .ok [] }
  presets := [("dotted", dotFragment)]

/-- The text as it is built, with an id. -/
def dotShape (id : String) (baseId : Option String) : Shape Float :=
  .text { id? := some id, baseId? := baseId, pos := Vec.zero } "x" (Coordinate.ofFloat 1.0) none

/-- The list as it is built. -/
def partShape (id? baseId? : Option String) (vars : Vars) (children : List (Shape Float)) : Shape Float :=
  .group { id?, baseId?, pos := Vec.zero } "part" 1 vars children

/-- A scope in which `${flag}` stands for `note`. -/
def noteScope : Scope := ⟨some "board", [("flag", .str "note")], ""⟩

/-- The list under an id, with a member whose name is replaced. -/
def partMembers : Dict Value := [("name", .str "part"), ("id", .str "u1"), ("${flag}", .str "spare")]

theorem buildsPlain_partMembers : dotBuilder.BuildsPlain Float (noteScope.entry 0) (.obj partMembers) := by
  intro scope source f hvisits hf
  have hpart : Fragment.resolve dotBuilder.presets (noteScope.entry 0) (.obj partMembers) =
      .ok ⟨[("name", .str "part"), ("id", .str "board.u1"), ("note", .str "spare"), ("type", .str "include"),
        ("base_id", .str "u1")], noteScope.vars, "board.u1"⟩ := by with_unfolding_all rfl
  cases hvisits with
  | here =>
    cases hpart.symm.trans hf
    exact ⟨⟨by unfold Dict.Distinct; decide, fun _ => by decide +kernel⟩, fun _ => rfl⟩
  | @inside _ _ f' name count items i j entry _ _ frame hf' hi hitems hturn hentry h =>
    cases hpart.symm.trans hf'
    cases hi.frame
    cases hi.name
    cases hi.count
    cases hitems
    obtain rfl := Nat.lt_one_iff.1 hturn
    match j with
    | 0 =>
      cases hentry
      obtain ⟨-, hsource⟩ := h.eq_of_type (by with_unfolding_all rfl) rfl (by decide : "text" ≠ "include")
      cases hsource
      exact ⟨plainMembers_of_untouched (by unfold Dict.Distinct; decide) (by decide), fun _ => rfl⟩
    | _ + 1 => cases hentry

theorem named_buildList_dotBuilder :
    (dotBuilder.buildList 2 noteScope [.obj partMembers] Vec.zero).result =
        .ok [partShape (some "board.u1") (some "u1") noteScope.vars [dotShape "board.u1.dot" (some "dot")]] ∧
      Shape.NamedAll dotBuilder.presets "board" "board"
        [partShape (some "board.u1") (some "u1") noteScope.vars [dotShape "board.u1.dot" (some "dot")]] := by
  have hbuild : (dotBuilder.buildList 2 noteScope [.obj partMembers] Vec.zero).result =
      .ok [partShape (some "board.u1") (some "u1") noteScope.vars [dotShape "board.u1.dot" (some "dot")]] := by
    with_unfolding_all rfl
  refine ⟨hbuild, named_buildList dotBuilder 2 noteScope "board" rfl [.obj partMembers] Vec.zero ?_ _ hbuild⟩
  intro k data hdata
  match k with
  | 0 =>
    cases hdata
    exact buildsPlain_partMembers
  | _ + 1 => cases hdata

/-- Ids that are not in the namespace they are built below. -/
theorem ids_outside_namespace :
    (dotBuilder.buildList 2 ⟨some "board", [], ""⟩ [.obj [("name", .str "part")]] Vec.zero).result =
        .ok [partShape none none [] [dotShape "part.dot" (some "dot")]] ∧
      (dotBuilder.buildList 2 ⟨some "board", [], ""⟩ [.obj [("preset", .str "dotted")]]
        Vec.zero).result = .ok [dotShape "dot" none] ∧
      (dotBuilder.buildList 2 ⟨some "board", [], ""⟩
        [.obj [("base_id", .str "u1"), ("preset", .str "dotted")]] Vec.zero).result =
        .ok [dotShape "dot" (some "u1")] ∧
      (dotBuilder.buildList 2 ⟨some "board", [("k", .str "id")], ""⟩
        [.obj (("id", .str "u1") :: ("$\x7bk\x7d", .str "dot") :: dotMembers)] Vec.zero).result =
        .ok [dotShape "dot" (some "u1")] ∧
      (dotBuilder.buildList 2 ⟨some "<a:b:board", [("k", .str "id")], ""⟩
        [.obj (("id", .str ":dot>") :: dotMembers)] Vec.zero).result =
        .ok [dotShape "dot" (some ":dot>")] ∧
      ¬ IsUnder "board" "part.dot" ∧ ¬ IsUnder "board" "dot" ∧ ¬ IsUnder "<a:b:board" "dot" := by
  refine ⟨rfl, rfl, rfl, ?_, ?_, by decide, by decide, by decide⟩
  · with_unfolding_all rfl
  · with_unfolding_all rfl

end ShapeBuilder

end BoardAtlas
