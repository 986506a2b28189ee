import BoardAtlas.Library.Loading
import BoardAtlas.Manifest.Typed
import BoardAtlas.Proofs.Manifest.Merging

/-!
# Records without repeated keys

The dictionaries in a typed record have the keys of objects in the value that it is read from. So where no object
repeats a key, none of these dictionaries does; and merging a board over its bases repeats none either.

* `Value.distinct_mergeAt`, **`Library.distinct_board`**: merged values and board manifests;
* `Json.Fields.Plain`, `plain_of_asRecord`: the fields of a record;
* **`distinct_of_getOr_asDict`**: a dictionary among them.
-/

namespace BoardAtlas

/-! ## Merged values -/

namespace Value

theorem MergedMember.forall_of {P : Value → Prop} {trail : List String} {old new r : Option Value}
    (h : MergedMember trail old new r) (hold : ∀ v, old = some v → P v) (hnew : ∀ w, new = some w → P w)
    (hboth : ∀ v w m, old = some v → new = some w → mergeAt trail v w = (m, none) → P m) :
    ∀ m, r = some m → P m := by
  cases h with
  | kept => exact hold
  | added => exact hnew
  | merged hm =>
    rintro m ⟨⟩
    exact hboth _ _ _ rfl rfl hm

theorem distinct_mergeAt {trail : List String} {old new r : Value} (ho : old.Distinct) (hn : new.Distinct)
    (h : mergeAt trail old new = (r, none)) : r.Distinct := by
  induction new using members_induction generalizing trail old r with | step new ih
  rcases mergeAt_eq_none_iff.1 h with ⟨fields, members, merged, rfl, rfl, rfl, hm⟩ | ⟨rfl, -⟩
  · have hmembers := (distinct_obj_iff.1 hn).1
    have hmerged : Dict.Distinct merged := by
      rw [Dict.Distinct, keys_mergeMembers hmembers hm]
      exact nodup_joinedKeys (distinct_obj_iff.1 ho).1 hmembers
    refine distinct_obj_iff.2 ⟨hmerged, fun e he => ?_⟩
    refine (get?_mergeMembers hmembers hm e.1).forall_of (fun v hv => ho.of_get? hv) (fun w hw => hn.of_get? hw)
      (fun v w m hv hw hvw => ?_) e.2 (Dict.get?_of_mem hmerged he)
    exact ih e.1 w hw (ho.of_get? hv) (hn.of_get? hw) hvw
  · exact hn

theorem distinct_merged? {old new r : Value} (ho : old.Distinct) (hn : new.Distinct)
    (h : old.merged? new = .ok r) : r.Distinct :=
  distinct_mergeAt ho hn (merged?_eq_ok h)

end Value

namespace Library

variable {lib : Library}

theorem result_monadOfExcept (x : Except ManifestError Value) :
    (MonadExcept.ofExcept x : Loading ManifestError Value).result = x := by
  cases x <;> rfl

theorem distinct_mergeBases {load : String → Loading ManifestError Value}
    (hload : ∀ base v, (load base).result = .ok v → v.Distinct) {bases : List String} {start r : Value}
    (hs : start.Distinct) (h : (mergeBases load start bases).result = .ok r) : r.Distinct := by
  induction bases generalizing start with
  | nil =>
    cases h
    exact hs
  | cons base rest ih =>
    rw [mergeBases, Loading.result_bind] at h
    obtain ⟨layer, hlayer, h⟩ := Except.bind_eq_ok.1 h
    rw [Loading.result_bind, result_monadOfExcept] at h
    obtain ⟨merged, hmerged, h⟩ := Except.bind_eq_ok.1 h
    exact ih (Value.distinct_merged? hs (distinct_withoutBases (hload base layer hlayer)) hmerged) h

/-- **A board manifest over its bases** repeats no keys, if none of the manifests does. -/
theorem distinct_board (hlib : ∀ kind name v, lib.manifest? kind name = .ok v → v.Distinct) {name : String}
    {v : Value} (h : (lib.board name).result = .ok v) : v.Distinct := by
  have hload (kind : ManifestKind) (name : String) (v : Value) (hv : (lib.manifest kind name).result = .ok v) :
      v.Distinct := hlib kind name v (by rwa [result_manifest] at hv)
  rw [board, Loading.result_bind] at h
  obtain ⟨manifest, hmanifest, h⟩ := Except.bind_eq_ok.1 h
  have hdistinct := hload .board name manifest hmanifest
  rw [inherit, Loading.result_bind] at h
  obtain ⟨bases, -, h⟩ := Except.bind_eq_ok.1 h
  split at h
  · cases h
    exact hdistinct
  · rw [Loading.result_bind] at h
    obtain ⟨merged, hmerged, h⟩ := Except.bind_eq_ok.1 h
    rw [result_monadOfExcept] at h
    have hempty : (Value.obj []).Distinct := Value.distinct_obj_iff.2 ⟨List.nodup_nil, by simp⟩
    exact Value.distinct_merged? (distinct_mergeBases (hload .boardBase) hempty hmerged) hdistinct h

end Library

/-! ## Typed records -/

namespace Value

theorem membersToJson_eq (fields : Dict Value) : membersToJson fields = Dict.mapValues toJson fields := by
  induction fields with
  | nil => rfl
  | cons e rest ih =>
    obtain ⟨k, v⟩ := e
    rw [membersToJson, ih]
    rfl

theorem numberJson_cases (x : Float) :
    (∃ n, numberJson x = .int n) ∨ numberJson x = .float x ∨ numberJson x = .null := by
  rw [numberJson]
  split
  · exact Or.inl ⟨_, rfl⟩
  · split
    · exact Or.inr (Or.inl rfl)
    · exact Or.inr (Or.inr rfl)

theorem itemsToJson_eq (items : List Value) : itemsToJson items = items.map toJson := by
  induction items with
  | nil => rfl
  | cons v rest ih => rw [itemsToJson, ih, List.map_cons]

end Value

namespace Json

/-- Fields that are documents of values without repeated keys. -/
def Fields.Plain (fields : Fields) : Prop :=
  ∀ key x, Dict.get? fields key = some x → ∃ v : Value, v.Distinct ∧ x = v.toJson

theorem plain_of_asRecord {declared : List String} {v : Value} (hv : v.Distinct) {fields : Fields}
    (h : asRecord declared v.toJson = .ok fields) : fields.Plain := by
  cases v with
  | obj members =>
    rw [Value.toJson, asRecord, Value.membersToJson_eq] at h
    cases h
    intro key x hx
    rw [Dict.get?_mapValues] at hx
    obtain ⟨w, hw, rfl⟩ := Option.map_eq_some_iff.1 hx
    exact ⟨w, hv.of_get? hw, rfl⟩
  | list items =>
    rw [Value.toJson, asRecord, Value.itemsToJson_eq] at h
    split at h
    · cases h
      intro key x hx
      obtain ⟨-, hmem⟩ := List.of_mem_zip (Dict.mem_of_get? hx)
      obtain ⟨w, hw, rfl⟩ := List.mem_map.1 hmem
      exact ⟨w, Value.distinct_list_iff.1 hv w hw, rfl⟩
    · cases h
  | num x =>
    rw [Value.toJson] at h
    rcases Value.numberJson_cases x with ⟨n, hx⟩ | hx | hx <;> rw [hx] at h <;> cases h
  | _ => cases h

theorem keys_of_asDict {α : Type} {read : Reader α} {fields : Dict Json} {d : Dict α}
    (h : asDict read (.obj fields) = .ok d) : d.keys = fields.keys := by
  have hpairs := Except.mapM_eq_ok_iff.1 (show fields.mapM _ = Except.ok d from h)
  clear h
  induction hpairs with
  | nil => rfl
  | cons hfirst _ ih =>
    obtain ⟨x, -, rfl⟩ := Except.map_eq_ok.1 hfirst
    exact congrArg (_ :: ·) ih

theorem distinct_of_asDict {α : Type} {read : Reader α} {v : Value} (hv : v.Distinct) {d : Dict α}
    (h : asDict read v.toJson = .ok d) : d.Distinct := by
  cases v with
  | obj members =>
    rw [Value.toJson, Value.membersToJson_eq] at h
    rw [Dict.Distinct, keys_of_asDict h, Dict.keys_mapValues]
    exact (Value.distinct_obj_iff.1 hv).1
  | num x =>
    rw [Value.toJson] at h
    rcases Value.numberJson_cases x with ⟨n, hx⟩ | hx | hx <;> rw [hx] at h <;> cases h
  | _ => cases h

/-- **A dictionary among the fields of a record** repeats no keys; a missing one is empty. -/
theorem distinct_of_getOr_asDict {α : Type} {read : Reader α} {fields : Fields} (hf : fields.Plain) {key : String}
    {d : Dict α} (h : fields.getOr key (asDict read) [] = .ok d) : d.Distinct := by
  rw [Fields.getOr] at h
  split at h
  · next x hx =>
    obtain ⟨v, hv, rfl⟩ := hf key x hx
    exact distinct_of_asDict hv h
  · cases h
    exact List.nodup_nil

end Json

end BoardAtlas
