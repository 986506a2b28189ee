import BoardAtlas.Proofs.Manifest.Layers

/-!
# Merges of three values

A merge of two objects is known from the order of its keys and from each key alone: the keys of the lower object
come first, then those that only the upper one has, and a key of both has the merge of what they hold. So merging
a third layer over two merged ones is merging it over the second and the result over the first.

* `joinedKeys`, `joinedKeys_assoc`: the keys of two layers;
* `mergeAt_eq_none_iff`, `mergeMembers_eq_none_iff`: when a merge has no conflict, and what it gives;
* `MergedMember.assoc`: three layers at one key;
* **`merge_assoc`**: three layers.
-/

namespace BoardAtlas

/-! ## Keys -/

/-- The keys of two layers: those of the lower one, then those that only the upper one has. -/
def joinedKeys (old new : List String) : List String := old ++ new.filter fun k => k ∉ old

theorem mem_joinedKeys {old new : List String} {k : String} :
    k ∈ joinedKeys old new ↔ k ∈ old ∨ k ∈ new := by
  by_cases h : k ∈ old <;> simp [joinedKeys, h]

theorem nodup_joinedKeys {old new : List String} (ho : old.Nodup) (hn : new.Nodup) :
    (joinedKeys old new).Nodup := by
  refine List.nodup_append.2 ⟨ho, hn.filter _, fun a ha b hb he => ?_⟩
  have hb' : b ∉ old := by simpa using (List.mem_filter.1 hb).2
  exact hb' (he ▸ ha)

theorem joinedKeys_assoc (a b c : List String) :
    joinedKeys (joinedKeys a b) c = joinedKeys a (joinedKeys b c) := by
  have hc : (c.filter fun k => k ∉ joinedKeys a b) =
      ((c.filter fun k => k ∉ b).filter fun k => k ∉ a) := by
    rw [List.filter_filter]
    refine List.filter_congr fun k _ => ?_
    by_cases ha : k ∈ a <;> by_cases hb : k ∈ b <;> simp [mem_joinedKeys, ha, hb]
  rw [joinedKeys, hc]
  simp only [joinedKeys, List.filter_append, List.append_assoc]

theorem joinedKeys_cons {k : String} {rest : List String} (h : k ∉ rest) (old : List String) :
    joinedKeys (joinedKeys old [k]) rest = joinedKeys old (k :: rest) := by
  have hrest : (rest.filter fun x => x ∉ [k]) = rest :=
    List.filter_eq_self.2 fun x hx => by
      have hne : x ≠ k := fun he => h (he ▸ hx)
      simpa using hne
  rw [joinedKeys_assoc, joinedKeys, joinedKeys.eq_def [k] rest, hrest]
  rfl

theorem Dict.keys_insert_eq {α : Type} (d : Dict α) (k : String) (v : α) :
    (d.insert k v).keys = joinedKeys d.keys [k] := by
  rw [keys_insert, joinedKeys]
  by_cases h : k ∈ d.keys <;> simp [h]

namespace Value

/-! ## One merge -/

theorem MergedMember.unique {trail : List String} {old new r r' : Option Value}
    (h : MergedMember trail old new r) (h' : MergedMember trail old new r') : r = r' := by
  cases h with
  | kept old =>
    cases h'
    rfl
  | added new =>
    cases h'
    rfl
  | merged hm =>
    cases h' with
    | merged hm' =>
      rw [hm] at hm'
      rw [(Prod.mk.inj hm').1]

theorem mergeAt_eq_replace {old new : Value} (h : ¬ (old.kind = .object ∧ new.kind = .object))
    (trail : List String) : mergeAt trail old new = replace trail old new := by
  cases new with
  | obj members =>
    cases old with
    | obj fields => exact absurd ⟨rfl, rfl⟩ h
    | _ => simp only [mergeAt]
  | _ => simp only [mergeAt]

/-- **A merge has no conflict** if both values are objects without a conflict between their members, or else
the lower one is null or of the kind of the upper one, which is then the result. -/
theorem mergeAt_eq_none_iff {trail : List String} {old new r : Value} :
    mergeAt trail old new = (r, none) ↔
      (∃ fields members merged, old = .obj fields ∧ new = .obj members ∧ r = .obj merged ∧
        mergeMembers trail fields members = (merged, none)) ∨
      (r = new ∧ (old.kind = .null ∨ old.kind = new.kind ∧ old.kind ≠ .object)) := by
  by_cases hobj : old.kind = .object ∧ new.kind = .object
  · obtain ⟨fields, rfl⟩ : ∃ fields, old = .obj fields := by
      cases old with
      | obj fields => exact ⟨fields, rfl⟩
      | _ => cases hobj.1
    obtain ⟨members, rfl⟩ : ∃ members, new = .obj members := by
      cases new with
      | obj members => exact ⟨members, rfl⟩
      | _ => cases hobj.2
    rw [mergeAt]
    rcases hm : mergeMembers trail fields members with ⟨merged, conflict⟩
    simp only [Prod.mk.injEq, kind]
    constructor
    · rintro ⟨rfl, rfl⟩
      exact Or.inl ⟨fields, members, merged, rfl, rfl, rfl, hm⟩
    · rintro (⟨_, _, _, ⟨⟩, ⟨⟩, rfl, h⟩ | ⟨-, hk⟩)
      · rw [hm] at h
        cases h
        exact ⟨rfl, rfl⟩
      · rcases hk with hnull | ⟨-, hne⟩
        · cases hnull
        · exact absurd rfl hne
  · rw [mergeAt_eq_replace hobj, replace]
    constructor
    · intro h
      split at h
      · next hk =>
        cases h
        refine Or.inr ⟨rfl, hk.imp_right fun he => ⟨he, fun ho => hobj ⟨ho, he ▸ ho⟩⟩⟩
      · cases h
    · rintro (⟨_, _, _, rfl, rfl, -⟩ | ⟨rfl, hk⟩)
      · exact absurd ⟨rfl, rfl⟩ hobj
      · rw [if_pos (hk.imp_right And.left)]

/-! ## Members -/

section Members

variable {trail : List String} {fields new merged : Dict Value}

theorem keys_mergeMembers (hn : Dict.Distinct new)
    (h : mergeMembers trail fields new = (merged, none)) :
    merged.keys = joinedKeys fields.keys new.keys := by
  induction new generalizing fields with
  | nil =>
    cases h
    rw [joinedKeys]
    exact (List.append_nil _).symm
  | cons e rest ih =>
    obtain ⟨k, w⟩ := e
    obtain ⟨hk, hrest⟩ : k ∉ Dict.keys rest ∧ Dict.Distinct rest := List.nodup_cons.1 hn
    obtain ⟨v, -, hm⟩ := mergeMembers_cons h
    rw [ih hrest hm, Dict.keys_insert_eq, joinedKeys_cons hk]
    rfl

theorem exists_mergeMembers (hn : Dict.Distinct new)
    (h : ∀ key old w, fields.get? key = some old → new.get? key = some w →
      ∃ m, mergeAt (key :: trail) old w = (m, none)) :
    ∃ merged, mergeMembers trail fields new = (merged, none) := by
  induction new generalizing fields with
  | nil => exact ⟨fields, rfl⟩
  | cons e rest ih =>
    obtain ⟨k, w⟩ := e
    obtain ⟨hk, hrest⟩ : k ∉ Dict.keys rest ∧ Dict.Distinct rest := List.nodup_cons.1 hn
    -- The other members have other keys, so what is written under `k` does not touch them.
    have hothers (v : Value) : ∀ key old w', (fields.insert k v).get? key = some old →
        Dict.get? rest key = some w' → ∃ m, mergeAt (key :: trail) old w' = (m, none) := by
      intro key old w' hold hw'
      have hne : k ≠ key := by
        rintro rfl
        rw [Dict.get?_eq_none hk] at hw'
        cases hw'
      rw [Dict.get?_insert, if_neg hne] at hold
      exact h key old w' hold (by rw [Dict.get?_cons, if_neg hne, hw'])
    rw [mergeMembers]
    cases hf : Dict.get? fields k with
    | none => exact ih hrest (hothers w)
    | some old =>
      obtain ⟨m, hm⟩ := h k old w hf (by rw [Dict.get?_cons, if_pos rfl])
      simp only [hm]
      exact ih hrest (hothers m)

/-- **A merge of members** is known from the order of its keys and from each key alone. -/
theorem mergeMembers_eq_none_iff (hf : Dict.Distinct fields) (hn : Dict.Distinct new) :
    mergeMembers trail fields new = (merged, none) ↔
      merged.keys = joinedKeys fields.keys new.keys ∧ ∀ key,
        MergedMember (key :: trail) (fields.get? key) (new.get? key) (merged.get? key) := by
  constructor
  · exact fun h => ⟨keys_mergeMembers hn h, get?_mergeMembers hn h⟩
  · rintro ⟨hkeys, hmembers⟩
    obtain ⟨m, hm⟩ : ∃ m, mergeMembers trail fields new = (m, none) := by
      refine exists_mergeMembers hn fun key old w hold hw => ?_
      have hmember := hmembers key
      rw [hold, hw] at hmember
      generalize Dict.get? merged key = x at hmember
      cases hmember with
      | merged h => exact ⟨_, h⟩
    have hdistinct : Dict.Distinct m := by
      rw [Dict.Distinct, keys_mergeMembers hn hm]
      exact nodup_joinedKeys hf hn
    have heq : m = merged := by
      refine Dict.ext_get? hdistinct ((keys_mergeMembers hn hm).trans hkeys.symm) fun key => ?_
      exact (get?_mergeMembers hn hm key).unique (hmembers key)
    rw [hm, heq]

end Members

/-! ## Three layers -/

theorem MergedMember.assoc {trail : List String} {a b c ab r : Option Value}
    (ih : ∀ u v w uv x, a = some u → b = some v → c = some w →
      mergeAt trail u v = (uv, none) → mergeAt trail uv w = (x, none) →
      ∃ vw, mergeAt trail v w = (vw, none) ∧ mergeAt trail u vw = (x, none))
    (hab : MergedMember trail a b ab) (hr : MergedMember trail ab c r) :
    ∃ bc, MergedMember trail b c bc ∧ MergedMember trail a bc r := by
  cases hab with
  | kept a =>
    cases hr with
    | kept => exact ⟨none, .kept none, .kept a⟩
    | added w => exact ⟨some w, .added w, .added w⟩
    | merged h => exact ⟨some _, .added _, .merged h⟩
  | added v =>
    cases hr with
    | kept => exact ⟨some v, .kept _, .added v⟩
    | merged h => exact ⟨some _, .merged h, .added _⟩
  | merged h =>
    cases hr with
    | kept => exact ⟨some _, .kept _, .merged h⟩
    | merged h' =>
      obtain ⟨vw, hvw, hx⟩ := ih _ _ _ _ _ rfl rfl rfl h h'
      exact ⟨some vw, .merged hvw, .merged hx⟩

theorem mergeMembers_assoc {trail : List String} {a b c ab r : Dict Value} (ha : Dict.Distinct a)
    (hb : Dict.Distinct b) (hc : Dict.Distinct c)
    (ih : ∀ key u v w uv x, a.get? key = some u → b.get? key = some v → c.get? key = some w →
      mergeAt (key :: trail) u v = (uv, none) → mergeAt (key :: trail) uv w = (x, none) →
      ∃ vw, mergeAt (key :: trail) v w = (vw, none) ∧ mergeAt (key :: trail) u vw = (x, none))
    (hab : mergeMembers trail a b = (ab, none)) (hr : mergeMembers trail ab c = (r, none)) :
    ∃ bc, mergeMembers trail b c = (bc, none) ∧ mergeMembers trail a bc = (r, none) := by
  have hmember (key : String) : ∃ bc, MergedMember (key :: trail) (b.get? key) (c.get? key) bc ∧
      MergedMember (key :: trail) (a.get? key) bc (r.get? key) :=
    (get?_mergeMembers hb hab key).assoc (ih key) (get?_mergeMembers hc hr key)
  obtain ⟨bc, hbc⟩ : ∃ bc, mergeMembers trail b c = (bc, none) := by
    refine exists_mergeMembers hc fun key v w hv hw => ?_
    obtain ⟨x, hx, -⟩ := hmember key
    rw [hv, hw] at hx
    cases hx with
    | merged h => exact ⟨_, h⟩
  have hkeys : r.keys = joinedKeys a.keys bc.keys := by
    rw [keys_mergeMembers hc hr, keys_mergeMembers hb hab, keys_mergeMembers hc hbc,
      joinedKeys_assoc]
  have hdistinct : Dict.Distinct bc := by
    rw [Dict.Distinct, keys_mergeMembers hc hbc]
    exact nodup_joinedKeys hb hc
  refine ⟨bc, hbc, (mergeMembers_eq_none_iff ha hdistinct).2 ⟨hkeys, fun key => ?_⟩⟩
  obtain ⟨x, hx, ha'⟩ := hmember key
  rw [(get?_mergeMembers hc hbc key).unique hx]
  exact ha'

theorem sizeOf_lt_of_get? {v w : Value} {key : String} (h : v.get? key = some w) :
    sizeOf w < sizeOf v := by
  obtain ⟨fields, hfields, hw⟩ := Option.bind_eq_some_iff.1 h
  cases v with
  | obj members =>
    cases hfields
    have hsize := List.sizeOf_lt_of_mem (Dict.mem_of_get? hw)
    simp only [Prod.mk.sizeOf_spec, obj.sizeOf_spec] at hsize ⊢
    omega
  | _ => cases hfields

theorem members_induction {P : Value → Prop}
    (step : ∀ v : Value, (∀ key w, v.get? key = some w → P w) → P v) (v : Value) : P v := by
  induction hn : sizeOf v using Nat.strongRecOn generalizing v with | ind n ih
  subst hn
  exact step v fun _ w hw => ih (sizeOf w) (sizeOf_lt_of_get? hw) w rfl

theorem mergeAt_assoc {trail : List String} {a b c ab r : Value} (ha : a.Distinct)
    (hb : b.Distinct) (hc : c.Distinct) (hab : mergeAt trail a b = (ab, none))
    (hr : mergeAt trail ab c = (r, none)) :
    ∃ bc, mergeAt trail b c = (bc, none) ∧ mergeAt trail a bc = (r, none) := by
  induction c using members_induction generalizing trail a b ab r with | step c ih
  rcases mergeAt_eq_none_iff.1 hab with ⟨as, bs, abs, rfl, rfl, rfl, hm⟩ | ⟨rfl, hkind⟩
  · rcases mergeAt_eq_none_iff.1 hr with ⟨_, cs, rs, ⟨⟩, rfl, rfl, hm'⟩ | ⟨-, hkind⟩
    · have hkeys : ∀ key u v w uv x, Dict.get? as key = some u → Dict.get? bs key = some v →
          Dict.get? cs key = some w → mergeAt (key :: trail) u v = (uv, none) →
          mergeAt (key :: trail) uv w = (x, none) →
          ∃ vw, mergeAt (key :: trail) v w = (vw, none) ∧
            mergeAt (key :: trail) u vw = (x, none) := by
        intro key u v w uv x hu hv hw huv hx
        exact ih key w hw (ha.of_get? hu) (hb.of_get? hv) (hc.of_get? hw) huv hx
      obtain ⟨bcs, hbc, hr'⟩ := mergeMembers_assoc (distinct_obj_iff.1 ha).1
        (distinct_obj_iff.1 hb).1 (distinct_obj_iff.1 hc).1 hkeys hm hm'
      exact ⟨.obj bcs, mergeAt_eq_none_iff.2 (Or.inl ⟨bs, cs, bcs, rfl, rfl, rfl, hbc⟩),
        mergeAt_eq_none_iff.2 (Or.inl ⟨as, bcs, rs, rfl, rfl, rfl, hr'⟩)⟩
    · rcases hkind with hnull | ⟨-, hne⟩
      · cases hnull
      · exact absurd rfl hne
  · -- Nothing of `a` is left, and `c` over `b` has a kind that may stand over `a`.
    refine ⟨r, hr, mergeAt_eq_none_iff.2 (Or.inr ⟨rfl, ?_⟩)⟩
    rcases hkind with hnull | ⟨hsame, hne⟩
    · exact Or.inl hnull
    · rcases mergeAt_eq_none_iff.1 hr with ⟨_, _, _, rfl, -⟩ | ⟨rfl, hnull | ⟨hkind, -⟩⟩
      · exact absurd hsame hne
      · exact Or.inl (hsame.trans hnull)
      · exact Or.inr ⟨hsame.trans hkind, hne⟩

theorem merge_eq_none_iff {old new r : Value} :
    old.merge new = (r, none) ↔ mergeAt [] old new = (r, none) := by
  rw [merge]
  rcases mergeAt [] old new with ⟨m, _ | conflict⟩ <;> simp

/-- **Merging is associative.** If `b` merges over `a` and `c` over the result, then `c` merges over `b` and
the result over `a`, with the same value in the end, its keys in the same order. -/
theorem merge_assoc (a b c ab r : Value) (ha : a.Distinct) (hb : b.Distinct) (hc : c.Distinct)
    (hab : a.merge b = (ab, none)) (hr : ab.merge c = (r, none)) :
    ∃ bc, b.merge c = (bc, none) ∧ a.merge bc = (r, none) := by
  obtain ⟨bc, hbc, habc⟩ := mergeAt_assoc ha hb hc (merge_eq_none_iff.1 hab) (merge_eq_none_iff.1 hr)
  exact ⟨bc, merge_eq_none_iff.2 hbc, merge_eq_none_iff.2 habc⟩

/-- A chip without a value yet, its name and package name, then other pins and a vendor. -/
theorem merge_assoc_package :
    ∃ bc,
      (obj [("chip", .str "X1"), ("package", .obj [("name", .str "QFN")])]).merge
        (obj [("package", .obj [("pitch", .str "0.4"), ("pins", .str "48")]),
          ("vendor", .str "V")]) = (bc, none) ∧
      (obj [("chip", .null), ("package", .obj [("pins", .str "32")])]).merge bc =
        (obj [("chip", .str "X1"),
          ("package", .obj [("pins", .str "48"), ("name", .str "QFN"), ("pitch", .str "0.4")]),
          ("vendor", .str "V")], none) :=
  merge_assoc _ _ _
    (.obj [("chip", .str "X1"), ("package", .obj [("pins", .str "32"), ("name", .str "QFN")])]) _
    (by simp [Distinct, DistinctMembers, Dict.Distinct, Dict.keys])
    (by simp [Distinct, DistinctMembers, Dict.Distinct, Dict.keys])
    (by simp [Distinct, DistinctMembers, Dict.Distinct, Dict.keys]) rfl rfl

/-- The other way round it fails: a null that the last layer replaces cannot stand over a text. -/
example :
    null.merge (str "48") = (str "48", none) ∧ (str "32").merge (str "48") = (str "48", none) ∧
      (str "32").merge null = (str "32", some (.typeConflict [] .string .null)) :=
  ⟨rfl, rfl, rfl⟩

end Value

end BoardAtlas
