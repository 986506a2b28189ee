import BoardAtlas.Proofs.Manifest.Merging

/-!
# A manifest as its own base

Merging an object over a part of it completes the part: the members of the part stay where they are, and the
others follow. A value merged over itself is one case, an object over nothing is another, and a manifest over
itself without its declaration of bases is a third. So a manifest that names itself, once or many times, only
has its declaration moved to the end.

* `Declares`, `declaredBases_of_declares`: declarations of bases that are accepted;
* `mergeMembers_part`, `mergeAt_self`: an object over a part of it, a value over itself;
* `mergeBases_of_mapM`: answers for all bases, then one merge after the other;
* **`inherit_self`**: a manifest over itself.
-/

namespace BoardAtlas

/-! ## Parts of a dictionary -/

namespace Dict

variable {α : Type}

theorem get?_append (d e : Dict α) (key : String) :
    get? (d ++ e) key = (d.get? key).or (e.get? key) := by
  induction d with
  | nil => rfl
  | cons x d ih =>
    obtain ⟨k, v⟩ := x
    rw [List.cons_append, get?_cons, get?_cons, ih]
    split <;> rfl

theorem get?_filter (p : String → Bool) (d : Dict α) (key : String) :
    get? (d.filter fun e => p e.1) key = if p key then d.get? key else none := by
  induction d with
  | nil => simp
  | cons x d ih =>
    obtain ⟨k, v⟩ := x
    rw [List.filter_cons, get?_cons]
    by_cases hk : k = key
    · subst hk
      by_cases hp : p k = true
      · rw [if_pos hp, get?_cons, if_pos rfl, if_pos rfl, if_pos hp]
      · rw [if_neg hp, ih, if_neg hp, if_neg hp]
    · rw [if_neg hk, ← ih]
      by_cases hp : p k = true
      · rw [if_pos hp, get?_cons, if_neg hk]
      · rw [if_neg hp]

theorem keys_filter (p : String → Bool) (d : Dict α) :
    keys (d.filter fun e => p e.1) = d.keys.filter p := List.filter_map.symm

theorem Distinct.filter {d : Dict α} (hd : d.Distinct) (p : String → Bool) :
    Dict.Distinct (d.filter fun e => p e.1) := by
  rw [Distinct, keys_filter]
  exact List.Pairwise.filter p hd

theorem erase_eq_filter {d : Dict α} (hd : d.Distinct) (k : String) :
    d.erase k = d.filter fun e => e.1 ≠ k := by
  induction d with
  | nil => rfl
  | cons x d ih =>
    obtain ⟨k', v⟩ := x
    obtain ⟨hk, hdistinct⟩ : k' ∉ keys d ∧ Distinct d := List.nodup_cons.1 hd
    by_cases he : k' = k
    · subst he
      have hrest : ∀ e ∈ d, decide (e.1 ≠ k') = true := by
        intro e hm
        have hne : e.1 ≠ k' := fun h => hk (h ▸ List.mem_map_of_mem hm)
        exact decide_eq_true hne
      rw [erase, if_pos rfl, List.filter_cons_of_neg (by simp), List.filter_eq_self.2 hrest]
    · rw [erase, if_neg he, List.filter_cons_of_pos (by simpa using he), ih hdistinct]

end Dict

namespace Value

/-! ## An object over a part of it -/

section Part

variable {fields : Dict Value} {p : String → Bool}

/-- The members that a key decides on, then the others. -/
def partition (p : String → Bool) (fields : Dict Value) : Dict Value :=
  (fields.filter fun e => p e.1) ++ fields.filter fun e => !p e.1

theorem partition_perm (p : String → Bool) (fields : Dict Value) :
    (partition p fields).Perm fields := List.filter_append_perm _ _

theorem partition_true (fields : Dict Value) : partition (fun _ => true) fields = fields := by
  have hall : (fields.filter fun _ => true) = fields := List.filter_eq_self.2 fun _ _ => rfl
  have hnone : (fields.filter fun _ => !true) = [] :=
    List.filter_eq_nil_iff.2 fun _ _ => Bool.false_ne_true
  rw [partition, hall, hnone, List.append_nil]

theorem partition_false (fields : Dict Value) : partition (fun _ => false) fields = fields := by
  have hall : (fields.filter fun _ => !false) = fields := List.filter_eq_self.2 fun _ _ => rfl
  have hnone : (fields.filter fun _ => false) = [] :=
    List.filter_eq_nil_iff.2 fun _ _ => Bool.false_ne_true
  rw [partition, hall, hnone, List.nil_append]

theorem keys_partition (p : String → Bool) (fields : Dict Value) :
    Dict.keys (partition p fields) =
      joinedKeys (Dict.keys (fields.filter fun e => p e.1)) (Dict.keys fields) := by
  have hrest : ((Dict.keys fields).filter fun k => k ∉ (Dict.keys fields).filter p) =
      (Dict.keys fields).filter fun k => !p k := by
    refine List.filter_congr fun k hk => ?_
    simp [hk]
  rw [joinedKeys, Dict.keys_filter, hrest, ← Dict.keys_filter, ← Dict.keys_filter fun k => !p k]
  exact List.map_append

/-- **An object merges over a part of it** and puts the other members behind the part. -/
theorem mergeMembers_part {trail : List String} (hd : Dict.Distinct fields)
    (hself : ∀ key v, Dict.get? fields key = some v → mergeAt (key :: trail) v v = (v, none)) :
    mergeMembers trail (fields.filter fun e => p e.1) fields = (partition p fields, none) := by
  refine (mergeMembers_eq_none_iff (hd.filter p) hd).2 ⟨keys_partition p fields, fun key => ?_⟩
  rw [partition, Dict.get?_append, Dict.get?_filter, Dict.get?_filter fun k => !p k]
  cases hv : Dict.get? fields key with
  | none =>
    rw [ite_self, ite_self]
    exact .kept none
  | some v =>
    cases hp : p key with
    | true =>
      have h := hself key v hv
      exact .merged h
    | false => exact .added v

end Part

/-- **A value merges over itself** and stays as it is. -/
theorem mergeAt_self {trail : List String} {v : Value} (hv : v.Distinct) :
    mergeAt trail v v = (v, none) := by
  induction v using members_induction generalizing trail with | step v ih
  by_cases hobj : v.kind = .object
  · cases v with
    | obj fields =>
      have hself : ∀ key w, Dict.get? fields key = some w →
          mergeAt (key :: trail) w w = (w, none) := by
        intro key w hw
        exact ih key w hw (hv.of_get? hw)
      have hall := mergeMembers_part (p := fun _ => true) (distinct_obj_iff.1 hv).1 hself
      rw [partition_true, List.filter_eq_self.2 fun _ _ => rfl] at hall
      exact mergeAt_eq_none_iff.2 (Or.inl ⟨fields, fields, fields, rfl, rfl, rfl, hall⟩)
    | _ => cases hobj
  · exact mergeAt_eq_none_iff.2 (Or.inr ⟨rfl, Or.inr ⟨rfl, hobj⟩⟩)

theorem merged?_eq_ok_iff {old new r : Value} :
    old.merged? new = .ok r ↔ mergeAt [] old new = (r, none) := by
  refine ⟨merged?_eq_ok, fun h => ?_⟩
  rw [merged?, merge_eq_none_iff.2 h]

theorem merged?_part {fields : Dict Value} (hm : (obj fields).Distinct) (p : String → Bool) :
    (obj (fields.filter fun e => p e.1)).merged? (obj fields) = .ok (obj (partition p fields)) := by
  have hself : ∀ key w, Dict.get? fields key = some w → mergeAt [key] w w = (w, none) :=
    fun key w hw => mergeAt_self (hm.of_get? hw)
  have hmembers := mergeMembers_part (p := p) (distinct_obj_iff.1 hm).1 hself
  exact merged?_eq_ok_iff.2
    (mergeAt_eq_none_iff.2 (Or.inl ⟨_, _, _, rfl, rfl, rfl, hmembers⟩))

theorem merged?_empty {fields : Dict Value} (hm : (obj fields).Distinct) :
    (obj []).merged? (obj fields) = .ok (obj fields) := by
  have h := merged?_part hm fun _ => false
  rwa [partition_false, List.filter_eq_nil_iff.2 fun _ _ => Bool.false_ne_true] at h

theorem merged?_self {v : Value} (hv : v.Distinct) : v.merged? v = .ok v :=
  merged?_eq_ok_iff.2 (mergeAt_self hv)

end Value

/-! ## Declarations -/

/-- A declaration of bases is one name or a list of names. -/
inductive Declares : Value → List String → Prop
  | name (base : String) : Declares (.str base) [base]
  | names (bases : List String) : Declares (.list (bases.map .str)) bases

theorem mapM_baseName (name : String) (bases : List String) :
    (bases.map Value.str).mapM (baseName name) = .ok bases := by
  induction bases with
  | nil => rfl
  | cons base rest ih =>
    rw [List.map_cons, List.mapM_cons, ih]
    rfl

/-- A declaration under the first of the two keys that is there is accepted. -/
theorem declaredBases_of_declares {manifest declaration : Value} {bases : List String}
    (hkey : (manifest.get? "_base").or (manifest.get? "base") = some declaration)
    (hb : Declares declaration bases) (name : String) :
    declaredBases name manifest = .ok bases := by
  have hfirst : baseKeys.findSome? manifest.get? = some declaration := by
    rw [← hkey]
    cases hu : manifest.get? "_base" <;> cases hb : manifest.get? "base" <;> simp [baseKeys, hu, hb]
  rw [declaredBases, hfirst]
  cases hb with
  | name base => rfl
  | names bases => exact mapM_baseName name bases

theorem withoutBases_obj {fields : Dict Value} (hd : Dict.Distinct fields) :
    withoutBases (.obj fields) = .obj (fields.filter fun e => e.1 ∉ baseKeys) := by
  have herase : Dict.erase (Dict.erase fields "_base") "base" =
      fields.filter fun e => e.1 ∉ baseKeys := by
    rw [Dict.erase_eq_filter (Dict.distinct_erase hd _), Dict.erase_eq_filter hd, List.filter_filter]
    refine List.filter_congr fun e _ => ?_
    simp [baseKeys, Bool.and_comm]
  exact congrArg Value.obj herase

/-! ## Loading -/

/-- Bases whose answers merge one after the other are merged while they are loaded. -/
theorem mergeBases_of_mapM {σ : Type} {load : String → EStateM ManifestError σ Value}
    {bases : List String} {answers : List Value} {start r : Value} {s t : σ}
    (hload : bases.mapM load s = .ok answers t)
    (hmerge : (answers.map withoutBases).foldlM Value.merged? start = .ok r) :
    mergeBases load start bases s = .ok r t := by
  induction bases generalizing answers start s with
  | nil =>
    cases hload
    cases hmerge
    rfl
  | cons base rest ih =>
    rw [List.mapM_cons, EStateM.bind_eq_ok] at hload
    obtain ⟨answer, u, hanswer, hload⟩ := hload
    obtain ⟨answers', v, hrest, hload⟩ := EStateM.bind_eq_ok.1 hload
    cases hload
    rw [List.map_cons, List.foldlM_cons, Except.bind_eq_ok] at hmerge
    obtain ⟨merged, hmerged, hmerge⟩ := hmerge
    rw [mergeBases, EStateM.bind_eq_ok]
    refine ⟨answer, u, hanswer, EStateM.bind_eq_ok.2 ⟨merged, u, ?_, ih hrest hmerge⟩⟩
    exact EStateM.ofExcept_eq_ok.2 ⟨hmerged, rfl⟩

theorem length_eq_of_mapM {σ : Type} {load : String → EStateM ManifestError σ Value}
    {bases : List String} {answers : List Value} {s t : σ}
    (h : bases.mapM load s = .ok answers t) : answers.length = bases.length := by
  induction bases generalizing answers s with
  | nil =>
    cases h
    rfl
  | cons base rest ih =>
    rw [List.mapM_cons, EStateM.bind_eq_ok] at h
    obtain ⟨answer, u, -, h⟩ := h
    obtain ⟨answers', v, hrest, h⟩ := EStateM.bind_eq_ok.1 h
    cases h
    rw [List.length_cons, List.length_cons, ih hrest]

theorem foldlM_merged?_replicate {fields : Dict Value} (hm : (Value.obj fields).Distinct) (n : Nat) :
    (List.replicate (n + 1) (Value.obj fields)).foldlM Value.merged? (.obj []) =
      .ok (.obj fields) := by
  have again (n : Nat) : (List.replicate n (Value.obj fields)).foldlM Value.merged? (.obj fields) =
      .ok (.obj fields) := by
    induction n with
    | zero => rfl
    | succ n ih =>
      rw [List.replicate_succ, List.foldlM_cons, Value.merged?_self hm]
      exact ih
  rw [List.replicate_succ, List.foldlM_cons, Value.merged?_empty hm]
  exact again n

/-- **A manifest with itself as base is unchanged.** If the loader answers each of the declared names, one or
more, with the manifest itself, then the manifest merged over its bases has the same members; only those that
declare bases are moved behind the others. -/
theorem inherit_self {σ : Type} (load : String → EStateM ManifestError σ Value) (name : String)
    (fields : Dict Value) (declaration : Value) (bases : List String) (answers : List Value) (s t : σ)
    (hm : (Value.obj fields).Distinct)
    (hkey : (Dict.get? fields "_base").or (Dict.get? fields "base") = some declaration)
    (hdeclares : Declares declaration bases) (hne : bases ≠ [])
    (hload : bases.mapM load s = .ok answers t) (hself : ∀ a ∈ answers, a = .obj fields) :
    ∃ merged : Dict Value, inherit load name (.obj fields) s = .ok (.obj merged) t ∧
      merged = (fields.filter fun e => e.1 ∉ baseKeys) ++ fields.filter (fun e => e.1 ∈ baseKeys) ∧
      merged.Perm fields ∧ ∀ key, Dict.get? merged key = Dict.get? fields key := by
  have hfound : ((Value.obj fields).get? "_base").or ((Value.obj fields).get? "base") =
      some declaration := hkey
  have hbases : declaredBases name (.obj fields) = .ok bases :=
    declaredBases_of_declares hfound hdeclares name
  have hwithout := withoutBases_obj (Value.distinct_obj_iff.1 hm).1
  obtain ⟨n, hn⟩ : ∃ n, bases.length = n + 1 := Nat.exists_eq_succ_of_ne_zero (by simpa using hne)
  have hlayers : answers.map withoutBases =
      List.replicate (n + 1) (.obj (fields.filter fun e => e.1 ∉ baseKeys)) := by
    rw [List.eq_replicate_of_mem hself, length_eq_of_mapM hload, hn, List.map_replicate, hwithout]
  have hmerged : mergeBases load (.obj []) bases s =
      .ok (.obj (fields.filter fun e => e.1 ∉ baseKeys)) t := by
    refine mergeBases_of_mapM hload ?_
    rw [hlayers]
    exact foldlM_merged?_replicate (hwithout ▸ distinct_withoutBases hm) n
  have hlast := Value.merged?_part hm fun k => decide (k ∉ baseKeys)
  refine ⟨_, ?_, ?_, Value.partition_perm (fun k => decide (k ∉ baseKeys)) fields, fun key => ?_⟩
  · rw [inherit, EStateM.bind_eq_ok]
    refine ⟨bases, s, EStateM.ofExcept_eq_ok.2 ⟨hbases, rfl⟩, ?_⟩
    rw [if_neg (by simpa using hne), EStateM.bind_eq_ok]
    exact ⟨_, t, hmerged, EStateM.ofExcept_eq_ok.2 ⟨hlast, rfl⟩⟩
  · simp [Value.partition]
  · rw [Value.partition, Dict.get?_append, Dict.get?_filter fun k => decide (k ∉ baseKeys),
      Dict.get?_filter fun k => !decide (k ∉ baseKeys)]
    by_cases hk : key ∈ baseKeys <;> simp [hk]

/-- A board that names itself twice, and has a second declaration that does not count. -/
def selfBoard : Dict Value :=
  [("_base", .list [.str "self", .str "self"]), ("url", .null), ("base", .str "other"),
    ("upload", .obj [("size", .null), ("files", .list [.null, .str "a"])])]

/-- Answers any name with the board, and keeps a record of the names. -/
def loadSelfBoard (base : String) : EStateM ManifestError (List String) Value := fun asked =>
  .ok (.obj selfBoard) (asked ++ [base])

theorem inherit_self_selfBoard :
    (Value.obj selfBoard).Distinct ∧
      ∃ merged, inherit loadSelfBoard "self" (.obj selfBoard) [] =
          .ok (.obj merged) ["self", "self"] ∧
        merged = [("url", .null), ("upload", .obj [("size", .null),
          ("files", .list [.null, .str "a"])]), ("_base", .list [.str "self", .str "self"]),
          ("base", .str "other")] ∧
        merged.Perm selfBoard := by
  have hm : (Value.obj selfBoard).Distinct := by
    simp [selfBoard, Value.Distinct, Value.DistinctItems, Value.DistinctMembers, Dict.Distinct,
      Dict.keys]
  obtain ⟨merged, hmerged, hparts, hperm, -⟩ := inherit_self loadSelfBoard "self" selfBoard _
    ["self", "self"] [.obj selfBoard, .obj selfBoard] [] ["self", "self"] hm rfl
    (.names ["self", "self"]) (by simp) rfl (by simp)
  exact ⟨hm, merged, hmerged, hparts, hperm⟩

end BoardAtlas
