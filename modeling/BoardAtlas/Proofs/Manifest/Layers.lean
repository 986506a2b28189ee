import BoardAtlas.Manifest.Inherit
import BoardAtlas.Manifest.Path
import BoardAtlas.Proofs.Manifest.Distinct
import BoardAtlas.Proofs.Result

/-!
# Layers of a manifest

A manifest over its bases is a stack of layers. Along every path of keys the last layer with a value there
decides: a value that is no object is taken as it is, and over an object there is an object.

* `MergedMember`, `get?_mergeMembers`: what a merge does to one key;
* `Settles`, `settles_mergeAt`: what a merge does to a path;
* `lastAt?`, `settles_foldlM`: the same for any number of layers;
* `mergeBases_eq_ok`: loading bases one by one and merging them is loading all, then merging all;
* **`inherit_precedence`**: a manifest over its bases, path by path.
-/

namespace BoardAtlas

namespace Value

/-! ## One merge -/

/-- What a successful merge leaves at one key, from what was there before and what is merged over it. -/
inductive MergedMember (trail : List String) : Option Value → Option Value → Option Value → Prop
  | kept (old : Option Value) : MergedMember trail old none old
  | added (new : Value) : MergedMember trail none (some new) (some new)
  | merged {old new m : Value} (h : mergeAt trail old new = (m, none)) :
    MergedMember trail (some old) (some new) (some m)

theorem mergeMembers_cons {trail : List String} {fields rest merged : Dict Value} {k : String}
    {w : Value} (h : mergeMembers trail fields ((k, w) :: rest) = (merged, none)) :
    ∃ v, MergedMember (k :: trail) (Dict.get? fields k) (some w) (some v) ∧
      mergeMembers trail (Dict.insert fields k v) rest = (merged, none) := by
  rw [mergeMembers] at h
  cases hf : Dict.get? fields k with
  | none =>
    rw [hf] at h
    exact ⟨w, .added w, h⟩
  | some old =>
    rw [hf] at h
    rcases hm : mergeAt (k :: trail) old w with ⟨m, _ | c⟩
    · simp only [hm] at h
      exact ⟨m, .merged hm, h⟩
    · simp [hm] at h

/-- **A merge of members, key by key.** -/
theorem get?_mergeMembers {trail : List String} {fields new merged : Dict Value}
    (hd : Dict.Distinct new) (h : mergeMembers trail fields new = (merged, none)) (key : String) :
    MergedMember (key :: trail) (Dict.get? fields key) (Dict.get? new key)
      (Dict.get? merged key) := by
  induction new generalizing fields with
  | nil =>
    simp only [mergeMembers, Prod.mk.injEq, and_true] at h
    exact h ▸ .kept _
  | cons e rest ih =>
    obtain ⟨k, w⟩ := e
    obtain ⟨hk, hrest⟩ : k ∉ Dict.keys rest ∧ Dict.Distinct rest := List.nodup_cons.1 hd
    obtain ⟨v, hv, hm⟩ := mergeMembers_cons h
    have hr := ih hrest hm
    rw [Dict.get?_insert] at hr
    rw [Dict.get?_cons]
    by_cases e : k = key
    · -- The other members have other keys, so they keep what `k` got.
      subst e
      rw [if_pos rfl, Dict.get?_eq_none hk] at hr
      rw [if_pos rfl]
      generalize Dict.get? merged k = r at hr
      cases hr
      exact hv
    · rw [if_neg e] at hr ⊢
      exact hr

/-- **A successful merge** merges the members of two objects, or else puts the new value in the place of one
without members. -/
theorem mergeAt_eq_none {trail : List String} {old new r : Value}
    (h : mergeAt trail old new = (r, none)) :
    (∃ fields members merged, old = .obj fields ∧ new = .obj members ∧ r = .obj merged ∧
      mergeMembers trail fields members = (merged, none)) ∨ (r = new ∧ old.members? = none) := by
  have put (hr : replace trail old new = (r, none))
      (hk : ¬ (old.kind = .object ∧ new.kind = .object)) : r = new ∧ old.members? = none := by
    unfold replace at hr
    split at hr
    · next hc =>
      refine ⟨(Prod.mk.inj hr).1.symm, members?_eq_none fun ho => ?_⟩
      rcases hc with hn | he
      · rw [hn] at ho
        cases ho
      · exact hk ⟨ho, he ▸ ho⟩
    · cases hr
  cases new with
  | obj members =>
    cases old with
    | obj fields =>
      rcases hm : mergeMembers trail fields members with ⟨merged, c⟩
      simp only [mergeAt, hm, Prod.mk.injEq] at h
      obtain ⟨rfl, rfl⟩ := h
      exact Or.inl ⟨fields, members, merged, rfl, rfl, rfl, hm⟩
    | _ => exact Or.inr (put h (by simp [kind]))
  | _ => exact Or.inr (put (by simpa only [mergeAt] using h) (by simp [kind]))

/-! ## Paths -/

/-- What is found along a path where the last layer with a value there has `top`: that value, but of an
object only that there is one. -/
def Settles (top found : Option Value) : Prop :=
  match top with
  | none => found = none
  | some w =>
    if w.kind = .object then ∃ fields, found = some (.obj fields) else found = some w

theorem settles_self (x : Option Value) : Settles x x := by
  cases x with
  | none => rfl
  | some w => cases w <;> simp [Settles, kind]

theorem Settles.isSome_iff {top found : Option Value} (h : Settles top found) :
    found.isSome ↔ top.isSome := by
  cases top with
  | none => rw [show found = none from h]
  | some w =>
    simp only [Settles] at h
    split at h
    · obtain ⟨fields, rfl⟩ := h
      simp
    · simp [h]

theorem Settles.trans {x y z : Option Value} (hxy : Settles x y) (hyz : Settles y z) :
    Settles x z := by
  cases x with
  | none =>
    cases hxy
    exact hyz
  | some w =>
    simp only [Settles] at hxy ⊢
    split at hxy
    · next hk =>
      obtain ⟨fields, rfl⟩ := hxy
      rwa [if_pos hk]
    · next hk =>
      cases hxy
      rw [if_neg hk]
      simpa only [Settles, if_neg hk] using hyz

@[simp] theorem at?_nil (v : Value) : v.at? [] = some v := by
  cases v <;> rfl

theorem at?_cons (v : Value) (key : String) (path : List String) :
    v.at? (key :: path) = (v.get? key).bind fun child => child.at? path := by
  cases v <;> rfl

/-- **One merge, path by path**: the new layer decides where it has a value, and elsewhere the old one. -/
theorem settles_mergeAt {trail : List String} {old new r : Value} (hd : new.Distinct)
    (h : mergeAt trail old new = (r, none)) (path : List String) :
    Settles ((new.at? path).or (old.at? path)) (r.at? path) := by
  induction path generalizing trail old new r with
  | nil =>
    rcases mergeAt_eq_none h with ⟨_, _, merged, rfl, rfl, rfl, -⟩ | ⟨rfl, -⟩
    · exact ⟨merged, rfl⟩
    · simpa using settles_self (some r)
  | cons key path ih =>
    rcases mergeAt_eq_none h with ⟨fields, members, merged, rfl, rfl, rfl, hm⟩ | ⟨rfl, ho⟩
    · have hk := get?_mergeMembers (distinct_obj_iff.1 hd).1 hm key
      simp only [at?_cons, get?, members?, Option.bind_some]
      cases hn : Dict.get? members key with
      | none =>
        rw [hn] at hk
        generalize Dict.get? fields key = o, Dict.get? merged key = m at hk
        cases hk
        simpa using settles_self _
      | some w =>
        rw [hn] at hk
        generalize Dict.get? fields key = o, Dict.get? merged key = m at hk
        cases hk with
        | added => simpa using settles_self _
        | merged hc => exact ih (hd.of_get? hn) hc
    · simpa only [at?_cons, get?, ho, Option.bind_none, Option.or_none] using settles_self _

/-! ## Any number of layers -/

/-- The value along a path in the last of the layers that has one there. -/
def lastAt? : List Value → List String → Option Value
  | [], _ => none
  | v :: rest, path => (lastAt? rest path).or (v.at? path)

theorem isSome_lastAt? (layers : List Value) (path : List String) :
    (lastAt? layers path).isSome ↔ ∃ layer ∈ layers, (layer.at? path).isSome := by
  induction layers with
  | nil => simp [lastAt?]
  | cons v rest ih => simp [lastAt?, Option.isSome_or, ih, or_comm]

theorem lastAt?_append {below above : List Value} {layer : Value} {path : List String}
    (h : ∀ v ∈ above, v.at? path = none) :
    lastAt? (below ++ layer :: above) path = (layer.at? path).or (lastAt? below path) := by
  have habove : lastAt? above path = none := by
    rw [← Option.not_isSome_iff_eq_none, isSome_lastAt?]
    rintro ⟨v, hv, hs⟩
    simp [h v hv] at hs
  induction below with
  | nil => simp [lastAt?, habove]
  | cons v rest ih => simp [lastAt?, ih, Option.or_assoc]

theorem Settles.or {x y : Option Value} (h : Settles x y) (top : Option Value) :
    Settles (top.or x) (top.or y) := by
  cases top with
  | none => simpa using h
  | some w => simpa using settles_self (some w)

theorem merged?_eq_ok {old new r : Value} (h : old.merged? new = .ok r) :
    mergeAt [] old new = (r, none) := by
  unfold merged? merge at h
  rcases hm : mergeAt [] old new with ⟨m, _ | c⟩
  · simp only [hm, Option.map_none, Except.ok.injEq] at h
    rw [h]
  · simp [hm] at h

/-- **Merges of any number of layers, path by path.** -/
theorem settles_foldlM {layers : List Value} {start r : Value} (hd : ∀ v ∈ layers, v.Distinct)
    (h : layers.foldlM merged? start = .ok r) (path : List String) :
    Settles (lastAt? (start :: layers) path) (r.at? path) := by
  induction layers generalizing start with
  | nil =>
    cases h
    simpa [lastAt?] using settles_self (r.at? path)
  | cons layer rest ih =>
    rw [List.foldlM_cons] at h
    cases hm : start.merged? layer with
    | error e =>
      rw [hm] at h
      cases h
    | ok m =>
      rw [hm] at h
      have first := settles_mergeAt (hd layer List.mem_cons_self) (merged?_eq_ok hm) path
      have others := ih (fun v hv => hd v (List.mem_cons_of_mem _ hv)) h
      simp only [lastAt?] at others ⊢
      rw [Option.or_assoc]
      exact (first.or _).trans others

end Value

/-! ## Loading -/

/-- Merging the bases while they are loaded is loading them in order and merging them afterwards. -/
theorem mergeBases_eq_ok {σ : Type} {load : String → EStateM ManifestError σ Value}
    {bases : List String} {start r : Value} {s t : σ}
    (h : mergeBases load start bases s = .ok r t) :
    ∃ answers, bases.mapM load s = .ok answers t ∧
      (answers.map withoutBases).foldlM Value.merged? start = .ok r := by
  induction bases generalizing start s with
  | nil =>
    cases h
    exact ⟨[], rfl, rfl⟩
  | cons base rest ih =>
    rw [mergeBases, EStateM.bind_eq_ok] at h
    obtain ⟨answer, u, hload, h⟩ := h
    obtain ⟨merged, v, hmerge, h⟩ := EStateM.bind_eq_ok.1 h
    obtain ⟨hmerged, rfl⟩ := EStateM.ofExcept_eq_ok.1 hmerge
    obtain ⟨answers, hanswers, hfold⟩ := ih h
    refine ⟨answer :: answers, ?_, ?_⟩
    · rw [List.mapM_cons, EStateM.bind_eq_ok]
      exact ⟨answer, u, hload, EStateM.bind_eq_ok.2 ⟨answers, t, hanswers, rfl⟩⟩
    · rw [List.map_cons, List.foldlM_cons, hmerged]
      exact hfold

theorem distinct_withoutBases {v : Value} (h : v.Distinct) : (withoutBases v).Distinct := by
  cases v with
  | obj fields =>
    rw [Value.distinct_obj_iff] at h
    refine Value.distinct_obj_iff.2 ⟨?_, fun e he => h.2 e ?_⟩
    · exact Dict.distinct_erase (Dict.distinct_erase h.1 _) _
    · exact ((Dict.erase_sublist _ _).trans (Dict.erase_sublist fields _)).subset he
  | _ => exact h

theorem get?_withoutBases {v : Value} (h : v.Distinct) (key : String) :
    (withoutBases v).get? key = if key ∈ baseKeys then none else v.get? key := by
  cases v with
  | obj fields =>
    have hd := (Value.distinct_obj_iff.1 h).1
    change Dict.get? (Dict.erase (Dict.erase fields "_base") "base") key = _
    rw [Dict.get?_erase _ _ _ (Dict.distinct_erase hd _), Dict.get?_erase _ _ _ hd]
    simp only [baseKeys, List.mem_cons, List.not_mem_nil, or_false, eq_comm (a := key)]
    by_cases hu : "_base" = key <;> by_cases hb : "base" = key <;>
      simp [hu, hb, Value.get?, Value.members?]
  | _ => simp [withoutBases, Value.get?, Value.members?]

theorem merged?_null (v : Value) : Value.null.merged? v = .ok v := by
  cases v <;> rfl

theorem inherit_eq_ok {σ : Type} {load : String → EStateM ManifestError σ Value} {name : String}
    {manifest r : Value} {s t : σ} (h : inherit load name manifest s = .ok r t) :
    ∃ bases answers start, declaredBases name manifest = .ok bases ∧
      bases.mapM load s = .ok answers t ∧ (∀ key path, Value.at? start (key :: path) = none) ∧
      (answers.map withoutBases ++ [manifest]).foldlM Value.merged? start = .ok r := by
  rw [inherit, EStateM.bind_eq_ok] at h
  obtain ⟨bases, u, hb, h⟩ := h
  obtain ⟨hbases, rfl⟩ := EStateM.ofExcept_eq_ok.1 hb
  refine ⟨bases, ?_⟩
  cases bases with
  | nil =>
    cases h
    refine ⟨[], .null, hbases, rfl, fun _ _ => rfl, ?_⟩
    rw [List.map_nil, List.nil_append, List.foldlM_cons, merged?_null]
    rfl
  | cons base rest =>
    obtain ⟨merged, u, hm, h⟩ := EStateM.bind_eq_ok.1 h
    obtain ⟨hr, rfl⟩ := EStateM.ofExcept_eq_ok.1 h
    obtain ⟨answers, hanswers, hfold⟩ := mergeBases_eq_ok hm
    refine ⟨answers, .obj [], hbases, hanswers, fun _ _ => rfl, ?_⟩
    rw [List.foldlM_append, hfold]
    change (List.foldlM Value.merged? merged [manifest] : Except ManifestError Value) = _
    rw [List.foldlM_cons, hr]
    rfl

/-- **Precedence of layers.** A manifest merged over its bases has along a path the value of the last layer that has
one there, unless this is an object, and then an object. The loader is asked for the declared names alone, one after
the other. -/
theorem inherit_precedence {σ : Type} (load : String → EStateM ManifestError σ Value)
    (name : String) (manifest r : Value) (s t : σ)
    (hload : ∀ base u answer u', load base u = .ok answer u' → answer.Distinct)
    (hm : manifest.Distinct) (h : inherit load name manifest s = .ok r t) :
    ∃ bases answers, declaredBases name manifest = .ok bases ∧
      bases.mapM load s = .ok answers t ∧
      (∀ answer ∈ answers, ∀ key,
        (withoutBases answer).get? key = if key ∈ baseKeys then none else answer.get? key) ∧
      ∀ path,
        ((r.at? path).isSome ↔
          ∃ layer ∈ answers.map withoutBases ++ [manifest], (layer.at? path).isSome) ∧
        (∀ below layer above w, answers.map withoutBases ++ [manifest] = below ++ layer :: above →
          layer.at? path = some w → (∀ v ∈ above, v.at? path = none) →
          if w.kind = .object then ∃ fields, r.at? path = some (.obj fields)
          else r.at? path = some w) ∧
        ∀ w, manifest.at? path = some w → w.kind ≠ .object → r.at? path = some w := by
  obtain ⟨bases, answers, start, hbases, hanswers, hstart, hfold⟩ := inherit_eq_ok h
  have hd : ∀ answer ∈ answers, answer.Distinct := EStateM.forall_mem_of_mapM hload hanswers
  refine ⟨bases, answers, hbases, hanswers, fun a ha key => get?_withoutBases (hd a ha) key,
    fun path => ?_⟩
  have hlayers : ∀ v ∈ answers.map withoutBases ++ [manifest], v.Distinct := by
    simp only [List.mem_append, List.mem_map, List.mem_singleton]
    rintro v (⟨a, ha, rfl⟩ | rfl)
    · exact distinct_withoutBases (hd a ha)
    · exact hm
  -- The accumulator starts without members, and the manifest hides it at the empty path.
  have hsettles : Value.Settles (Value.lastAt? (answers.map withoutBases ++ [manifest]) path)
      (r.at? path) := by
    have hall := Value.settles_foldlM hlayers hfold path
    rw [Value.lastAt?] at hall
    cases path with
    | nil =>
      rw [Value.lastAt?_append (by simp)] at hall ⊢
      simpa using hall
    | cons key rest => simpa [hstart] using hall
  have hlast : ∀ below layer above w, answers.map withoutBases ++ [manifest] =
      below ++ layer :: above → layer.at? path = some w → (∀ v ∈ above, v.at? path = none) →
      if w.kind = .object then ∃ fields, r.at? path = some (.obj fields)
      else r.at? path = some w := by
    intro below layer above w he hw habove
    rw [he, Value.lastAt?_append habove, hw] at hsettles
    exact hsettles
  refine ⟨?_, hlast, fun w hw hk => ?_⟩
  · rw [← Value.isSome_lastAt?]
    exact hsettles.isSome_iff
  · simpa only [if_neg hk] using hlast (answers.map withoutBases) manifest [] w rfl hw (by simp)

/-- A board that names two bases and has one field of an object that both have. -/
def layeredBoard : Value :=
  .obj [("_base", .list [.str "family", .str "chip"]),
    ("upload", .obj [("maximum", .str "900000")])]

/-- Its bases, which name a base themselves, with a record of what has been asked for. -/
def layeredBase (base : String) : EStateM ManifestError (List String) Value := fun asked =>
  .ok (.obj [("_base", .str "deeper"), ("upload", .obj [("size", .str base), ("maximum", .null)])])
    (asked ++ [base])

theorem inherit_precedence_layeredBoard :
    (∀ base u answer u', layeredBase base u = .ok answer u' → answer.Distinct) ∧
      layeredBoard.Distinct ∧
      ∃ r, inherit layeredBase "board" layeredBoard [] = .ok r ["family", "chip"] ∧
        r.at? ["upload", "size"] = some (.str "chip") ∧
        r.at? ["upload", "maximum"] = some (.str "900000") := by
  have hload : ∀ base u answer u', layeredBase base u = .ok answer u' → answer.Distinct := by
    rintro base u _ _ ⟨⟩
    simp [Value.Distinct, Value.DistinctMembers, Dict.Distinct, Dict.keys]
  have hm : layeredBoard.Distinct := by
    simp [layeredBoard, Value.Distinct, Value.DistinctItems, Value.DistinctMembers, Dict.Distinct,
      Dict.keys]
  refine ⟨hload, hm, _, rfl, ?_⟩
  obtain ⟨bases, answers, hbases, hanswers, -, hpath⟩ :=
    inherit_precedence layeredBase "board" layeredBoard _ [] ["family", "chip"] hload hm rfl
  cases hbases
  cases hanswers
  refine ⟨?_, (hpath _).2.2 _ rfl (by decide)⟩
  refine (hpath ["upload", "size"]).2.1 [_] _ [layeredBoard] _ rfl rfl fun v hv => ?_
  rw [List.mem_singleton.1 hv]
  rfl

end BoardAtlas
