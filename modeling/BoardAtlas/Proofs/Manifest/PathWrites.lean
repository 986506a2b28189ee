import BoardAtlas.Manifest.Path
import BoardAtlas.Proofs.Manifest.Layers

/-!
# Writes at paths

A write at a path goes down through objects, makes those that are missing and puts one value in its place. It
stops only where there is a value that is no object, and then nothing has been made yet: below an object that is
made nothing can be in the way. So a write that fails leaves the value as it was, and one that succeeds obeys the
laws of a lens.

* `segments_dotted`, `segments_doubled`: empty segments do not count;
* `put_cons_eq_none_iff`, **`put_eq_some_iff`**: one step of a write, and writes that fail;
* `at?_put_self`, `at?_put_of_apart`, `put_put`, `keys_at?_put`: what a write leaves;
* **`setPath_eq_some_iff`**: writes at dotted paths that fail;
* **`setPath_lens`**: the laws of those that succeed.
-/

namespace BoardAtlas

/-! ## Keys -/

namespace Dict

variable {α : Type}

theorem insert_insert (d : Dict α) (k : String) (v w : α) : (d.insert k v).insert k w = d.insert k w := by
  induction d with
  | nil => simp [insert]
  | cons e d ih =>
    obtain ⟨k', v'⟩ := e
    by_cases h : k' = k <;> simp [insert, h, ih]

theorem keys_insert_of_get? {d : Dict α} {k : String} {v : α} (h : d.get? k = some v) (w : α) :
    (d.insert k w).keys = d.keys := by
  rw [keys_insert, if_pos]
  exact List.mem_map_of_mem (mem_of_get? h)

end Dict

/-! ## Segments -/

theorem segments_dotted (a b : String) : segments (a ++ "." ++ b) = segments a ++ segments b := by
  have hpieces : Text.piecesOf '.' (a ++ "." ++ b) = Text.piecesOf '.' a ++ Text.piecesOf '.' b :=
    Text.piecesOf_separated '.' a b
  rw [segments, hpieces, List.filter_append]
  rfl

theorem segments_empty : segments "" = [] := rfl

theorem segments_dot_append (a : String) : segments ("." ++ a) = segments a := by
  have h := segments_dotted "" a
  rwa [String.empty_append, segments_empty, List.nil_append] at h

theorem segments_append_dot (a : String) : segments (a ++ ".") = segments a := by
  have h := segments_dotted a ""
  rwa [String.append_empty, segments_empty, List.append_nil] at h

theorem segments_doubled (a b : String) : segments (a ++ ".." ++ b) = segments (a ++ "." ++ b) := by
  have htext : a ++ ".." ++ b = a ++ "." ++ ("" ++ "." ++ b) := by simp [String.ext_iff]
  rw [htext, segments_dotted, segments_dotted, segments_dotted, segments_empty, List.nil_append]

namespace Value

variable {v v' new : Value} {key : String} {keys : List String}

/-! ## One step -/

theorem at?_obj_cons (fields : Dict Value) (key : String) (keys : List String) :
    (obj fields).at? (key :: keys) = (fields.get? key).bind fun child => child.at? keys := rfl

theorem at?_cons_of_ne_object (h : v.kind ≠ .object) (key : String) (keys : List String) :
    v.at? (key :: keys) = none := by
  rw [at?_cons, get?, members?_eq_none h]
  rfl

theorem put_obj_cons (new : Value) (key : String) (keys : List String) (fields : Dict Value) :
    put new (key :: keys) (obj fields) =
      (obj (fields.insert key (put new keys ((fields.get? key).getD (obj []))).1),
        (put new keys ((fields.get? key).getD (obj []))).2) := rfl

theorem put_cons_of_ne_object (h : v.kind ≠ .object) (new : Value) (key : String) (keys : List String) :
    put new (key :: keys) v = (v, some key) := by
  cases v with
  | obj fields => exact absurd rfl h
  | _ => rfl

theorem eq_obj_of_kind (h : v.kind = .object) : ∃ fields : Dict Value, v = obj fields := by
  cases v with
  | obj fields => exact ⟨fields, rfl⟩
  | _ => cases h

theorem put_cons_eq_none_iff :
    put new (key :: keys) v = (v', none) ↔ ∃ (fields : Dict Value) (child : Value), v = obj fields ∧
      v' = obj (fields.insert key child) ∧ put new keys ((fields.get? key).getD (obj [])) = (child, none) := by
  constructor
  · intro h
    by_cases hobj : v.kind = .object
    · obtain ⟨fields, rfl⟩ := eq_obj_of_kind hobj
      rw [put_obj_cons, Prod.mk.injEq] at h
      exact ⟨fields, _, rfl, h.1.symm, Prod.ext rfl h.2⟩
    · rw [put_cons_of_ne_object hobj] at h
      cases h
  · rintro ⟨fields, child, rfl, rfl, h⟩
    rw [put_obj_cons, h]

/-! ## Writes that fail -/

theorem exists_get?_of_blocked {fields : Dict Value} {before : List String} {w : Value}
    (hw : ((fields.get? key).getD (obj [])).at? before = some w) (hk : w.kind ≠ .object) :
    ∃ child, fields.get? key = some child ∧ child.at? before = some w := by
  cases hget : fields.get? key with
  | some child =>
    rw [hget] at hw
    exact ⟨child, rfl, hw⟩
  | none =>
    rw [hget] at hw
    cases before with
    | nil =>
      cases hw
      exact absurd rfl hk
    | cons k before => cases hw

/-- **A write fails** where keys lead to a value that is no object and go on, and leaves the value as it was. -/
theorem put_eq_some_iff {state : Value} {blocked : String} :
    put new keys v = (state, some blocked) ↔ state = v ∧ ∃ before after w, keys = before ++ blocked :: after ∧
      v.at? before = some w ∧ w.kind ≠ .object := by
  induction keys generalizing v state with
  | nil => simp [put]
  | cons key keys ih =>
    by_cases hobj : v.kind = .object
    · obtain ⟨fields, rfl⟩ := eq_obj_of_kind hobj
      rw [put_obj_cons]
      constructor
      · intro h
        rcases hput : put new keys ((fields.get? key).getD (obj [])) with ⟨child, failed⟩
        rw [hput] at h
        obtain ⟨rfl, rfl⟩ := Prod.mk.inj h
        obtain ⟨hsame, before, after, w, hkeys, hw, hk⟩ := ih.1 hput
        obtain ⟨old, hget, hold⟩ := exists_get?_of_blocked hw hk
        rw [hget, Option.getD_some] at hsame
        refine ⟨?_, key :: before, after, w, by rw [hkeys, List.cons_append], ?_, hk⟩
        · rw [hsame, Dict.insert_eq_self hget]
        · rw [at?_obj_cons, hget, Option.bind_some, hold]
      · rintro ⟨rfl, before, after, w, hkeys, hw, hk⟩
        cases before with
        | nil =>
          cases hw
          exact absurd rfl hk
        | cons k before =>
          obtain ⟨rfl, htail⟩ := List.cons.inj hkeys
          rw [at?_obj_cons] at hw
          obtain ⟨child, hget, hw⟩ := Option.bind_eq_some_iff.1 hw
          rw [hget, Option.getD_some, ih.2 ⟨rfl, before, after, w, htail, hw, hk⟩, Dict.insert_eq_self hget]
    · rw [put_cons_of_ne_object hobj]
      constructor
      · rintro ⟨⟩
        exact ⟨rfl, [], keys, v, rfl, at?_nil v, hobj⟩
      · rintro ⟨rfl, before, after, w, hkeys, hw, -⟩
        cases before with
        | nil =>
          cases hkeys
          rfl
        | cons k before =>
          rw [at?_cons_of_ne_object hobj] at hw
          cases hw

theorem put_snd_eq (x y : Value) (keys : List String) (v : Value) : (put x keys v).2 = (put y keys v).2 := by
  rw [Option.ext_iff]
  intro blocked
  have hstate {x : Value} : (put x keys v).2 = some blocked ↔ put x keys v = (v, some blocked) := by
    constructor
    · intro h
      exact Prod.ext (put_eq_some_iff.1 (Prod.ext rfl h)).1 h
    · intro h
      rw [h]
  rw [hstate, hstate, put_eq_some_iff, put_eq_some_iff]

/-! ## Writes that succeed -/

theorem at?_put_self (h : put new keys v = (v', none)) : v'.at? keys = some new := by
  induction keys generalizing v v' with
  | nil =>
    cases h
    exact at?_nil new
  | cons key keys ih =>
    obtain ⟨fields, child, rfl, rfl, hchild⟩ := put_cons_eq_none_iff.1 h
    rw [at?_obj_cons, Dict.get?_insert, if_pos rfl]
    exact ih hchild

/-- What is found neither above nor below the place of a write is as it was. -/
theorem at?_put_of_apart {path : List String} (h : put new keys v = (v', none)) (hk : ¬ keys <+: path)
    (hp : ¬ path <+: keys) : v'.at? path = v.at? path := by
  induction keys generalizing v v' path with
  | nil => exact absurd List.nil_prefix hk
  | cons key keys ih =>
    cases path with
    | nil => exact absurd List.nil_prefix hp
    | cons key' path =>
      obtain ⟨fields, child, rfl, rfl, hchild⟩ := put_cons_eq_none_iff.1 h
      rw [at?_obj_cons, at?_obj_cons, Dict.get?_insert]
      by_cases he : key = key'
      · subst he
        rw [List.cons_prefix_cons, not_and] at hk hp
        rw [if_pos rfl, Option.bind_some, ih hchild (hk rfl) (hp rfl)]
        cases hget : fields.get? key with
        | some old => rfl
        | none =>
          cases path with
          | nil => exact absurd List.nil_prefix (hp rfl)
          | cons k path => rfl
      · rw [if_neg he]

theorem put_put (h : put new keys v = (v', none)) (y : Value) : put y keys v' = put y keys v := by
  induction keys generalizing v v' with
  | nil => rfl
  | cons key keys ih =>
    obtain ⟨fields, child, rfl, rfl, hchild⟩ := put_cons_eq_none_iff.1 h
    have hget : ((fields.insert key child).get? key).getD (obj []) = child := by
      rw [Dict.get?_insert, if_pos rfl, Option.getD_some]
    rw [put_obj_cons, put_obj_cons, hget, ih hchild, Dict.insert_insert]

/-- Where there was a value, the objects above it keep the order of their keys. -/
theorem keys_at?_put {before after : List String} {fields : Dict Value}
    (h : put new (before ++ key :: after) v = (v', none)) (hsome : (v.at? (before ++ key :: after)).isSome)
    (hv : v.at? before = some (obj fields)) :
    ∃ fields' : Dict Value, v'.at? before = some (obj fields') ∧ fields'.keys = fields.keys := by
  induction before generalizing v v' with
  | nil =>
    obtain ⟨_, child, rfl, rfl, -⟩ := put_cons_eq_none_iff.1 h
    cases hv
    rw [List.nil_append, at?_obj_cons] at hsome
    obtain ⟨w, hw⟩ := Option.isSome_iff_exists.1 hsome
    obtain ⟨old, hget, -⟩ := Option.bind_eq_some_iff.1 hw
    exact ⟨_, at?_nil _, Dict.keys_insert_of_get? hget child⟩
  | cons k before ih =>
    obtain ⟨members, child, rfl, rfl, hchild⟩ := put_cons_eq_none_iff.1 h
    rw [at?_obj_cons] at hv
    obtain ⟨old, hget, hold⟩ := Option.bind_eq_some_iff.1 hv
    rw [hget, Option.getD_some] at hchild
    rw [List.cons_append, at?_obj_cons, hget] at hsome
    obtain ⟨fields', hfields', hkeys⟩ := ih hchild hsome hold
    refine ⟨fields', ?_, hkeys⟩
    rw [at?_obj_cons, Dict.get?_insert, if_pos rfl]
    exact hfields'

/-! ## Dotted paths -/

theorem setPath_eq_none_iff {path : String} :
    v.setPath path new = (v', none) ↔ put new (segments path) v = (v', none) := by
  rw [setPath]
  rcases put new (segments path) v with ⟨state, _ | blocked⟩ <;> simp

/-- **A write that fails changes nothing.** It fails exactly when a part of the path that other keys follow leads
to a value that is no object; the error names the key that follows, and the value is as it was. -/
theorem setPath_eq_some_iff (v new : Value) (path : String) (state : Value) (e : ManifestError) :
    v.setPath path new = (state, some e) ↔
      state = v ∧ ∃ before key after w, segments path = before ++ key :: after ∧
        v.at? before = some w ∧ w.kind ≠ .object ∧ e = .invalidPath path key := by
  rw [setPath]
  rcases hput : put new (segments path) v with ⟨written, _ | blocked⟩
  · constructor
    · intro h
      cases h
    · rintro ⟨-, before, key, after, w, hkeys, hw, hk, -⟩
      have hfails : put new (segments path) v = (v, some key) :=
        put_eq_some_iff.2 ⟨rfl, before, after, w, hkeys, hw, hk⟩
      rw [hput] at hfails
      cases hfails
  · constructor
    · intro h
      cases h
      obtain ⟨hsame, before, after, w, hkeys, hw, hk⟩ := put_eq_some_iff.1 hput
      exact ⟨hsame, before, blocked, after, w, hkeys, hw, hk, rfl⟩
    · rintro ⟨rfl, before, key, after, w, hkeys, hw, hk, rfl⟩
      have hfails : put new (segments path) state = (state, some key) :=
        put_eq_some_iff.2 ⟨rfl, before, after, w, hkeys, hw, hk⟩
      rw [hput] at hfails
      cases hfails
      rfl

/-- No parent is left behind by a write that fails at its last step. -/
example :
    (obj [("upload", .obj [("size", .str "4")])]).setPath "upload.size.unit" null =
      (obj [("upload", .obj [("size", .str "4")])], some (.invalidPath "upload.size.unit" "unit")) := by
  cbv

/-- **The laws of a lens.** A value that is written is found, what is neither above nor below it stays, and a second
write at the path counts alone. Empty segments of a path do not count. -/
theorem setPath_lens (v v' new : Value) (path : String) (h : v.setPath path new = (v', none)) :
    v'.getPath? path = some new ∧
    (∀ other, ¬ segments path <+: segments other → ¬ segments other <+: segments path →
      v'.getPath? other = v.getPath? other) ∧
    (∀ y, v'.setPath path y = v.setPath path y ∧ (v.setPath path y).2 = none) ∧
    ((v.getPath? path).isSome → ∀ before key after fields, segments path = before ++ key :: after →
      v.at? before = some (.obj fields) →
      ∃ fields', v'.at? before = some (.obj fields') ∧ Dict.keys fields' = Dict.keys fields) ∧
    (∀ a b, segments ("." ++ a) = segments a ∧ segments (a ++ ".") = segments a ∧
      segments (a ++ ".." ++ b) = segments (a ++ "." ++ b)) ∧
    ∀ path', segments path' = segments path →
      v.setPath path' new = (v', none) ∧ ∀ w : Value, w.getPath? path' = w.getPath? path := by
  have hput : put new (segments path) v = (v', none) := setPath_eq_none_iff.1 h
  refine ⟨at?_put_self hput, fun other hk hp => at?_put_of_apart hput hk hp, fun y => ?_,
    fun hsome before key after fields hkeys hv => ?_,
    fun a b => ⟨segments_dot_append a, segments_append_dot a, segments_doubled a b⟩,
    fun path' hpath => ⟨setPath_eq_none_iff.2 (hpath ▸ hput), fun w => ?_⟩⟩
  · have hsucceeds : put y (segments path) v = ((put y (segments path) v).1, none) :=
      Prod.ext rfl (by rw [put_snd_eq y new, hput])
    constructor
    · rw [setPath, setPath, put_put hput]
    · rw [setPath_eq_none_iff.2 hsucceeds]
  · rw [getPath?, hkeys] at hsome
    rw [hkeys] at hput
    exact keys_at?_put hput hsome hv
  · rw [getPath?, getPath?, hpath]

/-- A board with the size of its flash among other settings. -/
def uploadSettings (size : Value) : Value :=
  obj [("name", .str "B"), ("upload", .obj [("tool", .str "t"), ("size", size), ("speed", .str "9600")])]

/-- The size is written with empty segments around its path, read with and without them and written again. -/
theorem setPath_lens_uploadSettings :
    (uploadSettings (str "4")).setPath ".upload..size." (str "8") = (uploadSettings (str "8"), none) ∧
      (uploadSettings (str "8")).getPath? ".upload..size." = some (str "8") ∧
      (uploadSettings (str "8")).getPath? "upload.size" = some (str "8") ∧
      (uploadSettings (str "8")).setPath ".upload..size." null = (uploadSettings null, none) := by
  have hwrite : (uploadSettings (str "4")).setPath ".upload..size." (str "8") =
      (uploadSettings (str "8"), none) := by cbv
  obtain ⟨hread, -, hagain, -, -, hsame⟩ := setPath_lens _ _ _ _ hwrite
  have hplain := (hsame "upload.size" (by cbv)).2 (uploadSettings (str "8"))
  refine ⟨hwrite, hread, hplain.trans hread, (hagain null).1.trans ?_⟩
  cbv

end Value

end BoardAtlas
