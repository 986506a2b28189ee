import BoardAtlas.Proofs.Manifest.Merging
import BoardAtlas.Proofs.Manifest.PathWrites

/-!
# First conflicts

A merge that stops has met two kinds that clash, and what it leaves is what it has merged until then. Where it
stops can be said without it: merging a member cannot make a clash below another one or remove it, so the
conflicts of two values are known from both alone, and the first one in the order of the upper value's keys is
the one that is met.

* `Conflict.Between`, `between_cons_iff`: two kinds that clash at a path;
* `paths`, `before?`: the places of a value, depth first, and the part of it before one of them;
* `not_between_of_mergeAt`: a merge that ends has met no conflict;
* `StopsAt`, `stopsAt_mergeAt`: one that stops has met the first one;
* **`merge_first_conflict`**: both.
-/

namespace BoardAtlas

theorem Dict.get?_eq_of_split {α : Type} {pre post : Dict α} {key : String} {v : α}
    (h : Dict.Distinct (pre ++ (key, v) :: post)) :
    key ∉ pre.keys ∧ Dict.get? (pre ++ (key, v) :: post) key = some v := by
  refine ⟨fun hmem => ?_, Dict.get?_of_mem h (List.mem_append_right _ List.mem_cons_self)⟩
  rw [Dict.Distinct, Dict.keys, List.map_append] at h
  exact (List.nodup_append.1 h).2.2 key hmem key List.mem_cons_self rfl

theorem Dict.takeWhile_split {α : Type} {pre post : Dict α} {key : String} {v : α} (h : key ∉ pre.keys) :
    (pre ++ (key, v) :: post).takeWhile (fun e => e.1 ≠ key) = pre := by
  have hpre : ∀ e ∈ pre, decide (e.1 ≠ key) = true := by
    intro e he
    exact decide_eq_true fun hkey => h (hkey ▸ List.mem_map_of_mem he)
  rw [List.takeWhile_append_of_pos hpre, List.takeWhile_cons_of_neg (by simp), List.append_nil]

namespace Value

/-! ## Conflicts of two values -/

/-- **Two kinds that clash**: on the way to the path both values are objects, and at the path they have values
of two kinds, the lower one no null. -/
structure Conflict.Between (c : Conflict) (old new : Value) : Prop where
  objects : ∀ before key after, c.path = before ++ key :: after →
    ∃ fields members, old.at? before = some (.obj fields) ∧ new.at? before = some (.obj members)
  expected : (old.at? c.path).map kind = some c.expected
  found : (new.at? c.path).map kind = some c.found
  not_null : c.expected ≠ .null
  differ : c.expected ≠ c.found

theorem exists_obj_of_at? {v w : Value} {before after : List String} {key : String}
    (h : v.at? (before ++ key :: after) = some w) : ∃ fields, v.at? before = some (.obj fields) := by
  induction before generalizing v with
  | nil =>
    rw [List.nil_append, at?_cons] at h
    obtain ⟨child, hchild, -⟩ := Option.bind_eq_some_iff.1 h
    obtain ⟨fields, hfields, -⟩ := Option.bind_eq_some_iff.1 hchild
    cases v with
    | obj members => exact ⟨members, at?_nil _⟩
    | _ => cases hfields
  | cons k before ih =>
    rw [List.cons_append, at?_cons] at h
    obtain ⟨child, hchild, hw⟩ := Option.bind_eq_some_iff.1 h
    obtain ⟨fields, hfields⟩ := ih hw
    exact ⟨fields, by rw [at?_cons, hchild, Option.bind_some, hfields]⟩

section Between

variable {old new : Value} {fields members : Dict Value} {key : String} {path : List String}
  {expected found : Kind}

theorem between_of_at? (ho : (old.at? path).map kind = some expected)
    (hn : (new.at? path).map kind = some found) (hnull : expected ≠ .null) (hdiffer : expected ≠ found) :
    (Conflict.mk path expected found).Between old new := by
  refine ⟨fun before key after hpath => ?_, ho, hn, hnull, hdiffer⟩
  obtain ⟨v, hv, -⟩ := Option.map_eq_some_iff.1 ho
  obtain ⟨w, hw, -⟩ := Option.map_eq_some_iff.1 hn
  change path = _ at hpath
  rw [hpath] at hv hw
  obtain ⟨fields, hfields⟩ := exists_obj_of_at? hv
  obtain ⟨members, hmembers⟩ := exists_obj_of_at? hw
  exact ⟨fields, members, hfields, hmembers⟩

theorem between_nil_iff :
    (Conflict.mk [] expected found).Between old new ↔
      old.kind = expected ∧ new.kind = found ∧ expected ≠ .null ∧ expected ≠ found := by
  constructor
  · rintro ⟨-, ho, hn, hnull, hdiffer⟩
    rw [at?_nil] at ho hn
    exact ⟨Option.some.inj ho, Option.some.inj hn, hnull, hdiffer⟩
  · rintro ⟨rfl, rfl, hnull, hdiffer⟩
    exact between_of_at? (by rw [at?_nil, Option.map_some]) (by rw [at?_nil, Option.map_some]) hnull hdiffer

/-- Below a key two objects clash where their values under the key do. -/
theorem between_cons_iff :
    (Conflict.mk (key :: path) expected found).Between (.obj fields) (.obj members) ↔
      ∃ v w, Dict.get? fields key = some v ∧ Dict.get? members key = some w ∧
        (Conflict.mk path expected found).Between v w := by
  constructor
  · rintro ⟨-, ho, hn, hnull, hdiffer⟩
    simp only [at?_obj_cons, Option.map_eq_some_iff, Option.bind_eq_some_iff] at ho hn
    obtain ⟨_, ⟨v, hv, ho⟩, hexpected⟩ := ho
    obtain ⟨_, ⟨w, hw, hn⟩, hfound⟩ := hn
    exact ⟨v, w, hv, hw, between_of_at? (by rw [ho, Option.map_some, hexpected])
      (by rw [hn, Option.map_some, hfound]) hnull hdiffer⟩
  · rintro ⟨v, w, hv, hw, -, ho, hn, hnull, hdiffer⟩
    exact between_of_at? (by rw [at?_obj_cons, hv]; exact ho) (by rw [at?_obj_cons, hw]; exact hn) hnull hdiffer

end Between

/-! ## Places of a value -/

mutual

/-- **The places of a value**, depth first, in the order of its keys. -/
def paths : Value → List (List String)
  | .obj members => [] :: pathsOfMembers members
  | _ => [[]]

/-- The places of members, each below its key. -/
def pathsOfMembers : List (String × Value) → List (List String)
  | [] => []
  | (key, v) :: rest => (paths v).map (key :: ·) ++ pathsOfMembers rest

end

/-- **The part of a value before a place**: nothing before the value itself, and on the way to a place the
members before each key. -/
def before? : List String → Value → Option Value
  | [], _ => none
  | key :: path, .obj members =>
    some (.obj (members.takeWhile (fun e => e.1 ≠ key) ++
      (((Dict.get? members key).bind (before? path)).map fun part => (key, part)).toList))
  | _ :: _, v => some v

/-- The places before one of them. -/
def pathsBefore (path : List String) (v : Value) : List (List String) := ((v.before? path).map paths).getD []

theorem paths_eq_cons (v : Value) : ∃ rest, v.paths = [] :: rest := by
  cases v <;> exact ⟨_, rfl⟩

theorem pathsOfMembers_append (a b : List (String × Value)) :
    pathsOfMembers (a ++ b) = pathsOfMembers a ++ pathsOfMembers b := by
  induction a with
  | nil => rfl
  | cons e a ih =>
    obtain ⟨key, v⟩ := e
    rw [List.cons_append, pathsOfMembers, pathsOfMembers, ih, List.append_assoc]

theorem mem_pathsOfMembers {members : List (String × Value)} {path : List String} :
    path ∈ pathsOfMembers members ↔ ∃ key v below, (key, v) ∈ members ∧ below ∈ v.paths ∧ path = key :: below := by
  induction members with
  | nil => simp [pathsOfMembers]
  | cons e rest ih =>
    obtain ⟨key, v⟩ := e
    rw [pathsOfMembers, List.mem_append, List.mem_map, ih]
    constructor
    · rintro (⟨below, hbelow, rfl⟩ | ⟨k, w, below, hmem, hbelow, rfl⟩)
      · exact ⟨key, v, below, List.mem_cons_self, hbelow, rfl⟩
      · exact ⟨k, w, below, List.mem_cons_of_mem _ hmem, hbelow, rfl⟩
    · rintro ⟨k, w, below, hmem, hbelow, rfl⟩
      rcases List.mem_cons.1 hmem with hfirst | hrest
      · cases hfirst
        exact Or.inl ⟨below, hbelow, rfl⟩
      · exact Or.inr ⟨k, w, below, hrest, hbelow, rfl⟩

section Split

variable {pre post : Dict Value} {key : String} {w : Value}

theorem before?_cons (h : Dict.Distinct (pre ++ (key, w) :: post)) (path : List String) :
    (obj (pre ++ (key, w) :: post)).before? (key :: path) =
      some (.obj (pre ++ ((w.before? path).map fun part => (key, part)).toList)) := by
  obtain ⟨hpre, hget⟩ := Dict.get?_eq_of_split h
  rw [before?, Dict.takeWhile_split hpre, hget, Option.bind_some]

theorem pathsBefore_cons (h : Dict.Distinct (pre ++ (key, w) :: post)) (path : List String) :
    pathsBefore (key :: path) (obj (pre ++ (key, w) :: post)) =
      [] :: (pathsOfMembers pre ++ (w.pathsBefore path).map (key :: ·)) := by
  rw [pathsBefore, before?_cons h, Option.map_some, Option.getD_some, paths, pathsOfMembers_append, pathsBefore]
  cases w.before? path with
  | none => rfl
  | some part => simp [pathsOfMembers]

end Split

/-! ## Merges that end -/

/-- **A merge that ends has met no conflict**, and so there is none. -/
theorem not_between_of_mergeAt {trail : List String} {old new r : Value} (hd : new.Distinct)
    (h : mergeAt trail old new = (r, none)) (path : List String) (expected found : Kind) :
    ¬ (Conflict.mk path expected found).Between old new := by
  induction path generalizing trail old new r with
  | nil =>
    rw [between_nil_iff]
    rintro ⟨rfl, rfl, hnull, hdiffer⟩
    rcases mergeAt_eq_none_iff.1 h with ⟨_, _, _, rfl, rfl, -⟩ | ⟨-, hk | ⟨hk, -⟩⟩
    · exact hdiffer rfl
    · exact hnull hk
    · exact hdiffer hk
  | cons key path ih =>
    intro hc
    obtain ⟨fields, members, hfields, hmembers⟩ := hc.objects [] key path rfl
    rw [at?_nil, Option.some.injEq] at hfields hmembers
    subst hfields hmembers
    obtain ⟨v, w, hv, hw, hbelow⟩ := between_cons_iff.1 hc
    rcases mergeAt_eq_none_iff.1 h with ⟨_, _, merged, ⟨⟩, ⟨⟩, rfl, hm⟩ | ⟨-, hk | ⟨-, hk⟩⟩
    · have hmember := get?_mergeMembers (distinct_obj_iff.1 hd).1 hm key
      rw [hv, hw] at hmember
      generalize Dict.get? merged key = x at hmember
      cases hmember with
      | merged hvw => exact ih (hd.of_get? hw) hvw hbelow
    · cases hk
    · exact hk rfl

/-! ## Merges that stop -/

section Members

variable {trail : List String} {fields merged mid : Dict Value} {c : Conflict}

theorem mergeMembers_append {pre : Dict Value} (h : mergeMembers trail fields pre = (mid, none))
    (post : Dict Value) : mergeMembers trail fields (pre ++ post) = mergeMembers trail mid post := by
  induction pre generalizing fields with
  | nil =>
    cases h
    rfl
  | cons e pre ih =>
    obtain ⟨key, w⟩ := e
    rw [mergeMembers] at h
    rw [List.cons_append, mergeMembers]
    cases hget : Dict.get? fields key with
    | none =>
      rw [hget] at h
      exact ih h
    | some old =>
      rw [hget] at h
      rcases hm : mergeAt (key :: trail) old w with ⟨m, _ | clash⟩
      · simp only [hm] at h ⊢
        exact ih h
      · simp [hm] at h

theorem exists_split_of_mergeMembers {new : Dict Value} (h : mergeMembers trail fields new = (merged, some c)) :
    ∃ pre key w post mid old m, new = pre ++ (key, w) :: post ∧
      mergeMembers trail fields pre = (mid, none) ∧ Dict.get? mid key = some old ∧
      mergeAt (key :: trail) old w = (m, some c) ∧ merged = Dict.insert mid key m := by
  induction new generalizing fields with
  | nil => cases h
  | cons e rest ih =>
    obtain ⟨key, w⟩ := e
    -- A member that merges goes to those before the one that stops.
    have hlater {v : Value} (hv : ∀ rest, mergeMembers trail fields ((key, w) :: rest) =
        mergeMembers trail (Dict.insert fields key v) rest) :
        ∃ pre key' w' post mid old m, (key, w) :: rest = pre ++ (key', w') :: post ∧
          mergeMembers trail fields pre = (mid, none) ∧ Dict.get? mid key' = some old ∧
          mergeAt (key' :: trail) old w' = (m, some c) ∧ merged = Dict.insert mid key' m := by
      rw [hv] at h
      obtain ⟨pre, key', w', post, mid, old, m, rfl, hpre, hstop⟩ := ih h
      exact ⟨(key, w) :: pre, key', w', post, mid, old, m, rfl, by rw [hv, hpre], hstop⟩
    cases hget : Dict.get? fields key with
    | none => exact hlater fun rest => by rw [mergeMembers, hget]
    | some old =>
      rcases hm : mergeAt (key :: trail) old w with ⟨m, _ | clash⟩
      · exact hlater (v := m) fun rest => by simp only [mergeMembers, hget, hm]
      · simp only [mergeMembers, hget, hm, Prod.mk.injEq, Option.some.injEq] at h
        obtain ⟨rfl, rfl⟩ := h
        exact ⟨[], key, w, rest, fields, old, m, rfl, rfl, hget, hm, rfl⟩

end Members

/-- **Where a merge stops**: at a conflict, with none at the places of the upper value before it; what it
leaves is the merge of the part before that place. -/
structure StopsAt (trail : List String) (old new state : Value) (c : Conflict) : Prop where
  between : c.Between old new
  place : ∃ later, new.paths = new.pathsBefore c.path ++ c.path :: later
  first : ∀ path ∈ new.pathsBefore c.path, ∀ expected found, ¬ (Conflict.mk path expected found).Between old new
  left : match new.before? c.path with
    | none => state = old
    | some part => mergeAt trail old part = (state, none)

theorem stopsAt_replace {old new state : Value} {trail : List String} {c : Conflict}
    (h : replace trail old new = (state, some c)) :
    c = ⟨trail.reverse, old.kind, new.kind⟩ ∧ StopsAt trail old new state ⟨[], old.kind, new.kind⟩ := by
  rw [replace] at h
  split at h
  · cases h
  · next hk =>
    cases h
    obtain ⟨hnull, hdiffer⟩ := not_or.1 hk
    obtain ⟨rest, hpaths⟩ := paths_eq_cons new
    exact ⟨rfl, between_nil_iff.2 ⟨rfl, rfl, hnull, hdiffer⟩, ⟨rest, hpaths⟩, by simp [pathsBefore, before?], rfl⟩

theorem not_between_of_mem_pathsOfMembers {trail : List String} {fields pre rest mid : Dict Value}
    (hd : (Value.obj (pre ++ rest)).Distinct) (h : mergeMembers trail fields pre = (mid, none))
    {path : List String} (hpath : path ∈ pathsOfMembers pre) (expected found : Kind) :
    ¬ (Conflict.mk path expected found).Between (.obj fields) (.obj (pre ++ rest)) := by
  obtain ⟨hdistinct, hvalues⟩ := distinct_obj_iff.1 hd
  have hpre : Dict.Distinct pre := hdistinct.sublist ((List.sublist_append_left pre rest).map Prod.fst)
  obtain ⟨key, v, below, hmem, -, rfl⟩ := mem_pathsOfMembers.1 hpath
  have hmem' : (key, v) ∈ pre ++ rest := List.mem_append_left _ hmem
  intro hc
  obtain ⟨u, w, hu, hw, hclash⟩ := between_cons_iff.1 hc
  rw [Dict.get?_of_mem hdistinct hmem', Option.some.injEq] at hw
  subst hw
  have hmember := get?_mergeMembers hpre h key
  rw [hu, Dict.get?_of_mem hpre hmem] at hmember
  generalize Dict.get? mid key = x at hmember
  cases hmember with
  | merged hv => exact not_between_of_mergeAt (hvalues _ hmem') hv below expected found hclash

theorem StopsAt.cons {trail : List String} {fields pre post mid : Dict Value} {key : String} {old w m : Value}
    {path : List String} {expected found : Kind} (hd : (Value.obj (pre ++ (key, w) :: post)).Distinct)
    (hpre : mergeMembers trail fields pre = (mid, none)) (hmid : Dict.get? mid key = some old)
    (hstop : StopsAt (key :: trail) old w m ⟨path, expected, found⟩) :
    StopsAt trail (.obj fields) (.obj (pre ++ (key, w) :: post)) (.obj (Dict.insert mid key m))
      ⟨key :: path, expected, found⟩ := by
  have hdistinct := (distinct_obj_iff.1 hd).1
  obtain ⟨hkey, hget⟩ := Dict.get?_eq_of_split hdistinct
  -- The members before `key` have not touched it.
  have hold : Dict.get? fields key = some old := by
    have hkept := get?_mergeMembers (hdistinct.sublist ((List.sublist_append_left pre _).map Prod.fst)) hpre key
    rw [Dict.get?_eq_none hkey, hmid] at hkept
    generalize Dict.get? fields key = x at hkept
    cases hkept
    rfl
  refine ⟨between_cons_iff.2 ⟨old, w, hold, hget, hstop.between⟩, ?place, ?first, ?left⟩
  case place =>
    obtain ⟨later, hlater⟩ := hstop.place
    refine ⟨later.map (key :: ·) ++ pathsOfMembers post, ?_⟩
    rw [pathsBefore_cons hdistinct, paths, pathsOfMembers_append, pathsOfMembers, hlater]
    simp
  case first =>
    intro place hplace expected' found' hc
    rw [pathsBefore_cons hdistinct, List.mem_cons, List.mem_append] at hplace
    rcases hplace with rfl | hbefore | hbelow
    · obtain ⟨rfl, rfl, -, hdiffer⟩ := between_nil_iff.1 hc
      exact hdiffer rfl
    · exact not_between_of_mem_pathsOfMembers hd hpre hbefore _ _ hc
    · obtain ⟨below, hmem, rfl⟩ := List.mem_map.1 hbelow
      obtain ⟨u, x, hu, hx, hclash⟩ := between_cons_iff.1 hc
      rw [hold, Option.some.injEq] at hu
      rw [hget, Option.some.injEq] at hx
      subst hu hx
      exact hstop.first below hmem _ _ hclash
  case left =>
    have hleft := hstop.left
    simp only [before?_cons hdistinct]
    refine mergeAt_eq_none_iff.2 (Or.inl ⟨_, _, _, rfl, rfl, rfl, ?_⟩)
    rw [mergeMembers_append hpre]
    cases hpart : w.before? path with
    | none =>
      simp only [hpart] at hleft
      rw [hleft, Dict.insert_eq_self hmid]
      rfl
    | some part =>
      simp only [hpart] at hleft
      simp only [Option.map_some, Option.toList_some, mergeMembers, hmid, hleft]

/-- **A merge that stops** has met the first conflict; its path follows the trail. -/
theorem stopsAt_mergeAt {trail : List String} {old new state : Value} {c : Conflict} (hd : new.Distinct)
    (h : mergeAt trail old new = (state, some c)) :
    ∃ path expected found, c = ⟨trail.reverse ++ path, expected, found⟩ ∧
      StopsAt trail old new state ⟨path, expected, found⟩ := by
  induction new using members_induction generalizing trail old state with | step new ih
  by_cases hobj : old.kind = .object ∧ new.kind = .object
  · obtain ⟨fields, rfl⟩ := eq_obj_of_kind hobj.1
    obtain ⟨members, rfl⟩ := eq_obj_of_kind hobj.2
    rcases hm : mergeMembers trail fields members with ⟨merged, clash⟩
    simp only [mergeAt, hm, Prod.mk.injEq] at h
    obtain ⟨rfl, rfl⟩ := h
    obtain ⟨pre, key, w, post, mid, old, m, rfl, hpre, hmid, hstop, rfl⟩ := exists_split_of_mergeMembers hm
    have hget := (Dict.get?_eq_of_split (distinct_obj_iff.1 hd).1).2
    obtain ⟨path, expected, found, rfl, hbelow⟩ := ih key w hget (hd.of_get? hget) hstop
    exact ⟨key :: path, expected, found, by simp, hbelow.cons hd hpre hmid⟩
  · rw [mergeAt_eq_replace hobj] at h
    obtain ⟨rfl, hstop⟩ := stopsAt_replace h
    exact ⟨[], old.kind, new.kind, by rw [List.append_nil], hstop⟩

theorem merge_eq_some_iff {old new state : Value} {e : ManifestError} :
    old.merge new = (state, some e) ↔ ∃ c, mergeAt [] old new = (state, some c) ∧ e = c.error := by
  rw [merge]
  rcases mergeAt [] old new with ⟨m, _ | clash⟩
  · simp
  · simp only [Option.map_some, Prod.mk.injEq, Option.some.injEq]
    constructor
    · rintro ⟨rfl, rfl⟩
      exact ⟨clash, ⟨rfl, rfl⟩, rfl⟩
    · rintro ⟨_, ⟨rfl, rfl⟩, rfl⟩
      exact ⟨rfl, rfl⟩

/-- **The first conflict.** A merge fails exactly when the two values have a conflict. It names the first one in
the order of the upper value's keys, depth first, with the two kinds, and the value it leaves is that of merging
the part of the upper value before the place of the conflict, which has no conflict. -/
theorem merge_first_conflict (old new : Value) (hnew : new.Distinct) :
    ((old.merge new).2.isSome ↔ ∃ c : Conflict, c.Between old new) ∧
    ∀ state e, old.merge new = (state, some e) →
      ∃ (c : Conflict) (later : List (List String)), c.Between old new ∧
        e = .typeConflict c.path c.expected c.found ∧
        new.paths = new.pathsBefore c.path ++ c.path :: later ∧
        (∀ d : Conflict, d.Between old new → d.path ∉ new.pathsBefore c.path) ∧
        match new.before? c.path with
        | none => state = old
        | some part => old.merge part = (state, none) := by
  constructor
  · rcases hm : old.merge new with ⟨state, _ | e⟩
    · have hnone (c : Conflict) : ¬ c.Between old new :=
        not_between_of_mergeAt hnew (merge_eq_none_iff.1 hm) c.path c.expected c.found
      simp [hnone]
    · obtain ⟨c, hc, -⟩ := merge_eq_some_iff.1 hm
      obtain ⟨path, expected, found, -, hstop⟩ := stopsAt_mergeAt hnew hc
      simpa using ⟨_, hstop.between⟩
  · intro state e hm
    obtain ⟨c, hc, rfl⟩ := merge_eq_some_iff.1 hm
    obtain ⟨path, expected, found, rfl, hstop⟩ := stopsAt_mergeAt hnew hc
    obtain ⟨later, hplace⟩ := hstop.place
    refine ⟨⟨path, expected, found⟩, later, hstop.between, rfl, hplace,
      fun d hd hmem => hstop.first d.path hmem d.expected d.found hd, ?_⟩
    have hleft := hstop.left
    revert hleft
    cases new.before? path with
    | none => exact id
    | some part => exact merge_eq_none_iff.2

/-- A board whose tools are a list. -/
def listedTools : Value :=
  obj [("chip", .str "X1"), ("upload", .obj [("size", .str "4"), ("tools", .list [])])]

/-- A layer with a new size, other tools that are no list and a name after them. -/
def namedTools : Value :=
  obj [("vendor", .str "V"), ("upload", .obj [("size", .str "8"), ("tools", .str "t")]), ("name", .str "B")]

/-- The size and the vendor are merged, the tools clash, and the name is never reached. -/
theorem merge_first_conflict_namedTools :
    namedTools.Distinct ∧ (∃ c : Conflict, c.Between listedTools namedTools) ∧
      namedTools.paths =
        [[], ["vendor"], ["upload"], ["upload", "size"]] ++ ["upload", "tools"] :: [["name"]] ∧
      listedTools.merge namedTools =
        (obj [("chip", .str "X1"), ("upload", .obj [("size", .str "8"), ("tools", .list [])]),
          ("vendor", .str "V")], some (.typeConflict ["upload", "tools"] .list .string)) ∧
      listedTools.merge (obj [("vendor", .str "V"), ("upload", .obj [("size", .str "8")])]) =
        (obj [("chip", .str "X1"), ("upload", .obj [("size", .str "8"), ("tools", .list [])]),
          ("vendor", .str "V")], none) := by
  have hd : namedTools.Distinct := by
    simp [namedTools, Distinct, DistinctMembers, Dict.Distinct, Dict.keys]
  have hm : listedTools.merge namedTools =
      (obj [("chip", .str "X1"), ("upload", .obj [("size", .str "8"), ("tools", .list [])]),
        ("vendor", .str "V")], some (.typeConflict ["upload", "tools"] .list .string)) := rfl
  obtain ⟨hfails, hfirst⟩ := merge_first_conflict listedTools namedTools hd
  obtain ⟨c, later, -, he, -, -, hleft⟩ := hfirst _ _ hm
  obtain ⟨hpath, -, -⟩ := ManifestError.typeConflict.inj he
  rw [← hpath] at hleft
  exact ⟨hd, hfails.1 (by rw [hm]; rfl), rfl, hm, hleft⟩

end Value

end BoardAtlas
