/-!
# Ordered dictionaries

A dictionary is a list of entries in the order their keys were first written. Writing a key that is
already there keeps its place.

* `Dict.get?`, `Dict.insert`, `Dict.erase`, `Dict.extend`, `Dict.addMissing`;
* `Dict.keys`, `Dict.Distinct`: the view by keys, and the keys all differ;
* what each operation does to a look-up, and look-ups are all there is: `get?_insert`, `get?_extend`, `get?_addMissing`,
  `get?_mapValues`, `get?_erase`, `ext_get?`;
* which entries it leaves: `mem_insert`, `mem_extend`, `extend_of_distinct`, `erase_sublist`, and `distinct_insert` and
  the like.
-/

namespace BoardAtlas

/-- Entries in the order of their keys' first writing. -/
abbrev Dict (α : Type) : Type := List (String × α)

namespace Dict

variable {α β : Type}

/-- The value of the first entry with the key. -/
def get? : Dict α → String → Option α
  | [], _ => none
  | (k, v) :: rest, key => if k = key then some v else get? rest key

/-- The key has an entry. -/
def has (d : Dict α) (key : String) : Bool := (d.get? key).isSome

/-- Writes a key: in its place if it is there, else at the end. -/
def insert : Dict α → String → α → Dict α
  | [], key, value => [(key, value)]
  | (k, v) :: rest, key, value =>
    if k = key then (k, value) :: rest else (k, v) :: insert rest key value

/-- Removes the first entry with the key; the others keep their order. -/
def erase : Dict α → String → Dict α
  | [], _ => []
  | (k, v) :: rest, key => if k = key then rest else (k, v) :: erase rest key

/-- Writes all entries of another dictionary, in their order. -/
def extend (d e : Dict α) : Dict α := e.foldl (fun d (k, v) => d.insert k v) d

/-- Adds those entries of another dictionary whose keys are not there yet. -/
def addMissing (d e : Dict α) : Dict α :=
  e.foldl (fun d (k, v) => if d.has k then d else d.insert k v) d

/-- The dictionary of a list of writes, the last one winning at the place of the first. -/
def ofList (entries : List (String × α)) : Dict α := extend [] entries

/-- The keys in order. -/
def keys (d : Dict α) : List String := d.map Prod.fst

/-- The values in order. -/
def values (d : Dict α) : List α := d.map Prod.snd

/-- The same keys with other values. -/
def mapValues (f : α → β) (d : Dict α) : Dict β := d.map fun (k, v) => (k, f v)

/-- No key has two entries. -/
def Distinct (d : Dict α) : Prop := d.keys.Nodup

/-! ## Look-ups after an operation -/

@[simp] theorem get?_nil (key : String) : get? ([] : Dict α) key = none := rfl

theorem get?_cons (k key : String) (v : α) (d : Dict α) :
    get? ((k, v) :: d) key = if k = key then some v else get? d key := rfl

/-- A key that is not there has no value. -/
theorem get?_eq_none {d : Dict α} {key : String} (h : key ∉ d.keys) : d.get? key = none := by
  induction d with
  | nil => rfl
  | cons e d ih =>
    obtain ⟨k, v⟩ := e
    have hk : key ≠ k ∧ key ∉ keys d := not_or.1 fun hm => h (List.mem_cons.2 hm)
    rw [get?_cons, if_neg (Ne.symm hk.1)]
    exact ih hk.2

theorem get?_insert (d : Dict α) (k key : String) (v : α) :
    (d.insert k v).get? key = if k = key then some v else d.get? key := by
  induction d with
  | nil => rfl
  | cons e d ih =>
    obtain ⟨k', v'⟩ := e
    by_cases h : k' = k
    · subst h
      by_cases hk : k' = key <;> simp [insert, get?_cons, hk]
    · by_cases hk : k' = key
      · subst hk
        simp [insert, h, get?_cons, Ne.symm h]
      · simp [insert, h, get?_cons, hk, ih]

/-- Writing what is there already changes nothing. -/
theorem insert_eq_self {d : Dict α} {k : String} {v : α} (h : d.get? k = some v) : d.insert k v = d := by
  induction d with
  | nil => cases h
  | cons e d ih =>
    obtain ⟨k', v'⟩ := e
    rw [get?_cons] at h
    by_cases hk : k' = k
    · rw [if_pos hk] at h
      cases h
      rw [insert, if_pos hk, hk]
    · rw [if_neg hk] at h
      rw [insert, if_neg hk, ih h]

theorem get?_extend (d e : Dict α) (key : String) (he : e.Distinct) :
    (d.extend e).get? key = (e.get? key).or (d.get? key) := by
  induction e generalizing d with
  | nil => simp [extend]
  | cons x e ih =>
    obtain ⟨k, v⟩ := x
    have hd : (k :: keys e).Nodup := he
    rw [List.nodup_cons] at hd
    have step : extend d ((k, v) :: e) = extend (d.insert k v) e := rfl
    rw [step, ih _ hd.2, get?_insert, get?_cons]
    by_cases h : k = key
    · subst h
      have : get? e k = none := get?_eq_none hd.1
      simp [this]
    · simp [h]

theorem get?_addMissing (d e : Dict α) (key : String) :
    (d.addMissing e).get? key = (d.get? key).or (e.get? key) := by
  induction e generalizing d with
  | nil => simp [addMissing]
  | cons x e ih =>
    obtain ⟨k, v⟩ := x
    have hfirst : (if d.has k then d else d.insert k v).get? key =
        (d.get? key).or (if k = key then some v else none) := by
      by_cases hk : k = key
      · subst hk
        cases hget : d.get? k <;> simp [has, hget, get?_insert]
      · cases hget : d.get? k <;> simp [has, hget, get?_insert, hk]
    change (addMissing (if d.has k then d else d.insert k v) e).get? key = _
    rw [ih, hfirst, get?_cons, Option.or_assoc]
    split <;> rfl

@[simp] theorem keys_mapValues (f : α → β) (d : Dict α) : (d.mapValues f).keys = d.keys := by
  simp [keys, mapValues]

@[simp] theorem get?_mapValues (f : α → β) (d : Dict α) (key : String) :
    (d.mapValues f).get? key = (d.get? key).map f := by
  induction d with
  | nil => rfl
  | cons e d ih =>
    obtain ⟨k, v⟩ := e
    change get? ((k, f v) :: mapValues f d) key = _
    rw [get?_cons, get?_cons, ih]
    split <;> rfl

/-- A dictionary is known from its keys in order and from what is found under each. -/
theorem ext_get? {d e : Dict α} (hd : d.Distinct) (hkeys : d.keys = e.keys)
    (hget : ∀ key, d.get? key = e.get? key) : d = e := by
  induction d generalizing e with
  | nil => exact (List.map_eq_nil_iff.1 hkeys.symm).symm
  | cons x d ih =>
    obtain ⟨k, v⟩ := x
    cases e with
    | nil => cases hkeys
    | cons y e =>
      obtain ⟨k', v'⟩ := y
      obtain ⟨rfl, htail⟩ : k = k' ∧ keys d = keys e := List.cons.inj hkeys
      obtain ⟨hk, hdistinct⟩ : k ∉ keys d ∧ Distinct d := List.nodup_cons.1 hd
      have hv := hget k
      rw [get?_cons, get?_cons, if_pos rfl, if_pos rfl] at hv
      have hrest : ∀ key, get? d key = get? e key := fun key => by
        have h := hget key
        rw [get?_cons, get?_cons] at h
        by_cases he : k = key
        · subst he
          rw [get?_eq_none hk, get?_eq_none (htail ▸ hk)]
        · rwa [if_neg he, if_neg he] at h
      rw [Option.some.inj hv, ih hdistinct htail hrest]

/-- Where keys all differ, removing one removes all there is of it and nothing else. -/
theorem get?_erase (d : Dict α) (k key : String) (hd : d.Distinct) :
    (d.erase k).get? key = if k = key then none else d.get? key := by
  induction d with
  | nil => simp [erase]
  | cons e d ih =>
    obtain ⟨k', v⟩ := e
    have hk : k' ∉ keys d ∧ Distinct d := List.nodup_cons.1 hd
    by_cases h : k' = k
    · subst h
      rw [erase, if_pos rfl, get?_cons]
      split
      · next he => exact he ▸ get?_eq_none hk.1
      · rfl
    · rw [erase, if_neg h, get?_cons, get?_cons, ih hk.2]
      split
      · next he => rw [if_neg (he ▸ Ne.symm h)]
      · rfl

/-- A value that is found belongs to an entry. -/
theorem mem_of_get? {d : Dict α} {key : String} {v : α} (h : d.get? key = some v) : (key, v) ∈ d := by
  induction d with
  | nil => cases h
  | cons e d ih =>
    obtain ⟨k, w⟩ := e
    rw [get?_cons] at h
    split at h
    · next hk =>
      cases h
      exact hk ▸ List.mem_cons_self
    · exact List.mem_cons_of_mem _ (ih h)

/-- Where keys all differ, every entry is the one that is found. -/
theorem get?_of_mem {d : Dict α} (hd : d.Distinct) {key : String} {v : α} (h : (key, v) ∈ d) :
    d.get? key = some v := by
  induction d with
  | nil => cases h
  | cons e d ih =>
    obtain ⟨k, w⟩ := e
    obtain ⟨hk, hd⟩ : k ∉ keys d ∧ Distinct d := List.nodup_cons.1 hd
    rw [get?_cons]
    rcases List.mem_cons.1 h with h | h
    · cases h
      rw [if_pos rfl]
    · rw [if_neg, ih hd h]
      exact fun he => hk (he ▸ List.mem_map_of_mem h)

theorem mem_insert {d : Dict α} {k : String} {v : α} {e : String × α} (h : e ∈ d.insert k v) :
    e = (k, v) ∨ e ∈ d := by
  induction d with
  | nil => exact Or.inl (List.mem_singleton.1 h)
  | cons x d ih =>
    obtain ⟨k', v'⟩ := x
    rw [insert] at h
    split at h
    · next hk =>
      rcases List.mem_cons.1 h with he | he
      · exact Or.inl (hk ▸ he)
      · exact Or.inr (List.mem_cons_of_mem _ he)
    · rcases List.mem_cons.1 h with rfl | he
      · exact Or.inr List.mem_cons_self
      · exact (ih he).imp_right (List.mem_cons_of_mem _)

/-- Writing a key leaves the list of keys as it is or adds the key at its end. -/
theorem keys_insert (d : Dict α) (k : String) (v : α) :
    (d.insert k v).keys = if k ∈ d.keys then d.keys else d.keys ++ [k] := by
  induction d with
  | nil => rfl
  | cons e d ih =>
    obtain ⟨k', v'⟩ := e
    by_cases h : k' = k
    · subst h
      simp [insert, keys]
    · have : k ∈ keys ((k', v') :: d) ↔ k ∈ keys d := by simp [keys, Ne.symm h]
      simp only [insert, h, if_false, this]
      change k' :: keys (insert d k v) = _
      rw [ih]
      split <;> rfl

/-- A new key goes to the end. -/
theorem insert_of_not_mem {d : Dict α} {k : String} (h : k ∉ d.keys) (v : α) :
    d.insert k v = d ++ [(k, v)] := by
  induction d with
  | nil => rfl
  | cons e d ih =>
    obtain ⟨k', v'⟩ := e
    obtain ⟨hk, hd⟩ := not_or.1 fun hm => h (List.mem_cons.2 hm)
    rw [insert, if_neg (Ne.symm hk), ih hd]
    rfl

theorem distinct_insert {d : Dict α} (hd : d.Distinct) (k : String) (v : α) :
    (d.insert k v).Distinct := by
  rw [Distinct, keys_insert]
  split
  · exact hd
  · next hk =>
    refine List.nodup_append.2 ⟨hd, by simp, fun a ha b hb e => hk ?_⟩
    rwa [← List.mem_singleton.1 hb, ← e]

theorem distinct_extend {d : Dict α} (hd : d.Distinct) (e : Dict α) : (d.extend e).Distinct := by
  induction e generalizing d with
  | nil => exact hd
  | cons x e ih => exact ih (distinct_insert hd x.1 x.2)

theorem mem_extend {d e : Dict α} {x : String × α} (h : x ∈ d.extend e) : x ∈ d ∨ x ∈ e := by
  induction e generalizing d with
  | nil => exact Or.inl h
  | cons y e ih =>
    rcases ih (d := d.insert y.1 y.2) h with hx | hx
    · rcases mem_insert hx with rfl | hx
      · exact Or.inr List.mem_cons_self
      · exact Or.inl hx
    · exact Or.inr (List.mem_cons_of_mem _ hx)

theorem erase_sublist (d : Dict α) (k : String) : (d.erase k).Sublist d := by
  induction d with
  | nil => exact List.Sublist.slnil
  | cons x d ih =>
    rw [erase]
    split
    · exact List.sublist_cons_self x d
    · exact ih.cons_cons x

theorem distinct_erase {d : Dict α} (hd : d.Distinct) (k : String) : (d.erase k).Distinct :=
  hd.sublist ((erase_sublist d k).map Prod.fst)

/-- Entries with other keys go to the end as they are. -/
theorem extend_of_distinct {d e : Dict α} (h : (d ++ e).Distinct) : d.extend e = d ++ e := by
  induction e generalizing d with
  | nil => exact (List.append_nil d).symm
  | cons x e ih =>
    obtain ⟨k, v⟩ := x
    have hk : k ∉ d.keys := by
      rw [Distinct, keys, List.map_append] at h
      exact fun hmem => (List.nodup_append.1 h).2.2 k hmem k List.mem_cons_self rfl
    have hmove : d ++ (k, v) :: e = d ++ [(k, v)] ++ e := by rw [List.append_assoc]; rfl
    rw [hmove] at h ⊢
    change (d.insert k v).extend e = _
    rw [insert_of_not_mem hk, ih h]

theorem ofList_eq_self {d : Dict α} (hd : d.Distinct) : ofList d = d := extend_of_distinct hd

end Dict

end BoardAtlas
