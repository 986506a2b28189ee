/-!
# Lists without copies

* `firstsBy`, `firsts`: the first element with each key, in order;
* `dropRepeats`: a list without copies of the element just before;
* `updateFirst`: a list with its first element of a kind replaced;
* `ascending`: the elements in ascending order, each once;
* `mem_firstsBy`, `firstsBy_concat_of_mem`, `updateFirst_eq_map`: which elements come first, and one more.
-/

namespace BoardAtlas.Listing

variable {α β : Type}

/-- The elements whose key is not among the seen ones and is not the key of an earlier element. -/
def firstsAfter [BEq β] (key : α → β) : List β → List α → List α
  | _, [] => []
  | seen, x :: rest =>
    if seen.contains (key x) then firstsAfter key seen rest
    else x :: firstsAfter key (key x :: seen) rest

/-- The first element with each key. -/
def firstsBy [BEq β] (key : α → β) (xs : List α) : List α := firstsAfter key [] xs

/-- Each element once, in the order of first occurrences. -/
def firsts [BEq α] (xs : List α) : List α := firstsBy id xs

/-- The list without copies of the element just before. -/
def dropRepeats [BEq α] : List α → List α
  | [] => []
  | [x] => [x]
  | x :: y :: rest => if x == y then dropRepeats (y :: rest) else x :: dropRepeats (y :: rest)

/-- The list with its first element of a kind replaced. -/
def updateFirst (p : α → Bool) (f : α → α) : List α → List α
  | [] => []
  | x :: rest => if p x then f x :: rest else x :: updateFirst p f rest

/-- The elements in ascending order, each once. -/
def ascending [BEq α] (le : α → α → Bool) (xs : List α) : List α := dropRepeats (xs.mergeSort le)

/-- Texts in ascending order, each once. -/
def ascendingTexts (xs : List String) : List String := ascending (fun a b => !(b < a)) xs

/-- Natural numbers in ascending order, each once. -/
def ascendingNumbers (xs : List Nat) : List Nat := ascending (fun a b => a ≤ b) xs

/-- The keys of first elements all differ, and none of them is among the seen ones. -/
theorem nodup_map_firstsAfter [BEq β] [LawfulBEq β] (key : α → β) (seen : List β) (xs : List α) :
    ((firstsAfter key seen xs).map key).Nodup ∧
      ∀ x ∈ firstsAfter key seen xs, key x ∉ seen := by
  induction xs generalizing seen with
  | nil => simp [firstsAfter]
  | cons x rest ih =>
    rw [firstsAfter]
    split
    · exact ih seen
    · next h =>
      obtain ⟨hnodup, hseen⟩ := ih (key x :: seen)
      constructor
      · rw [List.map_cons, List.nodup_cons]
        refine ⟨fun hx => ?_, hnodup⟩
        obtain ⟨y, hy, he⟩ := List.mem_map.1 hx
        exact hseen y hy (he ▸ List.mem_cons_self)
      · intro y hy
        rcases List.mem_cons.1 hy with rfl | hy
        · simpa using h
        · exact fun hm => hseen y hy (List.mem_cons_of_mem _ hm)

theorem nodup_map_firstsBy [BEq β] [LawfulBEq β] (key : α → β) (xs : List α) :
    ((firstsBy key xs).map key).Nodup := (nodup_map_firstsAfter key [] xs).1

section Firsts

variable [BEq β] [LawfulBEq β] {key : α → β}

theorem find?_firstsAfter {seen : List β} {k : β} (hk : k ∉ seen) (xs : List α) :
    (firstsAfter key seen xs).find? (fun x => key x == k) = xs.find? fun x => key x == k := by
  induction xs generalizing seen with
  | nil => rfl
  | cons x rest ih =>
    rw [firstsAfter]
    by_cases hx : key x = k
    · have hs : ¬ seen.contains (key x) = true := by simpa [hx] using hk
      rw [if_neg hs]
      simp [hx]
    · split
      · simp [hx, ih hk]
      · have hk' : k ∉ key x :: seen := by simp [Ne.symm hx, hk]
        simp [hx, ih hk']

/-- The first element with a key is the one that is listed. -/
theorem find?_firstsBy (xs : List α) (k : β) :
    (firstsBy key xs).find? (fun x => key x == k) = xs.find? fun x => key x == k :=
  find?_firstsAfter List.not_mem_nil xs

theorem mem_firstsBy {xs : List α} {x : α} :
    x ∈ firstsBy key xs ↔ xs.find? (fun y => key y == key x) = some x := by
  rw [← find?_firstsBy]
  have hnodup := nodup_map_firstsBy key xs
  generalize firstsBy key xs = ys at hnodup
  constructor
  · intro hx
    induction ys with
    | nil => cases hx
    | cons y rest ih =>
      obtain ⟨hy, hrest⟩ := List.nodup_cons.1 hnodup
      rcases List.mem_cons.1 hx with rfl | hx
      · simp
      · have hne : key y ≠ key x := fun he => hy (List.mem_map.2 ⟨x, hx, he.symm⟩)
        rw [List.find?_cons_of_neg (by simpa using hne)]
        exact ih hrest hx
  · exact List.mem_of_find?_eq_some

theorem mem_map_firstsBy {xs : List α} {k : β} : k ∈ (firstsBy key xs).map key ↔ k ∈ xs.map key := by
  have hfind (ys : List α) : k ∈ ys.map key ↔ (ys.find? fun x => key x == k).isSome := by
    simp [List.find?_isSome]
  rw [hfind, hfind, find?_firstsBy]

theorem firstsAfter_concat_of_mem {seen : List β} {xs : List α} {x : α}
    (h : key x ∈ seen ∨ key x ∈ xs.map key) :
    firstsAfter key seen (xs ++ [x]) = firstsAfter key seen xs := by
  induction xs generalizing seen with
  | nil =>
    have hs : seen.contains (key x) = true := by simpa using h
    simp only [List.nil_append, firstsAfter, hs, if_true]
  | cons y rest ih =>
    rw [List.cons_append, firstsAfter, firstsAfter]
    have hy : key x ∈ key y :: seen ∨ key x ∈ rest.map key := by
      simp only [List.map_cons, List.mem_cons] at h ⊢
      rcases h with h | h | h
      · exact Or.inl (Or.inr h)
      · exact Or.inl (Or.inl h)
      · exact Or.inr h
    split
    · next hs =>
      refine ih ?_
      rcases hy with hy | hy
      · rcases List.mem_cons.1 hy with he | hy
        · exact Or.inl (he ▸ List.contains_iff_mem.1 hs)
        · exact Or.inl hy
      · exact Or.inr hy
    · rw [ih hy]

theorem firstsAfter_concat_of_not_mem {seen : List β} {xs : List α} {x : α} (hs : key x ∉ seen)
    (hx : key x ∉ xs.map key) : firstsAfter key seen (xs ++ [x]) = firstsAfter key seen xs ++ [x] := by
  induction xs generalizing seen with
  | nil => simp [firstsAfter, hs]
  | cons y rest ih =>
    obtain ⟨hy, hrest⟩ := not_or.1 fun hm => hx (List.mem_cons.2 hm)
    rw [List.cons_append, firstsAfter, firstsAfter]
    split
    · exact ih hs hrest
    · rw [ih (by simp [hy, hs]) hrest, List.cons_append]

theorem firstsAfter_of_nodup {seen : List β} {xs : List α} (h : (xs.map key).Nodup)
    (hs : ∀ x ∈ xs, key x ∉ seen) : firstsAfter key seen xs = xs := by
  induction xs generalizing seen with
  | nil => rfl
  | cons x rest ih =>
    obtain ⟨hx, hrest⟩ := List.nodup_cons.1 h
    obtain ⟨hxs, hrs⟩ := List.forall_mem_cons.1 hs
    have hnew : ∀ y ∈ rest, key y ∉ key x :: seen := fun y hy hm => by
      rcases List.mem_cons.1 hm with he | hm
      · exact hx (List.mem_map.2 ⟨y, hy, he⟩)
      · exact hrs y hy hm
    rw [firstsAfter, if_neg (by simpa using hxs), ih hrest hnew]

theorem firstsBy_of_nodup {xs : List α} (h : (xs.map key).Nodup) : firstsBy key xs = xs :=
  firstsAfter_of_nodup h fun _ _ => List.not_mem_nil

theorem firstsBy_concat_of_mem {xs : List α} {x : α} (h : key x ∈ xs.map key) :
    firstsBy key (xs ++ [x]) = firstsBy key xs := firstsAfter_concat_of_mem (Or.inr h)

theorem firstsBy_concat_of_not_mem {xs : List α} {x : α} (h : key x ∉ xs.map key) :
    firstsBy key (xs ++ [x]) = firstsBy key xs ++ [x] :=
  firstsAfter_concat_of_not_mem List.not_mem_nil h

end Firsts

/-- Where at most one element is of the kind, replacing the first one replaces all. -/
theorem updateFirst_eq_map {p : α → Bool} {xs : List α} (f : α → α)
    (h : xs.Pairwise fun x y => p x = true → p y = false) :
    updateFirst p f xs = xs.map fun x => if p x then f x else x := by
  induction xs with
  | nil => rfl
  | cons x rest ih =>
    obtain ⟨hx, hrest⟩ := List.pairwise_cons.1 h
    rw [updateFirst, List.map_cons]
    split
    · next hp =>
      have hid : ∀ y ∈ rest, (if p y then f y else y) = y := fun y hy => by
        rw [hx y hy hp]
        rfl
      rw [List.map_congr_left hid, List.map_id']
    · rw [ih hrest]

end BoardAtlas.Listing
