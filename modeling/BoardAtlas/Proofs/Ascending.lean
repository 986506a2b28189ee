import BoardAtlas.Listing
import Mathlib.Data.List.Sort

/-!
# Ascending lists

An ascending list holds each element once and is known from its elements alone.

* `mem_dropRepeats`, `pairwise_dropRepeats`: copies side by side;
* `mem_ascending`, `pairwise_ascending`: any order;
* **`pairwise_ascendingNumbers`**, **`pairwise_ascendingTexts`**: numbers and texts strictly increase;
* `ascendingNumbers_congr`: lists with the same elements;
* `foldl_max_bounds`, `foldl_max_attained`: the largest number.
-/

namespace BoardAtlas.Listing

section Order

variable {α : Type} [BEq α] [LawfulBEq α]

theorem mem_dropRepeats {x : α} {xs : List α} : x ∈ dropRepeats xs ↔ x ∈ xs := by
  fun_induction dropRepeats xs with
  | case1 => rfl
  | case2 y => rfl
  | case3 y z rest h ih =>
    have hyz : y = z := by simpa using h
    rw [ih, hyz]
    simp
  | case4 y z rest h ih =>
    rw [List.mem_cons, ih]
    exact List.mem_cons.symm

/-- Where copies stand side by side, each element is left once. -/
theorem pairwise_dropRepeats {le : α → α → Prop} (antisymm : ∀ a b, le a b → le b a → a = b)
    {xs : List α} (h : xs.Pairwise le) : (dropRepeats xs).Pairwise fun a b => le a b ∧ a ≠ b := by
  fun_induction dropRepeats xs with
  | case1 => exact List.Pairwise.nil
  | case2 y => exact List.pairwise_singleton _ y
  | case3 y z rest _ ih => exact ih (List.pairwise_cons.1 h).2
  | case4 y z rest hne ih =>
    obtain ⟨hy, hrest⟩ := List.pairwise_cons.1 h
    refine List.pairwise_cons.2 ⟨fun x hx => ?_, ih hrest⟩
    have hx' : x ∈ z :: rest := mem_dropRepeats.1 hx
    refine ⟨hy x hx', ?_⟩
    rintro rfl
    -- A copy of `y` behind `z` would have `z` between two equal elements.
    have hzy : le z y := by
      rcases List.mem_cons.1 hx' with rfl | hm
      · exact hy y hx'
      · exact (List.pairwise_cons.1 hrest).1 y hm
    have hyz : y = z := antisymm y z (hy z List.mem_cons_self) hzy
    exact hne (by simpa using hyz)

variable {le : α → α → Bool}

theorem mem_ascending {x : α} {xs : List α} : x ∈ ascending le xs ↔ x ∈ xs := by
  rw [ascending, mem_dropRepeats, List.mem_mergeSort]

variable (le) in
theorem pairwise_ascending (trans : ∀ a b c, le a b = true → le b c = true → le a c = true)
    (total : ∀ a b, (le a b || le b a) = true)
    (antisymm : ∀ a b, le a b = true → le b a = true → a = b) (xs : List α) :
    (ascending le xs).Pairwise fun a b => le a b = true ∧ a ≠ b :=
  pairwise_dropRepeats antisymm (List.pairwise_mergeSort trans total xs)

end Order

/-! ## Numbers -/

theorem mem_ascendingNumbers {x : Nat} {xs : List Nat} : x ∈ ascendingNumbers xs ↔ x ∈ xs :=
  mem_ascending

theorem pairwise_ascendingNumbers (xs : List Nat) : (ascendingNumbers xs).Pairwise (· < ·) := by
  have h := pairwise_ascending (fun a b : Nat => decide (a ≤ b))
    (fun a b c hab hbc => by simp only [decide_eq_true_eq] at *; omega)
    (fun a b => by simp only [Bool.or_eq_true, decide_eq_true_eq]; omega)
    (fun a b hab hba => by simp only [decide_eq_true_eq] at *; omega) xs
  refine h.imp fun {a b} hab => ?_
  have hle : a ≤ b := by simpa using hab.1
  have hne := hab.2
  omega

theorem ascendingNumbers_congr {xs ys : List Nat} (h : ∀ x, x ∈ xs ↔ x ∈ ys) :
    ascendingNumbers xs = ascendingNumbers ys := by
  refine List.Pairwise.eq_of_mem_iff (pairwise_ascendingNumbers xs) (pairwise_ascendingNumbers ys)
    fun x => ?_
  rw [mem_ascendingNumbers, mem_ascendingNumbers, h]

/-! ## The largest number -/

section Largest

variable {α : Type} {f : α → Nat}

theorem foldl_max_bounds (xs : List α) (n : Nat) :
    n ≤ xs.foldl (fun m x => max m (f x)) n ∧ ∀ x ∈ xs, f x ≤ xs.foldl (fun m x => max m (f x)) n := by
  induction xs generalizing n with
  | nil => simp
  | cons y rest ih =>
    obtain ⟨hstart, hrest⟩ := ih (max n (f y))
    rw [List.foldl_cons]
    refine ⟨Nat.le_trans (Nat.le_max_left _ _) hstart, List.forall_mem_cons.2 ⟨?_, hrest⟩⟩
    exact Nat.le_trans (Nat.le_max_right _ _) hstart

theorem foldl_max_attained (xs : List α) (n : Nat) :
    xs.foldl (fun m x => max m (f x)) n = n ∨ ∃ x ∈ xs, f x = xs.foldl (fun m x => max m (f x)) n := by
  induction xs generalizing n with
  | nil => exact Or.inl rfl
  | cons y rest ih =>
    rw [List.foldl_cons]
    rcases ih (max n (f y)) with h | ⟨x, hx, he⟩
    · rw [h]
      rcases Nat.le_total n (f y) with hle | hle
      · exact Or.inr ⟨y, List.mem_cons_self, (Nat.max_eq_right hle).symm⟩
      · exact Or.inl (Nat.max_eq_left hle)
    · exact Or.inr ⟨x, List.mem_cons_of_mem _ hx, he⟩

end Largest

/-! ## Texts -/

theorem mem_ascendingTexts {x : String} {xs : List String} : x ∈ ascendingTexts xs ↔ x ∈ xs :=
  mem_ascending

theorem pairwise_ascendingTexts (xs : List String) : (ascendingTexts xs).Pairwise (· < ·) := by
  have hle (a b : String) : (!decide (b < a)) = true ↔ a ≤ b := by
    rw [Bool.not_eq_true', decide_eq_false_iff_not, String.not_lt]
  have h := pairwise_ascending (fun a b : String => !decide (b < a))
    (fun a b c hab hbc => (hle a c).2 (String.le_trans ((hle a b).1 hab) ((hle b c).1 hbc)))
    (fun a b => by
      rw [Bool.or_eq_true, hle, hle]
      exact String.le_total a b)
    (fun a b hab hba => String.le_antisymm ((hle a b).1 hab) ((hle b a).1 hba)) xs
  refine h.imp fun {a b} hab => ?_
  by_contra hlt
  exact hab.2 (String.le_antisymm ((hle a b).1 hab.1) (String.not_lt.1 hlt))

theorem ascendingTexts_of_pairwise {xs : List String} (h : xs.Pairwise (· < ·)) : ascendingTexts xs = xs :=
  List.Pairwise.eq_of_mem_iff (pairwise_ascendingTexts xs) h fun _ => mem_ascendingTexts

end BoardAtlas.Listing
