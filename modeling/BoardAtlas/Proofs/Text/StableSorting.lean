import BoardAtlas.Proofs.Text.NaturalOrder
import Mathlib.Data.List.Basic

/-!
# Sorting by the natural order

Texts have one sorted list whatever order they come in, and things that are sorted by a text keep their order
where the texts are the same.

* `NaturalLE`: a text does not come after another one;
* `StableSort`: what a stable sort by a key leaves, `StableSort.unique`: it leaves one list only, and
  `StableSort.filterMap`: what is made of the items is sorted too;
* **`stableSort_naturalSortBy`**: sorting by the natural order of a key is one;
* **`naturalCompare_order`**: the natural order and what is sorted by it.
-/

namespace BoardAtlas.Text

open Std

/-- A text comes before another one or is the same. -/
def NaturalLE (a b : String) : Prop := naturalCompare a b ≠ .gt

instance (a b : String) : Decidable (NaturalLE a b) := inferInstanceAs (Decidable (_ ≠ _))

/-! ## The order -/

theorem naturalLE_iff_isLE {a b : String} : NaturalLE a b ↔ (naturalCompare a b).isLE = true := by
  unfold NaturalLE
  cases naturalCompare a b <;> simp

theorem naturalLE_refl (a : String) : NaturalLE a a := by
  rw [naturalLE_iff_isLE, @ReflCmp.compare_self _ naturalCompare]
  rfl

theorem NaturalLE.trans {a b c : String} (hab : NaturalLE a b) (hbc : NaturalLE b c) :
    NaturalLE a c := by
  rw [naturalLE_iff_isLE] at *
  exact TransCmp.isLE_trans hab hbc

theorem naturalLE_total (a b : String) : NaturalLE a b ∨ NaturalLE b a := by
  unfold NaturalLE
  rw [@OrientedCmp.eq_swap _ naturalCompare _ b]
  cases naturalCompare a b <;> simp

theorem NaturalLE.antisymm {a b : String} (hab : NaturalLE a b) (hba : NaturalLE b a) : a = b := by
  unfold NaturalLE at *
  rw [@OrientedCmp.eq_swap _ naturalCompare _ b] at hba
  cases hc : naturalCompare a b with
  | lt => simp [hc] at hba
  | eq => exact LawfulEqCmp.eq_of_compare hc
  | gt => exact absurd hc hab

/-! ## Stable sorting -/

section Sorting

variable {α : Type} {key : α → String}

/-- What a stable sort leaves of a list: all of it, with keys that do not decrease, and in the old order where keys are
the same. -/
structure StableSort (key : α → String) (items sorted : List α) : Prop where
  perm : sorted.Perm items
  ordered : sorted.Pairwise fun a b => NaturalLE (key a) (key b)
  stable : ∀ k, sorted.filter (fun a => key a = k) = items.filter fun a => key a = k

theorem eq_of_forall_filter {sorted others : List α}
    (hs : sorted.Pairwise fun a b => NaturalLE (key a) (key b))
    (ho : others.Pairwise fun a b => NaturalLE (key a) (key b))
    (h : ∀ k, sorted.filter (fun a => key a = k) = others.filter fun a => key a = k) :
    sorted = others := by
  induction sorted generalizing others with
  | nil =>
    cases others with
    | nil => rfl
    | cons b others => simpa using h (key b)
  | cons a sorted ih =>
    cases others with
    | nil => simpa using h (key a)
    | cons b others =>
      obtain ⟨hfirst, hs⟩ := List.pairwise_cons.1 hs
      obtain ⟨hfirst', ho'⟩ := List.pairwise_cons.1 ho
      have hle {c : α} {rest : List α} (hc : ∀ x ∈ rest, NaturalLE (key c) (key x)) {x : α}
          (hx : x ∈ c :: rest) : NaturalLE (key c) (key x) := by
        rcases List.mem_cons.1 hx with rfl | hx
        · exact naturalLE_refl _
        · exact hc x hx
      -- Each of the two heads occurs in the other list, so neither comes before the other.
      have hmem (x : α) : x ∈ a :: sorted ↔ x ∈ b :: others := by
        have hx := congrArg (x ∈ ·) (h (key x))
        simpa [List.mem_filter] using hx
      have hkey : key a = key b :=
        (hle hfirst ((hmem b).2 List.mem_cons_self)).antisymm (hle hfirst' ((hmem a).1 List.mem_cons_self))
      have hheads := h (key b)
      rw [List.filter_cons_of_pos (by simpa using hkey), List.filter_cons_of_pos (by simp)] at hheads
      obtain ⟨rfl, -⟩ := List.cons.inj hheads
      refine congrArg (a :: ·) (ih hs ho' fun k => ?_)
      have hk := h k
      rw [List.filter_cons, List.filter_cons] at hk
      split at hk
      · exact (List.cons.inj hk).2
      · exact hk

/-- **A stable sort leaves one list only.** -/
theorem StableSort.unique {items sorted others : List α} (h : StableSort key items sorted)
    (ho : StableSort key items others) : sorted = others :=
  eq_of_forall_filter h.ordered ho.ordered fun k => (h.stable k).trans (ho.stable k).symm

/-- What is sorted stays so when each item is replaced by one with the same key, or is left out. -/
theorem StableSort.filterMap {β : Type} {key' : β → String} {f : α → Option β} {items sorted : List α}
    (h : StableSort key items sorted) (hkey : ∀ a b, f a = some b → key' b = key a) :
    StableSort key' (items.filterMap f) (sorted.filterMap f) where
  perm := h.perm.filterMap f
  ordered := by
    refine h.ordered.filterMap f fun a b hab x hx y hy => ?_
    rw [hkey a x hx, hkey b y hy]
    exact hab
  stable k := by
    have hfilter (l : List α) :
        (l.filterMap f).filter (fun b => key' b = k) = (l.filter fun a => key a = k).filterMap f := by
      rw [List.filter_filterMap, List.filterMap_filter]
      refine List.filterMap_congr fun a _ => ?_
      cases hf : f a with
      | none => simp
      | some b => simp [Option.filter, hkey a b hf]
    rw [hfilter, hfilter, h.stable k]

theorem filter_naturalSortBy (key : α → String) (items : List α) (k : String) :
    (naturalSortBy key items).filter (fun a => key a = k) = items.filter fun a => key a = k := by
  have hle (a b : String) : (naturalCompare a b != .gt) = true ↔ NaturalLE a b := by
    simp [NaturalLE]
  have hsame : (items.filter fun a => key a = k).Pairwise fun a b =>
      (naturalCompare (key a) (key b) != .gt) = true := by
    refine List.pairwise_iff_forall_sublist.2 fun {a b} hab => ?_
    have hkey (x : α) (hx : x ∈ [a, b]) : key x = k := by
      simpa using (List.mem_filter.1 (hab.subset hx)).2
    rw [hle, hkey a (by simp), hkey b (by simp)]
    exact naturalLE_refl k
  have hkept : (items.filter fun a => key a = k).Sublist (naturalSortBy key items) := by
    refine List.sublist_mergeSort (fun a b c hab hbc => ?_) (fun a b => ?_) hsame List.filter_sublist
    · rw [hle] at *
      exact hab.trans hbc
    · rw [Bool.or_eq_true, hle, hle]
      exact naturalLE_total _ _
  have hsub : (items.filter fun a => key a = k).Sublist
      ((naturalSortBy key items).filter fun a => key a = k) := by
    have h := hkept.filter fun a => key a = k
    rwa [List.filter_filter, List.filter_congr (q := fun a => decide (key a = k)) (by simp)] at h
  have hperm := (perm_naturalSortBy key items).filter fun a => key a = k
  exact (hsub.eq_of_length hperm.length_eq.symm).symm

/-- **Sorting by the natural order of a key is stable.** -/
theorem stableSort_naturalSortBy (key : α → String) (items : List α) :
    StableSort key items (naturalSortBy key items) :=
  ⟨perm_naturalSortBy key items, pairwise_naturalSortBy key items, filter_naturalSortBy key items⟩

end Sorting

theorem naturalSort_of_perm {items others : List String} (h : items.Perm others) :
    naturalSort items = naturalSort others := by
  have hcount (k : String) : (others.filter fun a => id a = k) = items.filter fun a => id a = k := by
    simp only [id_eq, List.filter_eq, h.count_eq k]
  obtain ⟨hperm, hordered, hstable⟩ := stableSort_naturalSortBy id others
  exact (stableSort_naturalSortBy id items).unique
    ⟨hperm.trans h.symm, hordered, fun k => (hstable k).trans (hcount k)⟩

/-- **The natural order is total** and tells all texts apart. Sorting by it leaves one list for all orders that texts
may come in, and sorting by a key is stable. -/
theorem naturalCompare_order :
    (∀ a, NaturalLE a a) ∧ (∀ a b, NaturalLE a b → NaturalLE b a → a = b) ∧
      (∀ a b c, NaturalLE a b → NaturalLE b c → NaturalLE a c) ∧
      (∀ a b, NaturalLE a b ∨ NaturalLE b a) ∧
      (∀ a b, naturalCompare a b = .eq ↔ a = b) ∧
      (∀ a b, naturalCompare a b = .lt ↔ naturalCompare b a = .gt) ∧
      (∀ items, StableSort id items (naturalSort items)) ∧
      (∀ items others, items.Perm others → naturalSort items = naturalSort others) ∧
      ∀ (α : Type) (key : α → String) (items : List α),
        StableSort key items (naturalSortBy key items) := by
  refine ⟨naturalLE_refl, fun _ _ => NaturalLE.antisymm, fun _ _ _ => NaturalLE.trans, naturalLE_total,
    fun a b => ⟨LawfulEqCmp.eq_of_compare, ?_⟩, fun a b => ?_, stableSort_naturalSortBy id,
    fun _ _ => naturalSort_of_perm, fun _ => stableSort_naturalSortBy⟩
  · rintro rfl
    exact ReflCmp.compare_self
  · rw [@OrientedCmp.eq_swap _ naturalCompare _ b]
    cases naturalCompare a b <;> simp

theorem naturalCompare_order_pins :
    NaturalLE "D2" "D10" ∧ NaturalLE "D10" "D010" ∧ NaturalLE "D2" "D010" ∧
      ["D10", "D2", "D010"].Perm ["D2", "D010", "D10"] ∧
      naturalSort ["D10", "D2", "D010"] = ["D2", "D10", "D010"] ∧
      naturalSort ["D2", "D010", "D10"] = ["D2", "D10", "D010"] := by
  obtain ⟨-, -, htrans, -, -, -, -, hperm, -⟩ := naturalCompare_order
  have hlow : NaturalLE "D2" "D10" := by decide
  have hhigh : NaturalLE "D10" "D010" := by decide
  have hpins : ["D10", "D2", "D010"].Perm ["D2", "D010", "D10"] := by decide
  have hsort : naturalSort ["D10", "D2", "D010"] = ["D2", "D10", "D010"] :=
    (naturalSort_of_perm (by decide)).trans (List.mergeSort_of_pairwise (by decide))
  exact ⟨hlow, hhigh, htrans _ _ _ hlow hhigh, hpins, hsort, (hperm _ _ hpins).symm.trans hsort⟩

end BoardAtlas.Text
