import BoardAtlas.Text.Natural

/-!
# The natural order is total

Each layer of the order is oriented and transitive and tells different things apart: characters, digits with
their zeros, runs, and lists of runs. So texts that are sorted by it can be compared place by place.

* `compareChars`, `compareDigits`, `Run.compare`, `compareRuns`: instances of `TransCmp` and `LawfulEqCmp`;
* `flatMap_runs`: no character is lost in runs;
* **`naturalCompare`**: the same instances for texts;
* `perm_naturalSortBy`, `pairwise_lt_naturalSortBy`, `naturalSortBy_congr`: sorted lists.
-/

namespace BoardAtlas.Text

open Std

theorem transCmp_comap {α β : Type} {cmp : β → β → Ordering} [TransCmp cmp] (f : α → β) :
    TransCmp fun a b => cmp (f a) (f b) where
  eq_swap := OrientedCmp.eq_swap
  isLE_trans := TransCmp.isLE_trans

/-! ## Characters and digits -/

theorem compareChars_eq : compareChars = List.compareLex (compareOn Char.toNat) := by
  funext as bs
  induction as generalizing bs with
  | nil => cases bs <;> rfl
  | cons a as ih =>
    cases bs with
    | nil => rfl
    | cons b bs =>
      rw [compareChars, List.compareLex_cons_cons, ih]
      rfl

instance : TransCmp compareChars :=
  compareChars_eq ▸ inferInstanceAs (TransCmp (List.compareLex (compareOn Char.toNat)))

instance lawfulEqCmp_toNat : LawfulEqCmp (compareOn Char.toNat) where
  compare_self := ReflCmp.compare_self
  eq_of_compare h := Char.toNat_inj.1 (LawfulEqOrd.eq_of_compare h)

instance : LawfulEqCmp compareChars :=
  compareChars_eq ▸ inferInstanceAs (LawfulEqCmp (List.compareLex (compareOn Char.toNat)))

/-- The digits without leading zeros. -/
def significant (ds : List Char) : List Char := ds.dropWhile (· = '0')

theorem replicate_append_significant (ds : List Char) :
    List.replicate (ds.length - (significant ds).length) '0' ++ significant ds = ds := by
  have hsplit : ds.takeWhile (· = '0') ++ significant ds = ds := List.takeWhile_append_dropWhile
  have hlength := congrArg List.length hsplit
  rw [List.length_append] at hlength
  have hzeros : ds.takeWhile (· = '0') = List.replicate (ds.takeWhile (· = '0')).length '0' := by
    refine List.eq_replicate_iff.2 ⟨rfl, fun c hc => ?_⟩
    have h := List.all_eq_true.1 (List.all_takeWhile (p := (· = '0')) (l := ds)) c hc
    simpa using h
  have hcount : ds.length - (significant ds).length = (ds.takeWhile (· = '0')).length := by omega
  rw [hcount, ← hzeros, hsplit]

theorem compareDigits_eq : compareDigits =
    compareLex (compareLex (compareOn fun ds => (significant ds).length)
      fun as bs => compareChars (significant as) (significant bs)) (compareOn List.length) := rfl

instance : TransCmp fun as bs => compareChars (significant as) (significant bs) :=
  transCmp_comap significant

instance : TransCmp compareDigits :=
  compareDigits_eq ▸ inferInstanceAs (TransCmp
    (compareLex (compareLex (compareOn fun ds => (significant ds).length)
      fun as bs => compareChars (significant as) (significant bs)) (compareOn List.length)))

instance : LawfulEqCmp compareDigits where
  eq_of_compare {as bs} h := by
    obtain ⟨hvalue, hlength⟩ := Ordering.then_eq_eq.1 h
    have hs : significant as = significant bs :=
      LawfulEqCmp.eq_of_compare (Ordering.then_eq_eq.1 hvalue).2
    have hl : as.length = bs.length := LawfulEqOrd.eq_of_compare hlength
    rw [← replicate_append_significant as, ← replicate_append_significant bs, hs, hl]

/-! ## Runs -/

instance : TransCmp Run.compare where
  eq_swap {r s} := by
    cases r <;> cases s
    · exact @OrientedCmp.eq_swap _ compareDigits _ _ _
    · rfl
    · rfl
    · exact @OrientedCmp.eq_swap _ compareChars _ _ _
  isLE_trans {r s t} hrs hst := by
    cases r <;> cases s <;> cases t <;> first
      | exact @TransCmp.isLE_trans _ compareDigits _ _ _ _ hrs hst
      | exact @TransCmp.isLE_trans _ compareChars _ _ _ _ hrs hst
      | rfl
      | exact absurd hrs Bool.false_ne_true
      | exact absurd hst Bool.false_ne_true

instance : LawfulEqCmp Run.compare where
  eq_of_compare {r s} h := by
    cases r <;> cases s
    · exact congrArg Run.digits (@LawfulEqCmp.eq_of_compare _ compareDigits _ _ _ h)
    · cases h
    · cases h
    · exact congrArg Run.other (@LawfulEqCmp.eq_of_compare _ compareChars _ _ _ h)

theorem compareRuns_eq : compareRuns = List.compareLex Run.compare := by
  funext rs ss
  induction rs generalizing ss with
  | nil => cases ss <;> rfl
  | cons r rs ih =>
    cases ss with
    | nil => rfl
    | cons s ss => rw [compareRuns, List.compareLex_cons_cons, ih]

instance : TransCmp compareRuns :=
  compareRuns_eq ▸ inferInstanceAs (TransCmp (List.compareLex Run.compare))

instance : LawfulEqCmp compareRuns :=
  compareRuns_eq ▸ inferInstanceAs (LawfulEqCmp (List.compareLex Run.compare))

/-- The characters of a run. -/
def Run.chars : Run → List Char
  | .digits cs | .other cs => cs

/-- **No character is lost in runs.** -/
theorem flatMap_runs (cs : List Char) : (runs cs).flatMap Run.chars = cs := by
  have single (c : Char) : (Run.single c).chars = [c] := by
    unfold Run.single
    split <;> rfl
  induction cs with
  | nil => rfl
  | cons c cs ih =>
    rw [runs]
    split
    · next he _ =>
      rw [he] at ih
      exact congrArg (c :: ·) ih
    · next he _ =>
      rw [he] at ih
      exact congrArg (c :: ·) ih
    · rw [List.flatMap_cons, single, ih]
      rfl

/-! ## Texts -/

instance : TransCmp naturalCompare := transCmp_comap fun s : String => runs s.toList

/-- Texts that the order does not tell apart are the same. -/
instance : LawfulEqCmp naturalCompare where
  eq_of_compare {a b} h := by
    have hruns : runs a.toList = runs b.toList := LawfulEqCmp.eq_of_compare h
    have hchars : a.toList = b.toList := by
      rw [← flatMap_runs a.toList, ← flatMap_runs b.toList, hruns]
    exact String.toList_inj.1 hchars

/-! ## Sorting -/

section Sorting

variable {α : Type} (key : α → String)

theorem perm_naturalSortBy (items : List α) : (naturalSortBy key items).Perm items :=
  List.mergeSort_perm items _

theorem pairwise_naturalSortBy (items : List α) :
    (naturalSortBy key items).Pairwise fun a b => naturalCompare (key a) (key b) ≠ .gt := by
  have hle (a b : String) : (naturalCompare a b != .gt) = (naturalCompare a b).isLE := by
    cases naturalCompare a b <;> rfl
  have trans (a b c : α) (hab : (naturalCompare (key a) (key b) != .gt) = true)
      (hbc : (naturalCompare (key b) (key c) != .gt) = true) :
      (naturalCompare (key a) (key c) != .gt) = true := by
    rw [hle] at *
    exact TransCmp.isLE_trans hab hbc
  have total (a b : α) : ((naturalCompare (key a) (key b) != .gt) ||
      (naturalCompare (key b) (key a) != .gt)) = true := by
    rw [@OrientedCmp.eq_swap _ naturalCompare _ (key b)]
    cases naturalCompare (key a) (key b) <;> rfl
  exact (List.pairwise_mergeSort trans total items).imp fun h => by simpa using h

/-- **Where keys all differ, sorting makes them increase strictly.** -/
theorem pairwise_lt_naturalSortBy {items : List α} (h : (items.map key).Nodup) :
    (naturalSortBy key items).Pairwise fun a b => naturalCompare (key a) (key b) = .lt := by
  have hkeys : ((naturalSortBy key items).map key).Nodup :=
    ((perm_naturalSortBy key items).map key).nodup_iff.2 h
  refine ((pairwise_naturalSortBy key items).and (List.pairwise_map.1 hkeys)).imp ?_
  rintro a b ⟨hle, hne⟩
  cases hc : naturalCompare (key a) (key b) with
  | lt => rfl
  | eq => exact absurd (LawfulEqCmp.eq_of_compare hc) hne
  | gt => exact absurd hc hle

/-- Where keys all differ, the order before sorting does not show. -/
theorem naturalSortBy_congr {items others : List α} (hperm : items.Perm others)
    (h : (items.map key).Nodup) : naturalSortBy key items = naturalSortBy key others := by
  have hothers : (others.map key).Nodup := (hperm.map key).nodup_iff.1 h
  have antisymm (a b : α) (hab : naturalCompare (key a) (key b) = .lt)
      (hba : naturalCompare (key b) (key a) = .lt) : a = b := by
    rw [@OrientedCmp.eq_swap _ naturalCompare _ (key b), hab] at hba
    cases hba
  refine List.Perm.eq_of_pairwise (fun a b _ _ => antisymm a b) (pairwise_lt_naturalSortBy key h)
    (pairwise_lt_naturalSortBy key hothers) ?_
  exact (perm_naturalSortBy key items).trans (hperm.trans (perm_naturalSortBy key others).symm)

end Sorting

end BoardAtlas.Text
