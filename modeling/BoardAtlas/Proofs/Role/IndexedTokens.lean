import BoardAtlas.Role.Format
import Mathlib.Data.List.TakeWhile

/-!
# Indexed tokens

A token of an indexed bus is digits, an underscore and a signal, such as `1_RX`. The digits end at the first underscore,
so that a signal may hold underscores and digits itself; only the ten ASCII digits count, whatever else looks like one.

* `IsIndexed`, `splitIndexed?_eq_some_iff_isIndexed`: the form of such tokens, which are the ones that are split;
* `IsIndexed.index_eq_takeWhile`, `IsIndexed.unique`: a token has that form in one way at most;
* **`splitIndexed?_unique`**: which tokens are split, and into what.
-/

namespace BoardAtlas

/-- **The form of an indexed token**: an index of ASCII digits, an underscore and a signal, neither of them empty. -/
structure IsIndexed (token index signal : String) : Prop where
  eq : token = index ++ "_" ++ signal
  index_ne : index ≠ ""
  digits : ∀ c ∈ index.toList, '0' ≤ c ∧ c ≤ '9'
  signal_ne : signal ≠ ""

theorem isDigit_iff {c : Char} : c.isDigit = true ↔ '0' ≤ c ∧ c ≤ '9' := by
  simp [Char.isDigit, Char.le_def]

variable {token index signal index' signal' : String}

theorem splitIndexed?_eq_some_iff_isIndexed :
    splitIndexed? token = some (index, signal) ↔ IsIndexed token index signal := by
  rw [splitIndexed?_eq_some_iff, isNumeral_iff]
  constructor
  · rintro ⟨heq, ⟨hne, hdigits⟩, hsignal⟩
    exact ⟨heq, by simpa using hne, fun c hc => isDigit_iff.1 (hdigits c hc), hsignal⟩
  · rintro ⟨heq, hne, hdigits, hsignal⟩
    exact ⟨heq, ⟨by simpa using hne, fun c hc => isDigit_iff.2 (hdigits c hc)⟩, hsignal⟩

theorem IsIndexed.index_eq_takeWhile (h : IsIndexed token index signal) :
    index.toList = token.toList.takeWhile Char.isDigit := by
  have htoken : token.toList = index.toList ++ '_' :: signal.toList := by simp [h.eq]
  have hdigits : ∀ c ∈ index.toList, c.isDigit = true := fun c hc => isDigit_iff.2 (h.digits c hc)
  rw [htoken, List.takeWhile_append_of_pos hdigits, List.takeWhile_cons_of_neg (by decide), List.append_nil]

/-- **A token has the form in one way at most.** -/
theorem IsIndexed.unique (h : IsIndexed token index signal) (h' : IsIndexed token index' signal') :
    index = index' ∧ signal = signal' := by
  have hindex : index = index' := String.toList_inj.1 (h.index_eq_takeWhile.trans h'.index_eq_takeWhile.symm)
  subst hindex
  have htoken : index ++ "_" ++ signal = index ++ "_" ++ signal' := h.eq.symm.trans h'.eq
  exact ⟨rfl, by simpa using htoken⟩

/-- **Indexed tokens are split in one way.** A token is split exactly when it is an index of ASCII digits, an
underscore and a signal, neither of them empty. Putting them together gives the token. -/
theorem splitIndexed?_unique (token : String) :
    (∀ index signal, splitIndexed? token = some (index, signal) ↔ IsIndexed token index signal) ∧
    (splitIndexed? token = none ↔ ∀ index signal, ¬ IsIndexed token index signal) ∧
    (∀ index signal index' signal', IsIndexed token index signal → IsIndexed token index' signal' →
      index = index' ∧ signal = signal') ∧
    (∀ index signal, splitIndexed? token = some (index, signal) → index ++ "_" ++ signal = token) := by
  refine ⟨fun _ _ => splitIndexed?_eq_some_iff_isIndexed, ?_, fun _ _ _ _ h h' => h.unique h', fun index signal h => ?_⟩
  · rw [Option.eq_none_iff_forall_ne_some, Prod.forall]
    exact forall₂_congr fun _ _ => not_congr splitIndexed?_eq_some_iff_isIndexed
  · exact (splitIndexed?_eq_some_iff_isIndexed.1 h).eq.symm

/-- A signal with a digit and an underscore of its own, and a digit that is no ASCII digit. -/
theorem splitIndexed?_unique_arabicDigit : splitIndexed? "1_2_RX" = some ("1", "2_RX") ∧
    (∀ index signal, IsIndexed "1_2_RX" index signal → index = "1" ∧ signal = "2_RX") ∧
    (∀ index signal, ¬ IsIndexed "١_RX" index signal) := by
  obtain ⟨hsplit, -, hunique, -⟩ := splitIndexed?_unique "1_2_RX"
  obtain ⟨-, hnone, -, -⟩ := splitIndexed?_unique "١_RX"
  have htwo : splitIndexed? "1_2_RX" = some ("1", "2_RX") := by decide +kernel
  exact ⟨htwo, fun index signal h => hunique _ _ _ _ h ((hsplit _ _).1 htwo), hnone.1 (by decide +kernel)⟩

end BoardAtlas
