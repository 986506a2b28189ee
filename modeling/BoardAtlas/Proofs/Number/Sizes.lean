import BoardAtlas.Proofs.Number.Units

/-!
# Sizes

A size such as `1.5 KiB` is written in the unit in which the amount is below 1024. The unit is chosen before the amount
is rounded to one decimal, so that from 1023.95 on 1024 is written of the smaller unit and not 1 of the larger one.

* `Text.replaceAll_append_of_not_mem`, `Text.replaceAll_piece_append`: what replacing does to the front of a text;
* `tenthsText`, `replaceAll_tenths`: an amount without the zero behind its point;
* `IsSize`, `IsProperSize`: texts that are sizes, and sizes in the right unit;
* `IsPrinted`, `IsPrinted.exists_isProperSize_iff`: what is printed, and when it is in the right unit;
* **`byteSize_properSize`**: byte counts.
-/

namespace BoardAtlas

open Binary64

/-! ## Replacing -/

namespace Text

variable {c : Char} {piece new cs : List Char}

theorem replaceAll_append_of_not_mem (h : c ∉ cs) (ds : List Char) :
    replaceAll (c :: piece) new (cs ++ ds) = cs ++ replaceAll (c :: piece) new ds := by
  induction cs with
  | nil => rfl
  | cons a cs ih =>
    have hne : (c == a) = false := beq_false_of_ne fun ha => h (ha ▸ List.mem_cons_self)
    have hpiece : ¬(c :: piece ≠ [] ∧ (c :: piece).isPrefixOf (a :: (cs ++ ds)) = true) := by
      simp [List.isPrefixOf, hne]
    show replaceFrom (c :: piece) new 0 (a :: (cs ++ ds)) = _
    rw [replaceFrom, if_neg hpiece]
    exact congrArg (a :: ·) (ih fun hc => h (List.mem_cons_of_mem a hc))

theorem replaceAll_of_not_mem (h : c ∉ cs) : replaceAll (c :: piece) new cs = cs := by
  have hend : replaceAll (c :: piece) new [] = [] := rfl
  rw [← List.append_nil cs, replaceAll_append_of_not_mem h, hend]

theorem replaceFrom_length (dropped ds : List Char) :
    replaceFrom piece new dropped.length (dropped ++ ds) = replaceFrom piece new 0 ds := by
  induction dropped with
  | nil => rfl
  | cons a dropped ih => exact ih

theorem replaceAll_piece_append (ds : List Char) :
    replaceAll (c :: piece) new (c :: piece ++ ds) = new ++ replaceAll (c :: piece) new ds := by
  have hpiece : c :: piece ≠ [] ∧ (c :: piece).isPrefixOf (c :: (piece ++ ds)) = true := by
    simp [List.isPrefixOf_iff_prefix]
  show replaceFrom (c :: piece) new 0 (c :: (piece ++ ds)) = _
  rw [replaceFrom, if_pos hpiece]
  exact congrArg (new ++ ·) (replaceFrom_length piece ds)

theorem replaceAll_cons_cons {a b : Char} (h : a ≠ b) (ds : List Char) :
    replaceAll (c :: a :: piece) new (c :: b :: ds) = c :: replaceAll (c :: a :: piece) new (b :: ds) := by
  have hpiece : ¬(c :: a :: piece ≠ [] ∧ (c :: a :: piece).isPrefixOf (c :: b :: ds) = true) := by
    simp [List.isPrefixOf, h]
  show replaceFrom (c :: a :: piece) new 0 (c :: b :: ds) = _
  rw [replaceFrom, if_neg hpiece]
  rfl

end Text

/-! ## Texts of amounts -/

/-- Tenths as text; nothing is written behind whole numbers. -/
def tenthsText (t : ℕ) : String :=
  if t % 10 = 0 then toString (t / 10) else toString (t / 10) ++ "." ++ toString (t % 10)

theorem not_mem_toString {c : Char} (hc : c.isDigit = false) (n : ℕ) : c ∉ (toString n).toList := by
  show c ∉ n.repr.toList
  rw [Nat.toList_repr]
  intro h
  rw [Nat.isDigit_of_mem_toDigits (by decide) (by decide) h] at hc
  exact Bool.noConfusion hc

theorem digitChar_ne_zero {d : ℕ} (hd : d < 10) (h : d ≠ 0) : '0' ≠ d.digitChar := by
  interval_cases d
  · exact absurd rfl h
  all_goals decide

theorem digitChar_ne_point {d : ℕ} (hd : d < 10) : '.' ≠ d.digitChar := by
  interval_cases d <;> decide

/-- **A zero behind the point is taken out**, with the point, and nothing else is changed. -/
theorem replaceAll_tenths (t : ℕ) {unit : List Char} (h : '.' ∉ unit) :
    Text.replaceAll ".0 ".toList " ".toList ((toString (t / 10) ++ "." ++ toString (t % 10)).toList ++ ' ' :: unit) =
      (tenthsText t).toList ++ ' ' :: unit := by
  have hpiece : ".0 ".toList = ['.', '0', ' '] := rfl
  have hnew : " ".toList = [' '] := rfl
  have hd : t % 10 < 10 := Nat.mod_lt t (by decide)
  have htext : (toString (t / 10) ++ "." ++ toString (t % 10)).toList ++ ' ' :: unit =
      (toString (t / 10)).toList ++ '.' :: (t % 10).digitChar :: ' ' :: unit := by
    simp [Nat.toDigits_of_lt_base hd]
  rw [hpiece, hnew, htext, Text.replaceAll_append_of_not_mem (not_mem_toString (by decide) _), tenthsText]
  split
  · next hzero =>
    rw [hzero]
    exact congrArg _ ((Text.replaceAll_piece_append unit).trans (congrArg _ (Text.replaceAll_of_not_mem h)))
  · next hzero =>
    have hrest : '.' ∉ (t % 10).digitChar :: ' ' :: unit := by
      simp [h, digitChar_ne_point hd]
    rw [Text.replaceAll_cons_cons (digitChar_ne_zero hd hzero), Text.replaceAll_of_not_mem hrest]
    simp [Nat.toDigits_of_lt_base hd]

theorem sizeText_eq {x y base : Float} {letter suffix : String} {t : ℕ}
    (hscaled : scaled (fun y => decide (y.abs < base)) base x unitLetters = (y, letter))
    (htext : oneDecimal y = toString (t / 10) ++ "." ++ toString (t % 10)) (hunit : '.' ∉ (letter ++ suffix).toList) :
    sizeText x suffix base = tenthsText t ++ " " ++ letter ++ suffix := by
  have hlist (s : String) : (s ++ " " ++ letter ++ suffix).toList = s.toList ++ ' ' :: (letter ++ suffix).toList := by
    simp
  have hreplaced := replaceAll_tenths t hunit
  rw [← hlist, ← hlist] at hreplaced
  rw [sizeText, hscaled]
  dsimp only
  rw [htext, hreplaced, String.ofList_toList]

/-! ## Sizes as text -/

/-- **A text is a size**: so many tenths of the k-th unit, the number of tenths that is nearest to an amount. -/
structure IsSize (text : String) (amount : ℚ) (t k : ℕ) : Prop where
  text_eq : ∃ letter, unitLetters[k]? = some letter ∧ text = tenthsText t ++ " " ++ letter ++ "iB"
  near : |(t : ℚ) / 10 - amount / 1024 ^ k| ≤ 1 / 20

/-- **A size in the right unit**: what is printed is below 1024, and not below one but in the first unit. -/
structure IsProperSize (text : String) (amount : ℚ) (t k : ℕ) : Prop extends IsSize text amount t k where
  lt_base : t < 10240
  one_le : 0 < k → 10 ≤ t

section Sizes

variable {text : String} {w t k : ℕ}

theorem near_iff : |(t : ℚ) / 10 - w / 1024 ^ k| ≤ 1 / 20 ↔
    2 * (t * 1024 ^ k) ≤ 20 * w + 1024 ^ k ∧ 20 * w ≤ 2 * (t * 1024 ^ k) + 1024 ^ k := by
  have hunit : (0 : ℚ) < 1024 ^ k := by positivity
  rw [abs_tenths_sub_le_iff hunit, div_mul_cancel₀ _ hunit.ne']
  norm_cast

namespace IsSize

variable (h : IsSize text w t k)

include h

theorem le_base (hlt : w < 1024 ^ (k + 1)) : t ≤ 10240 := by
  obtain ⟨hlow, -⟩ := near_iff.1 h.near
  by_contra hgt
  have hmul : 10241 * 1024 ^ k ≤ t * 1024 ^ k := Nat.mul_le_mul_right _ (by omega)
  rw [Nat.pow_succ] at hlt
  omega

theorem ten_le (hle : 1024 ^ k ≤ w) : 10 ≤ t := by
  obtain ⟨-, hhigh⟩ := near_iff.1 h.near
  by_contra hlt
  have hmul : t * 1024 ^ k ≤ 9 * 1024 ^ k := Nat.mul_le_mul_right _ (by omega)
  have : 0 < 1024 ^ k := Nat.pow_pos (by decide)
  omega

theorem base_le_iff : 10240 ≤ t ↔ 20479 * 1024 ^ k ≤ 20 * w := by
  obtain ⟨hlow, hhigh⟩ := near_iff.1 h.near
  constructor
  · intro hle
    have hmul : 10240 * 1024 ^ k ≤ t * 1024 ^ k := Nat.mul_le_mul_right _ hle
    omega
  · intro hle
    by_contra hgt
    have hmul : t * 1024 ^ k ≤ 10239 * 1024 ^ k := Nat.mul_le_mul_right _ (by omega)
    have hfive : 5 ∣ 20479 * 1024 ^ k := ⟨4 * w, by omega⟩
    have hcoprime : Nat.Coprime 5 (20479 * 1024 ^ k) := Nat.Coprime.mul_right (by decide) (.pow_right k (by decide))
    exact absurd (hcoprime.eq_one_of_dvd hfive) (by decide)

end IsSize

/-! ### What is printed -/

/-- **What is printed of an amount**: the unit is the one in which it is below the base before it is rounded. -/
structure IsPrinted (text : String) (w t k : ℕ) : Prop extends IsSize text w t k where
  le : 0 < k → 1024 ^ k ≤ w
  lt : w < 1024 ^ (k + 1)

theorem tenthsText_one_ne (l l' : String) :
    tenthsText 10 ++ " " ++ l ++ "iB" ≠ tenthsText 10240 ++ " " ++ l' ++ "iB" := by
  have hone : tenthsText 10 = "1" := rfl
  have hbase : tenthsText 10240 = "1024" := by decide +kernel
  intro h
  have hlist := congrArg String.toList h
  simp [hone, hbase] at hlist

namespace IsPrinted

variable (h : IsPrinted text w t k)

include h

theorem isProperSize (ht : t < 10240) : IsProperSize text w t k :=
  ⟨h.toIsSize, ht, fun hk => h.ten_le (h.le hk)⟩

theorem eq_unit {j : ℕ} (hle : 20479 * 1024 ^ j ≤ 20 * w) (hlt : w < 1024 ^ (j + 1)) : j = k := by
  rcases Nat.lt_trichotomy j k with hjk | hjk | hjk
  · have hnext : 1024 ^ (j + 1) ≤ 1024 ^ k := Nat.pow_le_pow_right (by decide) hjk
    have := h.le (by omega)
    omega
  · exact hjk
  · have hnext : 1024 ^ (k + 1) ≤ 1024 ^ j := Nat.pow_le_pow_right (by decide) hjk
    have := h.lt
    omega

theorem eq_base (hbase : 20479 * 1024 ^ k ≤ 20 * w) : t = 10240 :=
  Nat.le_antisymm (h.le_base h.lt) (h.base_le_iff.2 hbase)

/-- **What is printed as 1024 is no size in the right unit**, whatever unit is read: it is too much in the unit that is
printed and in the smaller ones, and in the larger ones it would have to be 1. -/
theorem not_isProperSize (hbase : 20479 * 1024 ^ k ≤ 20 * w) {t' k' : ℕ} : ¬ IsProperSize text w t' k' := by
  intro h'
  obtain ⟨hlow, hhigh⟩ := near_iff.1 h'.near
  have hunit : 0 < 1024 ^ k' := Nat.pow_pos (by decide)
  rcases Nat.lt_trichotomy k' k with hlt | rfl | hgt
  · have hnext : 1024 ^ (k' + 1) ≤ 1024 ^ k := Nat.pow_le_pow_right (by decide) hlt
    have hmul : t' * 1024 ^ k' ≤ 10239 * 1024 ^ k' := Nat.mul_le_mul_right _ (by have := h'.lt_base; omega)
    rw [Nat.pow_succ] at hnext
    omega
  · exact absurd (h'.base_le_iff.2 hbase) (Nat.not_le.2 h'.lt_base)
  · have hnext : 1024 ^ (k + 1) ≤ 1024 ^ k' := Nat.pow_le_pow_right (by decide) hgt
    have hone : t' = 10 := by
      refine Nat.le_antisymm ?_ (h'.one_le (Nat.zero_lt_of_lt hgt))
      by_contra hmore
      have hmul : 11 * 1024 ^ k' ≤ t' * 1024 ^ k' := Nat.mul_le_mul_right _ (by omega)
      have := h.lt
      omega
    obtain ⟨letter, -, htext⟩ := h.text_eq
    obtain ⟨letter', -, htext'⟩ := h'.text_eq
    rw [hone] at htext'
    rw [h.eq_base hbase] at htext
    exact tenthsText_one_ne letter' letter (htext'.symm.trans htext)

/-- **When a size is printed in the right unit.** -/
theorem exists_isProperSize_iff : (∃ t k, IsProperSize text w t k) ↔
    ∀ j, 20 * w < 20479 * 1024 ^ j ∨ 1024 ^ (j + 1) ≤ w := by
  constructor
  · rintro ⟨t', k', hproper⟩ j
    by_contra hj
    obtain ⟨hle, hlt⟩ := not_or.1 hj
    obtain rfl := h.eq_unit (Nat.not_lt.1 hle) (Nat.not_le.1 hlt)
    exact h.not_isProperSize (Nat.not_lt.1 hle) hproper
  · intro hall
    have hsmall := (hall k).resolve_right (Nat.not_le.2 h.lt)
    exact ⟨t, k, h.isProperSize (Nat.not_le.1 (mt h.base_le_iff.1 (Nat.not_le.2 hsmall)))⟩

end IsPrinted

theorem isPrinted_byteSize_zero : IsPrinted (byteSize 0) 0 0 0 where
  text_eq := ⟨"", rfl, by decide +kernel⟩
  near := by norm_num
  le := fun h => absurd h (Nat.lt_irrefl 0)
  lt := Nat.pow_pos (by decide)

/-- **What is printed of a byte count** that a double below 1024^8 stands for. -/
theorem isPrinted_byteSize {n : ℕ} (hfinite : (ofNat n).isFinite = true) (hw : rational (ofNat n) = w) (hpos : 0 < w)
    (hlt : w < 1024 ^ 8) : ∃ t k, IsPrinted (byteSize n) w t k := by
  have hpositive : 0 < rational (ofNat n) := by
    rw [hw]
    exact Nat.cast_pos.2 hpos
  obtain ⟨k, y, letter, hscaled, hunit, hletter, hsmall⟩ := scaled_spec unitLetters hfinite hpositive
  -- The amount is too small for the letter behind the last one.
  have hk : k < unitLetters.length := by
    by_contra hgt
    have hpow : 1024 ^ 8 ≤ 1024 ^ k := Nat.pow_le_pow_right (by decide) (Nat.not_lt.1 hgt)
    have hle := hunit.pow_le hw (Nat.lt_of_lt_of_le (by decide) (Nat.not_lt.1 hgt))
    omega
  rw [List.getElem?_append_left hk] at hletter
  have hpoint : '.' ∉ (letter ++ "iB").toList := by
    have hletters : ∀ l ∈ unitLetters, '.' ∉ (l ++ "iB").toList := by decide
    exact hletters letter (List.mem_of_getElem? hletter)
  obtain ⟨t, htext, hnear⟩ := oneDecimal_spec hunit.finite (hunit.pos hpositive)
  rw [hunit.eq, hw] at hnear
  exact ⟨t, k, ⟨⟨letter, hletter, sizeText_eq hscaled htext hpoint⟩, hnear⟩, hunit.pow_le hw,
    hunit.lt_pow hw (hsmall hk)⟩

/-- **Sizes are printed in the right unit**, but just below the next one: the text is below 1024 and at most 0.05 from
the amount exactly when the amount is not in [1023.95, 1024) of any unit. -/
theorem byteSize_properSize {n : ℕ} (hn : n < 2 ^ 64) :
    ∃ w : ℕ, rational (ofNat n) = w ∧ (n ≤ 2 ^ 53 → w = n) ∧ |(w : ℚ) - n| ≤ n / 2 ^ 53 ∧
      ((∃ t k, IsProperSize (byteSize n) w t k) ↔ ∀ k, 20 * w < 20479 * 1024 ^ k ∨ 1024 ^ (k + 1) ≤ w) ∧
      ∀ k, 20479 * 1024 ^ k ≤ 20 * w → w < 1024 ^ (k + 1) →
        ∃ letter, unitLetters[k]? = some letter ∧ byteSize n = "1024 " ++ letter ++ "iB" := by
  obtain ⟨hfinite, w, hw, hexact, hhigh, hlow⟩ := ofNat_spec hn
  obtain ⟨t, k, hprinted⟩ : ∃ t k, IsPrinted (byteSize n) w t k := by
    rcases Nat.eq_zero_or_pos w with rfl | hpos
    · obtain rfl : n = 0 := by omega
      exact ⟨0, 0, isPrinted_byteSize_zero⟩
    · exact isPrinted_byteSize hfinite hw hpos (by omega)
  refine ⟨w, hw, hexact, ?_, hprinted.exists_isProperSize_iff, fun j hle hlt => ?_⟩
  · have hhigh' := Rat.natCast_le_natCast.2 hhigh
    have hlow' := Rat.natCast_le_natCast.2 hlow
    push_cast at hhigh' hlow'
    rw [abs_le]
    constructor <;> linarith
  · obtain rfl := hprinted.eq_unit hle hlt
    obtain ⟨letter, hletter, htext⟩ := hprinted.text_eq
    rw [hprinted.eq_base hle] at htext
    exact ⟨letter, hletter, htext⟩

/-- The last size in kibibytes that is printed in the right unit, and the first that is not. -/
theorem byteSize_properSize_kibibytes :
    (∃ t k, IsProperSize (byteSize 1048524) (1048524 : ℕ) t k) ∧ byteSize 1048525 = "1024 KiB" := by
  obtain ⟨w, -, hexact, -, hproper, -⟩ := byteSize_properSize (n := 1048524) (by decide)
  obtain ⟨w', -, hexact', -, -, hbase⟩ := byteSize_properSize (n := 1048525) (by decide)
  obtain rfl := hexact (by decide)
  obtain rfl := hexact' (by decide)
  constructor
  · refine hproper.2 fun k => ?_
    rcases k with _ | _ | k
    · exact .inr (by decide)
    · exact .inl (by decide)
    · have hpow : 1024 ^ 2 ≤ 1024 ^ (k + 1 + 1) := Nat.pow_le_pow_right (by decide) (by omega)
      exact .inl (by omega)
  · obtain ⟨letter, hletter, htext⟩ := hbase 1 (by decide) (by decide)
    obtain rfl := Option.some.inj hletter
    exact htext

/-- A count that is printed as 1024 of a unit, and that is no size in the right unit. -/
theorem byteSize_overBase : ∃ n < 2 ^ 64, byteSize n = "1024 KiB" ∧ ∀ t k, ¬ IsProperSize (byteSize n) n t k := by
  have htext : byteSize 1048525 = "1024 KiB" := by decide +kernel
  have hprinted : IsPrinted (byteSize 1048525) 1048525 10240 1 :=
    { text_eq := ⟨"K", rfl, htext⟩
      near := near_iff.2 (by decide)
      le := fun _ => by decide
      lt := by decide }
  exact ⟨1048525, by decide, htext, fun t k => hprinted.not_isProperSize (by decide)⟩

end Sizes

end BoardAtlas
